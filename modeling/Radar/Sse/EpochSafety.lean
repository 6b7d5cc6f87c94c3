import Mathlib.Order.Lattice.Nat
import Mathlib.Tactic.SplitIfs
import Radar.Sse.Broadcaster

/-!
# Graphs of a cluster the UI has left

The relationship cache never holds or returns a graph from before a completed
reset, since a graph is stored under the lock that the reset clears under,
and the index stored beside a graph is its own. A frame is sent some time
after the last epoch check, so frames are safe only in runs in which no reset
completes in between.
-/

set_option autoImplicit false

namespace Radar.Sse

open Radar.Run

variable {X : Type} {indexByResource : Graph → X}

variable (indexByResource) in
/-- What a read knows of the graph it is about to return. -/
def ReaderSafe (settled : ℕ) : Reader X → Prop
  | .idle => True
  | .gating _ since => since ≤ settled
  | .loading _ since => since ≤ settled
  | .building _ since _ _ => since ≤ settled
  | .built _ since _ => since ≤ settled
  | .redirty _ since => since ≤ settled
  | .rereading _ since => since ≤ settled
  | .got since g => since ≤ g.epoch
  | .indexing since g => since ≤ g.epoch
  | .returned w since topo index => ∀ g, topo = some g → since ≤ g.epoch ∧
      (w = true → index = some (indexByResource g))

variable (indexByResource) in
structure EpochInv (s : Broadcaster X) : Prop where
  settled : s.settled ≤ s.topoEpoch
  resets : ∀ j e, s.resets j = some e → e ≤ s.topoEpoch
  cached : ∀ g, s.cache.topology = some g → s.settled ≤ g.epoch
  index : ∀ x, s.cache.index = some x → ∃ g, s.cache.topology = some g ∧ x = indexByResource g
  readers : ∀ i, ReaderSafe indexByResource s.settled (s.readers i)

theorem ReaderSafe.mono {settled later : ℕ} {r : Reader X} (h : settled ≤ later)
    (hr : ReaderSafe indexByResource settled r) : ReaderSafe indexByResource later r := by
  cases r with
  | idle => trivial
  | gating w since => exact le_trans hr h
  | loading w since => exact le_trans hr h
  | building w since epoch began => exact le_trans hr h
  | built w since g => exact le_trans hr h
  | redirty w since => exact le_trans hr h
  | rereading w since => exact le_trans hr h
  | got since g => exact hr
  | indexing since g => exact hr
  | returned w since topo index => exact hr

theorem fresh_inv : EpochInv indexByResource ({} : Broadcaster X) where
  settled := le_refl 0
  resets _ _ h := by cases h
  cached _ h := by cases h
  index _ h := by cases h
  readers _ := trivial

variable {s : Broadcaster X}

theorem mark_inv (h : EpochInv indexByResource s) :
    EpochInv indexByResource (markCachedTopologyDirty s) :=
  ⟨h.settled,h.resets,h.cached,h.index,h.readers⟩

theorem set_dirty_inv (h : EpochInv indexByResource s) (dirty : Bool) :
    EpochInv indexByResource (setDirty s dirty) :=
  ⟨h.settled,h.resets,h.cached,h.index,h.readers⟩

theorem set_worker_inv (h : EpochInv indexByResource s) (c : Cycle) :
    EpochInv indexByResource (setWorker s c) :=
  ⟨h.settled,h.resets,h.cached,h.index,h.readers⟩

theorem set_handler_inv (h : EpochInv indexByResource s) (i : ℕ) (d : Handler) :
    EpochInv indexByResource (setHandler s i d) :=
  ⟨h.settled,h.resets,h.cached,h.index,h.readers⟩

theorem send_inv (h : EpochInv indexByResource s) (g : Graph) :
    EpochInv indexByResource (send s g) :=
  ⟨h.settled,h.resets,h.cached,h.index,h.readers⟩

theorem set_reader_inv (h : EpochInv indexByResource s) (i : ℕ) {r : Reader X}
    (hr : ReaderSafe indexByResource s.settled r) :
    EpochInv indexByResource (setReader s i r) where
  settled := h.settled
  resets := h.resets
  cached := h.cached
  index := h.index
  readers := by
    intro j
    by_cases hj : j = i
    · subst hj
      simpa only [setReader, Function.update_self] using hr
    · simpa only [setReader, Function.update_of_ne hj] using h.readers j

/-- The check and the store are one critical section, so the stored graph is of this epoch. -/
theorem store_graph_inv (h : EpochInv indexByResource s) {g : Graph}
    (hg : ¬s.topoEpoch ≠ g.epoch) : EpochInv indexByResource (storeGraph s g) where
  settled := h.settled
  resets := h.resets
  cached := by
    intro g' hg'
    obtain rfl := Option.some.inj hg'
    exact not_not.mp hg ▸ h.settled
  index _ hx := nomatch hx
  readers := h.readers

/-- The index is stored only beside the graph it was built from. -/
theorem store_index_inv (h : EpochInv indexByResource s) {g : Graph}
    (hg : s.cache.topology = some g) :
    EpochInv indexByResource (storeIndex s (indexByResource g)) where
  settled := h.settled
  resets := h.resets
  cached := h.cached
  index _ hx := ⟨g,hg,(Option.some.inj hx).symm⟩
  readers := h.readers

theorem reset_bump_inv (h : EpochInv indexByResource s) (j : ℕ) :
    EpochInv indexByResource (resetBump s j) where
  settled := le_trans h.settled (Nat.le_succ _)
  resets := by
    intro i e he
    by_cases hi : i = j
    · subst hi
      simp only [resetBump, Function.update_self] at he
      exact le_of_eq (Option.some.inj he).symm
    · simp only [resetBump, Function.update_of_ne hi] at he
      exact le_trans (h.resets i e he) (Nat.le_succ _)
  cached := h.cached
  index := h.index
  readers := h.readers

theorem reset_clear_inv (h : EpochInv indexByResource s) {j e : ℕ} (he : s.resets j = some e) :
    EpochInv indexByResource (resetClear s j e) where
  settled := max_le h.settled (h.resets j e he)
  resets := by
    intro i e' he'
    by_cases hi : i = j
    · subst hi
      simp only [resetClear, Function.update_self] at he'
      cases he'
    · simp only [resetClear, Function.update_of_ne hi] at he'
      exact h.resets i e' he'
  cached _ hg := by cases hg
  index _ hx := by cases hx
  readers i := (h.readers i).mono (le_max_left _ _)

theorem work_inv (h : EpochInv indexByResource s) (k : ℕ) (flag : Bool) :
    EpochInv indexByResource (work s k flag) := by
  have hmove := set_worker_inv h
  have hmark := set_worker_inv (mark_inv h)
  cases hw : s.worker with
  | idle => simpa only [work, hw] using hmove _
  | begun epoch start clients =>
    simp only [work, hw]
    split_ifs
    · exact hmark _
    · exact hmove _
    · exact hmove _
  | checked epoch start =>
    simp only [work, hw]
    split_ifs
    · exact hmark _
    · exact hmove _
  | building epoch start began =>
    simp only [work, hw]
    split_ifs <;> exact hmove _
  | built start g =>
    simp only [work, hw]
    split_ifs with hg
    · exact hmove _
    · exact set_worker_inv (store_graph_inv h hg) _
  | rejected epoch start => simpa only [work, hw] using hmark _
  | grouping epoch start =>
    simp only [work, hw]
    split_ifs <;> exact hmove _
  | groups epoch start n =>
    cases n with
    | zero => simpa only [work, hw] using hmove _
    | succ n =>
      simp only [work, hw]
      split_ifs <;> exact hmove _
  | groupBuilding epoch start n began =>
    simp only [work, hw]
    split_ifs <;> exact hmove _
  | groupBuilt start n g =>
    simp only [work, hw]
    split_ifs <;> exact hmove _
  | authorizing start n g => simpa only [work, hw] using hmove _
  | sending start n g frames =>
    cases frames with
    | zero => simpa only [work, hw] using hmove _
    | succ m => simpa only [work, hw] using set_worker_inv (send_inv h g) _
  | abandoning start => simpa only [work, hw] using hmark _
  | ending start =>
    simp only [work, hw]
    exact ⟨h.settled,h.resets,h.cached,h.index,h.readers⟩

/-- A graph read from the cache is of an epoch no older than the last completed reset. -/
theorem after_get_safe (h : EpochInv indexByResource s) (w : Bool) {since : ℕ}
    (hs : since ≤ s.settled) :
    ReaderSafe indexByResource s.settled (afterGet w since s.cache.topology) := by
  cases ht : s.cache.topology with
  | none => exact fun _ hn => by cases hn
  | some g =>
    have hg := le_trans hs (h.cached g ht)
    cases w with
    | false =>
      intro g' hg'
      obtain rfl := Option.some.inj hg'
      exact ⟨hg,fun hw => by cases hw⟩
    | true => exact hg

theorem returned_safe {settled since : ℕ} {g : Graph} {x : X} (hs : since ≤ g.epoch)
    (hx : x = indexByResource g) :
    ReaderSafe indexByResource settled (.returned true since (some g) (some x)) := by
  intro g' hg'
  obtain rfl := Option.some.inj hg'
  exact ⟨hs,fun _ => by rw [hx]⟩

theorem get_inv (h : EpochInv indexByResource s) (i : ℕ) (w up : Bool) :
    EpochInv indexByResource (get s i w up) := by
  unfold get
  split_ifs
  · exact set_reader_inv h i (le_refl s.settled)
  · exact set_reader_inv h i (after_get_safe h w (le_refl s.settled))

theorem read_inv (h : EpochInv indexByResource s) {t : Broadcaster X} {i : ℕ} {flag : Bool}
    (ht : read indexByResource s i flag = some t) : EpochInv indexByResource t := by
  have hi := h.readers i
  cases hr : s.readers i with
  | idle => simp [read, hr] at ht
  | gating w since =>
    rw [hr] at hi
    simp only [read, hr] at ht
    split_ifs at ht
    · obtain rfl := Option.some.inj ht
      exact set_reader_inv (set_dirty_inv h false) i hi
    · obtain rfl := Option.some.inj ht
      exact set_reader_inv h i (after_get_safe h w hi)
  | loading w since =>
    rw [hr] at hi
    simp only [read, hr] at ht
    split_ifs at ht <;>
    · obtain rfl := Option.some.inj ht
      exact set_reader_inv h i hi
  | building w since epoch began =>
    rw [hr] at hi
    simp only [read, hr] at ht
    split_ifs at ht <;>
    · obtain rfl := Option.some.inj ht
      exact set_reader_inv h i hi
  | built w since g =>
    rw [hr] at hi
    simp only [read, hr] at ht
    split_ifs at ht with hg
    · obtain rfl := Option.some.inj ht
      exact set_reader_inv h i hi
    · obtain rfl := Option.some.inj ht
      exact set_reader_inv (store_graph_inv h hg) i hi
  | redirty w since =>
    rw [hr] at hi
    simp only [read, hr] at ht
    obtain rfl := Option.some.inj ht
    exact set_reader_inv (set_dirty_inv h true) i hi
  | rereading w since =>
    rw [hr] at hi
    simp only [read, hr] at ht
    obtain rfl := Option.some.inj ht
    exact set_reader_inv h i (after_get_safe h w hi)
  | got since g =>
    rw [hr] at hi
    simp only [read, hr] at ht
    split at ht
    · next x hx =>
      split_ifs at ht with hcur
      · obtain rfl := Option.some.inj ht
        obtain ⟨g',hg',hxg⟩ := h.index x hx
        obtain rfl := Option.some.inj (hcur.symm.trans hg')
        exact set_reader_inv h i (returned_safe hi hxg)
      · obtain rfl := Option.some.inj ht
        exact set_reader_inv h i hi
    · obtain rfl := Option.some.inj ht
      exact set_reader_inv h i hi
  | indexing since g =>
    rw [hr] at hi
    simp only [read, hr] at ht
    split_ifs at ht with hcur
    · obtain rfl := Option.some.inj ht
      exact set_reader_inv (store_index_inv h hcur) i (returned_safe hi rfl)
    · obtain rfl := Option.some.inj ht
      exact set_reader_inv h i (returned_safe hi rfl)
  | returned w since topo index => simp [read, hr] at ht

theorem handle_inv (h : EpochInv indexByResource s) {t : Broadcaster X} {i : ℕ} {flag : Bool}
    (ht : handle s i flag = some t) : EpochInv indexByResource t := by
  cases hd : s.handlers i with
  | idle => simp [handle, hd] at ht
  | building epoch began =>
    simp only [handle, hd] at ht
    split_ifs at ht <;>
    · obtain rfl := Option.some.inj ht
      exact set_handler_inv h i _
  | built g =>
    simp only [handle, hd] at ht
    split_ifs at ht <;>
    · obtain rfl := Option.some.inj ht
      exact set_handler_inv h i _
  | checked g =>
    simp only [handle, hd] at ht
    obtain rfl := Option.some.inj ht
    exact set_handler_inv (send_inv h g) i _
  | done => simp [handle, hd] at ht

theorem act_inv (h : EpochInv indexByResource s) {t : Broadcaster X} {a : Act}
    (ht : act indexByResource s a = some t) : EpochInv indexByResource t := by
  cases a with
  | change =>
    obtain rfl := Option.some.inj ht
    exact h
  | resetBump j =>
    simp only [act] at ht
    split at ht
    · obtain rfl := Option.some.inj ht
      exact reset_bump_inv h j
    · cases ht
  | resetClear j =>
    simp only [act] at ht
    split at ht
    · next e he =>
      obtain rfl := Option.some.inj ht
      exact reset_clear_inv h he
    · cases ht
  | work k flag =>
    obtain rfl := Option.some.inj ht
    exact work_inv h k flag
  | get i w up =>
    simp only [act] at ht
    split at ht
    · obtain rfl := Option.some.inj ht
      exact get_inv h i w up
    · cases ht
  | read i flag => exact read_inv h ht
  | openStream i =>
    simp only [act] at ht
    split at ht
    · obtain rfl := Option.some.inj ht
      exact set_handler_inv h i _
    · cases ht
  | handle i flag => exact handle_inv h ht

theorem epoch_step_inv (h : EpochInv indexByResource s) {t : Broadcaster X} {a : Act}
    (ht : step indexByResource s a = some t) : EpochInv indexByResource t := by
  obtain ⟨u,hu,rfl⟩ := step_act ht
  have hinv := act_inv h hu
  exact ⟨hinv.settled,hinv.resets,hinv.cached,hinv.index,hinv.readers⟩

section Frames

def Cycle.publishes : Cycle → Option Graph
  | .authorizing _ _ g => some g
  | .sending _ _ g (_+1) => some g
  | _ => none

def Handler.publishes : Handler → Option Graph
  | .checked g => some g
  | _ => none

/-- The graph of some publisher that has passed its last epoch check and has not sent it yet. -/
def Publishing (s : Broadcaster X) (g : Graph) : Prop :=
  s.worker.publishes = some g ∨ ∃ i, (s.handlers i).publishes = some g

/-- No reset completes while a frame of an earlier epoch is past its check and still to be sent. -/
def NoFrameLeft (s : Broadcaster X) : Act → Prop
  | .resetClear j => ∀ e, s.resets j = some e → ∀ g, Publishing s g → e ≤ g.epoch
  | _ => True

structure FramesInv (s : Broadcaster X) : Prop where
  worker : ∀ g, s.worker.publishes = some g → s.settled ≤ g.epoch
  handlers : ∀ i g, (s.handlers i).publishes = some g → s.settled ≤ g.epoch
  sent : ∀ f ∈ s.sent, f.settled ≤ f.graph.epoch

theorem fresh_frames : FramesInv ({} : Broadcaster X) where
  worker _ h := nomatch h
  handlers _ _ h := nomatch h
  sent _ h := nomatch h

theorem set_worker_frames (h : FramesInv s) {c : Cycle}
    (hc : ∀ g, c.publishes = some g → s.settled ≤ g.epoch) : FramesInv (setWorker s c) :=
  ⟨hc,h.handlers,h.sent⟩

/-- A step to a state of the cycle that publishes nothing. -/
theorem move_frames (h : FramesInv s) {c : Cycle} (hc : c.publishes = none) :
    FramesInv (setWorker s c) :=
  set_worker_frames h fun g hg => by rw [hc] at hg; cases hg

theorem mark_frames (h : FramesInv s) : FramesInv (markCachedTopologyDirty s) :=
  ⟨h.worker,h.handlers,h.sent⟩

theorem store_graph_frames (h : FramesInv s) (g : Graph) : FramesInv (storeGraph s g) :=
  ⟨h.worker,h.handlers,h.sent⟩

theorem send_frames (h : FramesInv s) {g : Graph} (hg : s.settled ≤ g.epoch) :
    FramesInv (send s g) where
  worker := h.worker
  handlers := h.handlers
  sent := List.forall_mem_cons.mpr ⟨hg,h.sent⟩

theorem set_handler_frames (h : FramesInv s) (i : ℕ) {d : Handler}
    (hd : ∀ g, d.publishes = some g → s.settled ≤ g.epoch) : FramesInv (setHandler s i d) where
  worker := h.worker
  handlers := by
    intro j g hg
    by_cases hj : j = i
    · subst hj
      exact hd g (by simpa only [setHandler, Function.update_self] using hg)
    · exact h.handlers j g (by simpa only [setHandler, Function.update_of_ne hj] using hg)
  sent := h.sent

theorem work_frames (h : FramesInv s) (hs : s.settled ≤ s.topoEpoch) (k : ℕ) (flag : Bool) :
    FramesInv (work s k flag) := by
  have hmark := mark_frames h
  have hpub := h.worker
  cases hw : s.worker with
  | idle => simpa only [work, hw] using move_frames h rfl
  | begun epoch start clients =>
    simp only [work, hw]
    split_ifs
    · exact move_frames hmark rfl
    · exact move_frames h rfl
    · exact move_frames h rfl
  | checked epoch start =>
    simp only [work, hw]
    split_ifs
    · exact move_frames hmark rfl
    · exact move_frames h rfl
  | building epoch start began =>
    simp only [work, hw]
    split_ifs <;> exact move_frames h rfl
  | built start g =>
    simp only [work, hw]
    split_ifs
    · exact move_frames h rfl
    · exact move_frames (store_graph_frames h g) rfl
  | rejected epoch start => simpa only [work, hw] using move_frames hmark rfl
  | grouping epoch start =>
    simp only [work, hw]
    split_ifs <;> exact move_frames h rfl
  | groups epoch start n =>
    cases n with
    | zero => simpa only [work, hw] using move_frames h rfl
    | succ n =>
      simp only [work, hw]
      split_ifs <;> exact move_frames h rfl
  | groupBuilding epoch start n began =>
    simp only [work, hw]
    split_ifs <;> exact move_frames h rfl
  | groupBuilt start n g =>
    simp only [work, hw]
    split_ifs with hg
    · exact move_frames h rfl
    · apply set_worker_frames h
      intro g' hg'
      obtain rfl := Option.some.inj hg'
      exact not_not.mp hg ▸ hs
  | authorizing start n g =>
    rw [hw] at hpub
    simp only [work, hw]
    cases k with
    | zero => exact move_frames h rfl
    | succ m => exact set_worker_frames h fun g' hg' => hpub g' hg'
  | sending start n g frames =>
    rw [hw] at hpub
    cases frames with
    | zero => simpa only [work, hw] using move_frames h rfl
    | succ m =>
      simp only [work, hw]
      have hsent := send_frames h (hpub g rfl)
      cases m with
      | zero => exact move_frames hsent rfl
      | succ m => exact set_worker_frames hsent fun g' hg' => hpub g' hg'
  | abandoning start => simpa only [work, hw] using move_frames hmark rfl
  | ending start =>
    simp only [work, hw]
    have hdone : FramesInv { s with lastCycle := some start } := ⟨h.worker,h.handlers,h.sent⟩
    exact move_frames hdone rfl

theorem handle_frames (h : FramesInv s) (hs : s.settled ≤ s.topoEpoch) {t : Broadcaster X} {i : ℕ}
    {flag : Bool} (ht : handle s i flag = some t) : FramesInv t := by
  have hpub := h.handlers i
  cases hd : s.handlers i with
  | idle => simp [handle, hd] at ht
  | building epoch began =>
    simp only [handle, hd] at ht
    split_ifs at ht <;>
    · obtain rfl := Option.some.inj ht
      exact set_handler_frames h i fun _ hg => nomatch hg
  | built g =>
    simp only [handle, hd] at ht
    split_ifs at ht with hg
    · obtain rfl := Option.some.inj ht
      exact set_handler_frames h i fun _ hg => nomatch hg
    · obtain rfl := Option.some.inj ht
      apply set_handler_frames h i
      intro g' hg'
      obtain rfl := Option.some.inj hg'
      exact not_not.mp hg ▸ hs
  | checked g =>
    rw [hd] at hpub
    simp only [handle, hd] at ht
    obtain rfl := Option.some.inj ht
    exact set_handler_frames (send_frames h (hpub g rfl)) i fun _ hg => nomatch hg
  | done => simp [handle, hd] at ht

theorem read_frames (h : FramesInv s) {t : Broadcaster X} {i : ℕ} {flag : Bool}
    (ht : read indexByResource s i flag = some t) : FramesInv t := by
  have ⟨hworker,hhandlers,hsettled,hsent⟩ := read_publishers ht
  constructor
  · rw [hworker, hsettled]
    exact h.worker
  · rw [hhandlers, hsettled]
    exact h.handlers
  · rw [hsent]
    exact h.sent

theorem act_frames (h : FramesInv s) (hinv : EpochInv indexByResource s) {t : Broadcaster X}
    {a : Act} (hok : NoFrameLeft s a) (ht : act indexByResource s a = some t) : FramesInv t := by
  cases a with
  | change =>
    obtain rfl := Option.some.inj ht
    exact h
  | resetBump j =>
    simp only [act] at ht
    split at ht
    · obtain rfl := Option.some.inj ht
      exact ⟨h.worker,h.handlers,h.sent⟩
    · cases ht
  | resetClear j =>
    simp only [act] at ht
    split at ht
    · next e he =>
      obtain rfl := Option.some.inj ht
      have hpub := hok e he
      exact ⟨fun g hg => max_le (h.worker g hg) (hpub g (.inl hg)),
        fun i g hg => max_le (h.handlers i g hg) (hpub g (.inr ⟨i,hg⟩)),h.sent⟩
    · cases ht
  | work k flag =>
    obtain rfl := Option.some.inj ht
    exact work_frames h hinv.settled k flag
  | get i w up =>
    simp only [act] at ht
    split at ht
    · obtain rfl := Option.some.inj ht
      unfold get
      split_ifs <;> exact ⟨h.worker,h.handlers,h.sent⟩
    · cases ht
  | read i flag => exact read_frames h ht
  | openStream i =>
    simp only [act] at ht
    split at ht
    · obtain rfl := Option.some.inj ht
      exact set_handler_frames h i fun _ hg => by cases hg
    · cases ht
  | handle i flag => exact handle_frames h hinv.settled ht

theorem frames_step_inv (h : FramesInv s) (hinv : EpochInv indexByResource s) {t : Broadcaster X}
    {a : Act} (hok : NoFrameLeft s a) (ht : step indexByResource s a = some t) : FramesInv t := by
  obtain ⟨u,hu,rfl⟩ := step_act ht
  have hf := act_frames h hinv hok hu
  exact ⟨hf.worker,hf.handlers,hf.sent⟩

end Frames

/-- In every run the cache holds no graph from before a completed reset and returns none to a
call that began after it, and a returned index is that of the returned graph. In a run in which
no reset completes while a checked frame is still to be sent, no frame from before a completed
reset is sent. -/
theorem epoch_safety (indexByResource : Graph → X) (as : List Act) (s : Broadcaster X)
    (hrun : run (step indexByResource) {} as = some s) :
    (∀ g, s.cache.topology = some g → s.settled ≤ g.epoch) ∧
    (∀ i w since topo index, s.readers i = .returned w since topo index → ∀ g, topo = some g →
      since ≤ g.epoch ∧ (w = true → index = some (indexByResource g))) ∧
    (Meets (step indexByResource) NoFrameLeft {} as →
      ∀ f ∈ s.sent, f.settled ≤ f.graph.epoch) := by
  have hinv : EpochInv indexByResource s :=
    run_invariant (fun s a t h ht => epoch_step_inv h ht) fresh_inv hrun
  refine ⟨hinv.cached,?_,?_⟩
  · intro i w since topo index hr
    have hsafe := hinv.readers i
    rw [hr] at hsafe
    exact hsafe
  · intro hok
    have hstep : ∀ s a t, EpochInv indexByResource s ∧ FramesInv s → NoFrameLeft s a →
        step indexByResource s a = some t → EpochInv indexByResource t ∧ FramesInv t :=
      fun s a t h ha ht => ⟨epoch_step_inv h.1 ht,frames_step_inv h.2 h.1 ha ht⟩
    exact (meets_invariant hstep ⟨fresh_inv,fresh_frames⟩ hok hrun).2.sent

/-- A reset, and then the first frame of a stream. -/
def quietResetRun : List Act :=
  [.resetBump 0,.resetClear 0,.openStream 0,.handle 0 true,.handle 0 true,.handle 0 true]

theorem epoch_safety_quiet :
    ∃ s : Broadcaster ℕ, run (step Graph.id) {} quietResetRun = some s ∧
      s.sent = [⟨⟨3,1,2⟩,1⟩] ∧ ∀ f ∈ s.sent, f.settled ≤ f.graph.epoch := by
  refine ⟨_,rfl,rfl,(epoch_safety Graph.id quietResetRun _ rfl).2.2 ⟨trivial,fun t ht => ?_⟩⟩
  obtain rfl := Option.some.inj ht
  refine ⟨fun e _ g hg => ?_,fun _ _ => ⟨trivial,fun _ _ => ⟨trivial,fun _ _ => ⟨trivial,fun _ _ =>
    ⟨trivial,fun _ _ => trivial⟩⟩⟩⟩⟩
  cases hg with
  | inl hworker => nomatch hworker
  | inr hhandler =>
    obtain ⟨_,hi⟩ := hhandler
    nomatch hi

/-- A broadcast cycle passes its last check, a reset completes while its clients are authorized,
and the frame goes out. -/
def lateFrameRun : List Act :=
  [.work 1 true,.work 0 true,.work 0 true,.work 1 true,.work 0 true,.work 0 true,.work 0 true,
    .resetBump 0,.resetClear 0,.work 1 true,.work 0 true]

theorem frame_sent_after_reset :
    ¬∀ (as : List Act) (s : Broadcaster ℕ), run (step Graph.id) {} as = some s →
      ∀ f ∈ s.sent, f.settled ≤ f.graph.epoch := by
  intro h
  exact absurd (h lateFrameRun _ rfl ⟨⟨5,0,4⟩,1⟩ (by decide)) (by decide)

end Radar.Sse
