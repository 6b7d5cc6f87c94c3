import Radar.Ai.RunManager
import Radar.Ai.RunSections

/-!
# The invariant of the manager

What every reachable state satisfies, whatever the order of the steps: a run is
held by one thread at most, each run is as its holder left it, and what may be
read of the store for a run whose log is not in memory is a transcript.
-/

set_option autoImplicit false

namespace Radar.Ai

open Radar.Numbered
open Radar.Run (run)

/-- The run that a thread has reserved, or for which it runs an agent. -/
def Thread.hold : Thread → Option (ℕ × Hold)
  | .inserted r => some (r,.reserved)
  | .summarized r _ => some (r,.reserved)
  | .saved r => some (r,.reserved)
  | .begun r _ => some (r,.reserved)
  | .running r turn => some (r,.launched turn.apply)
  | .returned r turn _ _ _ => some (r,.launched turn.apply)
  | .applied r turn _ _ => some (r,.launched turn.apply)
  | _ => none

/-- ClearHistory is under way. -/
def Thread.clears : Thread → Bool
  | .clearing _ _ _ => true
  | .deleting _ _ _ _ => true
  | _ => false

def Holds (s : Manager) (r : ℕ) : Option Hold → Prop
  | some k => ∃ i, (s.threads i).hold = some (r,k)
  | none => ∀ i k, (s.threads i).hold ≠ some (r,k)

/-- The event rows of a run once the first `n` operations are applied. -/
def Manager.rowsAt (s : Manager) (n r : ℕ) : List RunEvent :=
  (s.tables.applyAll (s.ops.take n)).events r

def Thread.Ok (s : Manager) : Thread → Prop
  | .ready r goal => goal ≠ .stop → (s.runs r).hydrated = true ∨ (s.runs r).store = false
  | .loaded r _ events => (s.runs r).hydrated = false → (s.runs r).store = true →
      Restorable (s.runs r).live events
  | .applied _ turn terminal _ => terminal.isTerminal = true ∧ turn.apply = true
  | .clearing todo kept dropped => s.locked = dropped ∧ (kept++dropped++todo).Perm s.order
  | .deleting kept dropped _ _ => s.locked = dropped ∧ (kept++dropped).Perm s.order
  | _ => True

structure ManagerInv (s : Manager) : Prop where
  ids : ∀ r, (s.runs r).id = r
  one : ∀ i j r k l, (s.threads i).hold = some (r,k) → (s.threads j).hold = some (r,l) → i = j
  ok : ∀ r h, Holds s r h → RunOk h (s.runs r)
  unborn : ∀ r, s.made ≤ r → (s.runs r).inFlight = false
  nodup : s.order.Nodup
  order : ∀ r ∈ s.order, r < s.made ∧ ((s.runs r).live = true ∨ (s.runs r).status = .stale) ∧
    ((s.runs r).hydrated = true ∨ (s.runs r).store = true)
  stored : ∀ r, (s.runs r).hydrated = false → (s.runs r).store = true →
    ∀ n ≤ s.ops.length, Restorable (s.runs r).live (s.rowsAt n r)
  threads : ∀ i, (s.threads i).Ok s
  locked : ∀ r ∈ s.locked, (s.runs r).status ≠ .running
  unlocked : s.mu = false → s.locked = []
  clears : ∀ i, (s.threads i).clears = true → s.mu = true
  alone : ∀ i j, (s.threads i).clears = true → (s.threads j).clears = true → i = j
  written : s.applied ≤ s.ops.length

/-- Every log in memory stands where the status and the hold say. -/
def LogInv (s : Manager) : Prop := ∀ r h, Holds s r h → LogOk h (s.runs r)

section Store

variable {live : Bool} {events : List RunEvent}

theorem Restorable.empty (live : Bool) : Restorable live [] := ⟨trivial,.inl rfl⟩

/-- What may be read of a live run, may be read of one that has ended since. -/
theorem Restorable.mono {later : Bool} (h : Restorable live events)
    (hlive : later = true → live = true) : Restorable later events where
  numbered := h.numbered
  settled := by
    rcases h.settled with hphase | ⟨hdead,hphase⟩
    · exact .inl hphase
    · refine .inr ⟨?_,hphase⟩
      cases later with
      | false => rfl
      | true => cases hdead.symm.trans (hlive rfl)

/-- An operation that leaves the rows of a run alone, or deletes them. -/
def Harmless (r : ℕ) : StoreOp → Prop
  | .appendEvents runID _ _ => runID ≠ r
  | _ => True

theorem upsertRun_events (t : Tables) (sum : RunSummary) : (t.upsertRun sum).events = t.events := rfl

theorem Harmless.rows {r : ℕ} {op : StoreOp} (h : Harmless r op) (t : Tables) :
    (t.apply op).events r = t.events r ∨ (t.apply op).events r = [] := by
  cases op with
  | saveRun sum => exact .inl rfl
  | appendEvents runID events summary =>
    left
    have hne : r ≠ runID := fun he => h he.symm
    cases summary <;> simp [Tables.apply, upsertRun_events, Function.update_of_ne hne]
  | deleteRun id =>
    by_cases he : r = id
    · right; simp [Tables.apply, he]
    · left; simp [Tables.apply, Function.update_of_ne he]
  | clearTerminal commits =>
    cases commits with
    | false => exact .inl rfl
    | true =>
      cases hrunning : t.isRunning r with
      | true => left; simp [Tables.apply, hrunning]
      | false => right; simp [Tables.apply, hrunning]

theorem harmless_rows {r : ℕ} {ops : List StoreOp} (h : ∀ op ∈ ops, Harmless r op) (t : Tables) :
    (t.applyAll ops).events r = t.events r ∨ (t.applyAll ops).events r = [] := by
  induction ops generalizing t with
  | nil => exact .inl rfl
  | cons op ops ih =>
    have hop := (h op List.mem_cons_self).rows t
    rcases ih (fun o ho => h o (List.mem_cons_of_mem op ho)) (t.apply op) with hsame | hgone
    · rcases hop with hop | hop
      · exact .inl (hsame.trans hop)
      · exact .inr (hsame.trans hop)
    · exact .inr hgone

theorem applyAll_append (t : Tables) (a b : List StoreOp) :
    t.applyAll (a++b) = (t.applyAll a).applyAll b := List.foldl_append

end Store

section Frames

variable {s : Manager}

@[simp] theorem enqueue_runs (ops : List StoreOp) : (s.enqueue ops).runs = s.runs := rfl
@[simp] theorem enqueue_threads (ops : List StoreOp) : (s.enqueue ops).threads = s.threads := rfl
@[simp] theorem enqueue_order (ops : List StoreOp) : (s.enqueue ops).order = s.order := rfl
@[simp] theorem enqueue_made (ops : List StoreOp) : (s.enqueue ops).made = s.made := rfl
@[simp] theorem enqueue_locked (ops : List StoreOp) : (s.enqueue ops).locked = s.locked := rfl
@[simp] theorem enqueue_mu (ops : List StoreOp) : (s.enqueue ops).mu = s.mu := rfl
@[simp] theorem enqueue_nil : s.enqueue [] = s := by simp [Manager.enqueue]

theorem enqueue_ops (s : Manager) (ops : List StoreOp) :
    ∃ more, (s.enqueue ops).ops = s.ops++more ∧ (more = [] ∨ more = ops) := by
  by_cases hclosed : s.storeClosed = true
  · exact ⟨[],by simp [Manager.enqueue, hclosed],.inl rfl⟩
  · exact ⟨ops,by simp [Manager.enqueue, hclosed],.inr rfl⟩

/-- Later rows are the earlier ones, or what the new operations make of the last ones. -/
theorem rowsAt_append {t : Manager} {more : List StoreOp} {n r : ℕ}
    (htables : t.tables = s.tables) (hops : t.ops = s.ops++more) :
    t.rowsAt n r = s.rowsAt n r ∧ n ≤ s.ops.length ∨
      t.rowsAt n r =
        ((s.tables.applyAll s.ops).applyAll (more.take (n-s.ops.length))).events r := by
  unfold Manager.rowsAt
  rw [htables, hops, List.take_append]
  by_cases hn : n ≤ s.ops.length
  · left
    have hzero : n-s.ops.length = 0 := by omega
    rw [hzero, List.take_zero, List.append_nil]
    exact ⟨rfl,hn⟩
  · right
    rw [List.take_of_length_le (by omega), applyAll_append]

theorem rowsAt_length (s : Manager) (r : ℕ) :
    s.rowsAt s.ops.length r = (s.tables.applyAll s.ops).events r := by
  rw [Manager.rowsAt, List.take_length]

/-- What a section does not take back. -/
structure Later (a b : Run) : Prop where
  id : b.id = a.id
  hydrated : a.hydrated = true → b.hydrated = true
  store : b.store = true → a.store = true
  live : b.live = true → a.live = true

theorem Later.of_core {a b : Run} (h : b.core = a.core) : Later a b where
  id := Run.core_id h
  hydrated := by rw [Run.core_hydrated h]; exact fun hh => hh
  store := by rw [Run.core_store h]; exact fun hh => hh
  live := by rw [Run.core_live h]; exact fun hh => hh

end Frames

/-- Thread `i` goes on as `v`, and run `q` as `b`. -/
structure Shift (s t : Manager) (i : ℕ) (v : Thread) (q : ℕ) (b : Run) : Prop where
  threads : t.threads = Function.update s.threads i v
  runs : t.runs = Function.update s.runs q b

/-- `more` is enqueued. -/
structure Written (s t : Manager) (more : List StoreOp) : Prop where
  tables : t.tables = s.tables
  ops : t.ops = s.ops++more
  applied : t.applied = s.applied

/-- A step that moves one thread and one run. -/
structure Moves (s t : Manager) (i : ℕ) (v : Thread) (q : ℕ) (b : Run) (more : List StoreOp) :
    Prop extends Shift s t i v q b, Written s t more where
  made : t.made = s.made
  order : t.order = s.order
  locked : t.locked = s.locked
  mu : t.mu = s.mu

section Moves

variable {s t : Manager} {i q : ℕ} {v : Thread} {b : Run} {more : List StoreOp}

theorem moves_put (s : Manager) (i : ℕ) (v : Thread) (q : ℕ) (done : Run × List StoreOp) :
    ∃ more, Moves s ((s.put q done).setThread i v) i v q done.1 more ∧
      (more = [] ∨ more = done.2) := by
  obtain ⟨more,hops,hmore⟩ :=
    enqueue_ops { s with runs := Function.update s.runs q done.1 } done.2
  exact ⟨more,⟨⟨rfl,rfl⟩,⟨rfl,hops,rfl⟩,rfl,rfl,rfl,rfl⟩,hmore⟩

/-- Only the thread moves. -/
theorem moves_thread (s : Manager) (i : ℕ) (v : Thread) (q : ℕ) :
    Moves s (s.setThread i v) i v q (s.runs q) [] :=
  ⟨⟨rfl,(Function.update_eq_self q s.runs).symm⟩,⟨rfl,by simp [Manager.setThread],rfl⟩,rfl,rfl,rfl,
    rfl⟩

theorem Shift.self (m : Shift s t i v q b) : t.threads i = v := by
  rw [m.threads, Function.update_self]

theorem Shift.thread_of_ne (m : Shift s t i v q b) {j : ℕ} (h : j ≠ i) :
    t.threads j = s.threads j := by
  rw [m.threads, Function.update_of_ne h]

theorem Shift.run (m : Shift s t i v q b) : t.runs q = b := by
  rw [m.runs, Function.update_self]

theorem Shift.run_of_ne (m : Shift s t i v q b) {r : ℕ} (h : r ≠ q) :
    t.runs r = s.runs r := by
  rw [m.runs, Function.update_of_ne h]

/-- What holds of every run before, and of the one that moved, holds of every run. -/
theorem Shift.runs_all (m : Shift s t i v q b) {P : ℕ → Run → Prop}
    (h : ∀ r, P r (s.runs r)) (hq : P q b) (r : ℕ) : P r (t.runs r) := by
  by_cases hr : r = q
  · rw [hr, m.run]
    exact hq
  · rw [m.run_of_ne hr]
    exact h r

/-- Whoever held a run that is not `q`'s, holds it still. -/
theorem Shift.holds_other (m : Shift s t i v q b)
    (old : (s.threads i).hold = none ∨ ∃ k, (s.threads i).hold = some (q,k))
    (new : v.hold = none ∨ ∃ k, v.hold = some (q,k)) {r : ℕ} (hr : r ≠ q) {h : Option Hold}
    (hh : Holds t r h) : Holds s r h := by
  have haside : ∀ {u : Thread}, (u.hold = none ∨ ∃ k, u.hold = some (q,k)) → ∀ k,
      u.hold ≠ some (r,k) := by
    rintro u (hu | ⟨l,hu⟩) k he
    · cases hu.symm.trans he
    · exact hr (Prod.mk.inj (Option.some.inj (he.symm.trans hu))).1
  cases h with
  | some k =>
    obtain ⟨j,hj⟩ := hh
    by_cases hji : j = i
    · rw [hji, m.self] at hj
      exact absurd hj (haside new k)
    · rw [m.thread_of_ne hji] at hj
      exact ⟨j,hj⟩
  | none =>
    intro j k hj
    by_cases hji : j = i
    · rw [hji] at hj
      exact haside old k hj
    · exact hh j k (by rw [m.thread_of_ne hji]; exact hj)

/-- The thread holds what it held. -/
theorem Shift.holds_same (m : Shift s t i v q b) (same : v.hold = (s.threads i).hold) {r : ℕ}
    {h : Option Hold} (hh : Holds t r h) : Holds s r h := by
  have hall : ∀ j, (t.threads j).hold = (s.threads j).hold := by
    intro j
    by_cases hji : j = i
    · rw [hji, m.self, same]
    · rw [m.thread_of_ne hji]
  cases h with
  | some k =>
    obtain ⟨j,hj⟩ := hh
    exact ⟨j,(hall j).symm.trans hj⟩
  | none => exact fun j k hj => hh j k ((hall j).trans hj)

/-- The holder of the run moves. -/
theorem Shift.holds_own (m : Shift s t i v q b) (inv : ManagerInv s) {k : Hold}
    (old : (s.threads i).hold = some (q,k)) (new : v.hold = none ∨ ∃ k, v.hold = some (q,k))
    {h : Option Hold} (hh : Holds t q h) : h = v.hold.map Prod.snd := by
  have honly : ∀ {j l}, (t.threads j).hold = some (q,l) → j = i := by
    intro j l hj
    by_contra hji
    rw [m.thread_of_ne hji] at hj
    exact hji (inv.one j i q l k hj old)
  rcases new with hv | ⟨l,hv⟩
  · rw [hv]
    cases h with
    | none => rfl
    | some l =>
      obtain ⟨j,hj⟩ := hh
      rw [honly hj, m.self, hv] at hj
      cases hj
  · rw [hv]
    cases h with
    | none => exact absurd (by rw [m.self]; exact hv) (hh i l)
    | some n =>
      obtain ⟨j,hj⟩ := hh
      rw [honly hj, m.self, hv] at hj
      exact congrArg some (Prod.mk.inj (Option.some.inj hj)).2.symm

/-- A run that nobody held is taken. -/
theorem Shift.holds_begin (m : Shift s t i v q b) {k : Hold} (new : v.hold = some (q,k))
    (fresh : ∀ j l, (s.threads j).hold ≠ some (q,l)) {h : Option Hold} (hh : Holds t q h) :
    h = some k := by
  cases h with
  | none => exact absurd (by rw [m.self]; exact new) (hh i k)
  | some n =>
    obtain ⟨j,hj⟩ := hh
    by_cases hji : j = i
    · rw [hji, m.self, new] at hj
      exact congrArg some (Prod.mk.inj (Option.some.inj hj)).2.symm
    · rw [m.thread_of_ne hji] at hj
      exact absurd hj (fresh j n)

/-- No two threads come to hold one run. -/
theorem Shift.one_same (m : Shift s t i v q b) (inv : ManagerInv s)
    (same : v.hold = (s.threads i).hold) : ∀ j l r x y, (t.threads j).hold = some (r,x) →
      (t.threads l).hold = some (r,y) → j = l := by
  have hall : ∀ j, (t.threads j).hold = (s.threads j).hold := by
    intro j
    by_cases hji : j = i
    · rw [hji, m.self, same]
    · rw [m.thread_of_ne hji]
  intro j l r x y hj hl
  exact inv.one j l r x y ((hall j).symm.trans hj) ((hall l).symm.trans hl)

theorem Shift.one_move (m : Shift s t i v q b) (inv : ManagerInv s)
    (new : v.hold = none ∨ ∃ k, v.hold = some (q,k))
    (mine : v.hold ≠ none → ∀ j ≠ i, ∀ k, (s.threads j).hold ≠ some (q,k)) :
    ∀ j l r x y, (t.threads j).hold = some (r,x) → (t.threads l).hold = some (r,y) → j = l := by
  have hone : ∀ j r x y, (t.threads i).hold = some (r,x) → (t.threads j).hold = some (r,y) →
      j = i := by
    intro j r x y hi hj
    by_contra hji
    rw [m.self] at hi
    rw [m.thread_of_ne hji] at hj
    have hr : r = q := by
      rcases new with hv | ⟨l,hv⟩
      · cases hv.symm.trans hi
      · exact (Prod.mk.inj (Option.some.inj (hi.symm.trans hv))).1
    rw [hr] at hj
    exact mine (by rw [hi]; simp) j hji y hj
  intro j l r x y hj hl
  by_cases hji : j = i
  · rw [hji] at hj ⊢
    exact (hone l r x y hj hl).symm
  · by_cases hli : l = i
    · rw [hli] at hl ⊢
      exact hone j r y x hl hj
    · rw [m.thread_of_ne hji] at hj
      rw [m.thread_of_ne hli] at hl
      exact inv.one j l r x y hj hl

/-- What the operations of another run, or deletes, leave of the rows can still be read. -/
theorem Written.stored (m : Written s t more) (inv : ManagerInv s) {r : ℕ}
    (hyd : (s.runs r).hydrated = false) (hstore : (s.runs r).store = true)
    (hmore : ∀ op ∈ more, Harmless r op) {n : ℕ} :
    Restorable (s.runs r).live (t.rowsAt n r) := by
  rcases rowsAt_append m.tables m.ops (n := n) (r := r) with ⟨hsame,hn⟩ | hrows
  · rw [hsame]
    exact inv.stored r hyd hstore n hn
  · rw [hrows]
    rcases harmless_rows (fun op hop => hmore op (List.mem_of_mem_take hop))
      (s.tables.applyAll s.ops) with hsame | hgone
    · rw [hsame, ← rowsAt_length]
      exact inv.stored r hyd hstore _ (Nat.le_refl _)
    · rw [hgone]
      exact Restorable.empty _

/-- What a thread relies on survives the moves of others. -/
theorem Moves.thread_ok (m : Moves s t i v q b more) (later : Later (s.runs q) b) {u : Thread}
    (h : u.Ok s) : u.Ok t := by
  have hlater : ∀ r, Later (s.runs r) (t.runs r) := by
    intro r
    by_cases hr : r = q
    · rw [hr, m.run]
      exact later
    · rw [m.run_of_ne hr]
      exact Later.of_core rfl
  cases u with
  | ready r goal =>
    intro hgoal
    rcases h hgoal with hyd | hstore
    · exact .inl ((hlater r).hydrated hyd)
    · right
      by_contra hs
      have hs : (t.runs r).store = true := by simpa using hs
      cases hstore.symm.trans ((hlater r).store hs)
  | loaded r goal events =>
    intro hyd hstore
    have hyd : (s.runs r).hydrated = false := by
      by_contra hn
      cases hyd.symm.trans ((hlater r).hydrated (by simpa using hn))
    exact (h hyd ((hlater r).store hstore)).mono (hlater r).live
  | applied r turn terminal verify => exact h
  | clearing todo kept dropped =>
    rw [Thread.Ok, m.locked, m.order]
    exact h
  | deleting kept dropped stamp commits =>
    rw [Thread.Ok, m.locked, m.order]
    exact h
  | _ => trivial

end Moves

/-- What has to be shown of a step that moves one thread and one run. -/
structure Keeps (s t : Manager) (i : ℕ) (v : Thread) (q : ℕ) (b : Run) (more : List StoreOp) :
    Prop where
  moves : Moves s t i v q b more
  later : Later (s.runs q) b
  inFlight : b.inFlight = true → (s.runs q).inFlight = true ∨ q < s.made
  one : ∀ j l r x y, (t.threads j).hold = some (r,x) → (t.threads l).hold = some (r,y) → j = l
  other : ∀ r ≠ q, ∀ h, Holds t r h → Holds s r h
  ok : ∀ h, Holds t q h → RunOk h b
  order : q ∈ s.order →
    (b.live = true ∨ b.status = .stale) ∧ (b.hydrated = true ∨ b.store = true)
  stored : b.hydrated = false → b.store = true → ∀ n ≤ t.ops.length,
    Restorable b.live (t.rowsAt n q)
  others : ∀ r ≠ q, ∀ op ∈ more, Harmless r op
  thread : v.Ok t
  unlocked : q ∉ s.locked ∨ b.status ≠ .running
  clears : v.clears = true → (s.threads i).clears = true

theorem ManagerInv.keeps {s t : Manager} {i q : ℕ} {v : Thread} {b : Run} {more : List StoreOp}
    (inv : ManagerInv s) (k : Keeps s t i v q b more) : ManagerInv t := by
  have m := k.moves
  exact
    { ids := m.runs_all (P := fun r run => run.id = r) inv.ids (k.later.id.trans (inv.ids q))
      one := k.one
      ok := by
        intro r h hh
        by_cases hr : r = q
        · rw [hr] at hh
          rw [hr, m.run]
          exact k.ok h hh
        · rw [m.run_of_ne hr]
          exact inv.ok r h (k.other r hr h hh)
      unborn := by
        rw [m.made]
        refine m.runs_all (P := fun r run => s.made ≤ r → run.inFlight = false) inv.unborn ?_
        intro hq
        by_contra hn
        rcases k.inFlight (by simpa using hn) with hin | hlt
        · cases hin.symm.trans (inv.unborn q hq)
        · omega
      nodup := m.order ▸ inv.nodup
      order := by
        rw [m.order, m.made]
        refine m.runs_all (P := fun r run => r ∈ s.order → r < s.made ∧
          (run.live = true ∨ run.status = .stale) ∧ (run.hydrated = true ∨ run.store = true))
          inv.order ?_
        exact fun hq => ⟨(inv.order q hq).1,k.order hq⟩
      stored := by
        intro r hyd hstore n hn
        by_cases hr : r = q
        · rw [hr, m.run] at hyd hstore ⊢
          exact k.stored hyd hstore n hn
        · rw [m.run_of_ne hr] at hyd hstore ⊢
          exact m.stored inv hyd hstore (k.others r hr)
      threads := by
        intro j
        by_cases hji : j = i
        · rw [hji, m.self]
          exact k.thread
        · rw [m.thread_of_ne hji]
          exact m.thread_ok k.later (inv.threads j)
      locked := by
        rw [m.locked]
        intro r hr
        by_cases hrq : r = q
        · rw [hrq, m.run]
          rcases k.unlocked with hout | hs
          · exact absurd (hrq ▸ hr) hout
          · exact hs
        · rw [m.run_of_ne hrq]
          exact inv.locked r hr
      unlocked := by
        rw [m.mu, m.locked]
        exact inv.unlocked
      clears := by
        rw [m.mu]
        intro j hj
        by_cases hji : j = i
        · rw [hji, m.self] at hj
          exact inv.clears i (k.clears hj)
        · rw [m.thread_of_ne hji] at hj
          exact inv.clears j hj
      alone := by
        have hwas : ∀ j, (t.threads j).clears = true → (s.threads j).clears = true := by
          intro j hj
          by_cases hji : j = i
          · rw [hji, m.self] at hj
            exact hji ▸ k.clears hj
          · rwa [m.thread_of_ne hji] at hj
        exact fun j l hj hl => inv.alone j l (hwas j hj) (hwas l hl)
      written := by
        rw [m.applied, m.ops, List.length_append]
        exact Nat.le_add_right_of_le inv.written }

end Radar.Ai
