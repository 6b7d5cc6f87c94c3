import Mathlib.Tactic.SplitIfs
import Radar.Sse.Broadcaster

/-!
# A clean relationship cache

Within one epoch, a graph that is stored and not dirty began after the last
mark and after the start of the last finished cycle, provided no older build
for the cache is in flight when the cache is marked, a cycle finishes or a
graph is stored, and a read clears the flag only of an empty cache. The
invariant follows every build for the cache from its beginning to its store.
-/

set_option autoImplicit false

namespace Radar.Sse

open Radar.Run

variable {X : Type} {indexByResource : Graph → X}

/-- When the build for the cache that a cycle is in began. -/
def Cycle.cacheBuild : Cycle → Option ℕ
  | .building _ _ began => some began
  | .built _ g => some g.began
  | _ => none

def Reader.cacheBuild : Reader X → Option ℕ
  | .building _ _ _ began => some began
  | .built _ _ g => some g.began
  | _ => none

/-- The build for the cache in flight at the worker, or at a read. -/
def inFlight (s : Broadcaster X) : Option ℕ → Option ℕ
  | none => s.worker.cacheBuild
  | some i => (s.readers i).cacheBuild

/-- The graph the next step stores, if its epoch check passes. -/
def Cycle.stores : Cycle → Option Graph
  | .built _ g => some g
  | _ => none

def Reader.stores : Reader X → Option Graph
  | .built _ _ g => some g
  | _ => none

/-- The worker's next step marks the cache dirty. -/
def Cycle.marks (flag : Bool) : Cycle → Prop
  | .begun _ _ clients => clients = 0
  | .checked _ _ => flag = true
  | .rejected _ _ => True
  | .abandoning _ => True
  | _ => False

/-- The worker or a read is in the middle of a build. -/
def Cycle.isBuilding : Cycle → Bool
  | .building _ _ _ => true
  | .groupBuilding _ _ _ _ => true
  | _ => false

def Reader.isBuilding : Reader X → Bool
  | .loading _ _ => true
  | .building _ _ _ _ => true
  | _ => false

/-- Within one epoch, and builds succeed. -/
def OneEpoch (s : Broadcaster X) : Act → Prop
  | .resetBump _ => False
  | .resetClear _ => False
  | .work _ flag => s.worker.isBuilding → flag = true
  | .read i flag => (s.readers i).isBuilding → flag = true
  | _ => True

instance decidableOneEpoch (s : Broadcaster X) : (a : Act) → Decidable (OneEpoch s a)
  | .work _ flag => inferInstanceAs (Decidable (s.worker.isBuilding → flag = true))
  | .read i flag => inferInstanceAs (Decidable ((s.readers i).isBuilding → flag = true))
  | .resetBump _ | .resetClear _ => isFalse id
  | .change | .get _ _ _ | .openStream _ | .handle _ _ => isTrue trivial

/-- Every build in flight elsewhere began after `t`. -/
def OthersAfter (s : Broadcaster X) (self : Option ℕ) (t : ℕ) : Prop :=
  ∀ o, o ≠ self → ∀ b, inFlight s o = some b → t < b

/-- No older build is in flight when the cache is marked, a cycle ends or a graph is stored, and
a read clears the flag only of an empty cache. -/
def NoOlderBuild (s : Broadcaster X) : Act → Prop
  | .work _ flag =>
    (s.worker.marks flag → ∀ o, inFlight s o = none) ∧
    (∀ g, s.worker.stores = some g → OthersAfter s none g.began) ∧
    (∀ start, s.worker = .ending start → ∀ o b, inFlight s o = some b → start < b)
  | .read i _ =>
    (∀ w since, s.readers i = .gating w since → s.cache.dirty = true → s.cache.topology = none) ∧
    (∀ g, (s.readers i).stores = some g → OthersAfter s (some i) g.began)
  | _ => True

/-- After the moment, if there was one. -/
def After (b : ℕ) (moment : Option ℕ) : Prop := ∀ m, moment = some m → m < b

/-- A clean graph began after the last mark and the start of the last finished cycle. -/
def CleanFresh (s : Broadcaster X) : Prop :=
  s.cache.dirty = false → ∀ g, s.cache.topology = some g →
    After g.began s.lastMark ∧ After g.began s.lastCycle

/-- A cycle has marked the cache, or a graph that began after the cycle did is stored. -/
def Handled (s : Broadcaster X) (start : ℕ) : Prop :=
  (∃ m, s.lastMark = some m ∧ start < m) ∨ ∃ g, s.cache.topology = some g ∧ start < g.began

def CycleTimed (now : ℕ) (s : Broadcaster X) : Cycle → Prop
  | .idle => True
  | .begun _ start _ => start < now
  | .checked _ start => start < now
  | .rejected _ start => start < now
  | .abandoning start => start < now
  | .building _ start began => start < began
  | .built start g => start < g.began
  | .grouping _ start => start < now ∧ Handled s start
  | .groups _ start _ => start < now ∧ Handled s start
  | .groupBuilding _ start _ _ => start < now ∧ Handled s start
  | .groupBuilt start _ _ => start < now ∧ Handled s start
  | .authorizing start _ _ => start < now ∧ Handled s start
  | .sending start _ _ _ => start < now ∧ Handled s start
  | .ending start => start < now ∧ Handled s start

/-- A build in flight is newer than everything that has happened to the cache since. -/
structure Newest (now : ℕ) (s : Broadcaster X) (b : ℕ) : Prop where
  past : b < now
  marked : After b s.lastMark
  cycled : After b s.lastCycle
  cached : ∀ g, s.cache.topology = some g → g.began < b

structure CleanInv (now : ℕ) (s : Broadcaster X) : Prop where
  fresh : CleanFresh s
  flight : ∀ o b, inFlight s o = some b → Newest now s b
  head : s.stored.head? = s.cache.topology
  order : s.stored.Pairwise fun newer older => older.began < newer.began
  cached : ∀ g, s.cache.topology = some g → g.began < now
  marked : After now s.lastMark
  cycled : After now s.lastCycle
  worker : CycleTimed now s s.worker

theorem After.mono {b b' : ℕ} {o : Option ℕ} (h : After b o) (hb : b ≤ b') : After b' o :=
  fun m hm => Nat.lt_of_lt_of_le (h m hm) hb

theorem Newest.mono {now later b : ℕ} {s : Broadcaster X} (h : Newest now s b) (hn : now ≤ later) :
    Newest later s b :=
  ⟨Nat.lt_of_lt_of_le h.past hn,h.marked,h.cycled,h.cached⟩

theorem CycleTimed.mono {now later : ℕ} {s : Broadcaster X} (hn : now ≤ later) {c : Cycle}
    (h : CycleTimed now s c) : CycleTimed later s c := by
  have hlt : ∀ {start : ℕ}, start < now → start < later := fun h => Nat.lt_of_lt_of_le h hn
  cases c with
  | idle => trivial
  | begun epoch start clients => exact hlt h
  | checked epoch start => exact hlt h
  | building epoch start began => exact h
  | built start g => exact h
  | rejected epoch start => exact hlt h
  | grouping epoch start => exact ⟨hlt h.1,h.2⟩
  | groups epoch start n => exact ⟨hlt h.1,h.2⟩
  | groupBuilding epoch start n began => exact ⟨hlt h.1,h.2⟩
  | groupBuilt start n g => exact ⟨hlt h.1,h.2⟩
  | authorizing start n g => exact ⟨hlt h.1,h.2⟩
  | sending start n g frames => exact ⟨hlt h.1,h.2⟩
  | abandoning start => exact hlt h
  | ending start => exact ⟨hlt h.1,h.2⟩

theorem CleanInv.mono {now later : ℕ} {s : Broadcaster X} (h : CleanInv now s)
    (hn : now ≤ later) : CleanInv later s where
  fresh := h.fresh
  flight o b hb := (h.flight o b hb).mono hn
  head := h.head
  order := h.order
  cached g hg := Nat.lt_of_lt_of_le (h.cached g hg) hn
  marked := h.marked.mono hn
  cycled := h.cycled.mono hn
  worker := h.worker.mono hn

theorem fresh_clean : CleanInv 0 ({} : Broadcaster X) where
  fresh _ _ hg := by cases hg
  flight o b hb := by cases o <;> cases hb
  head := rfl
  order := List.Pairwise.nil
  cached _ hg := by cases hg
  marked _ hm := by cases hm
  cycled _ hm := by cases hm
  worker := trivial

variable {s : Broadcaster X} {now : ℕ}

theorem CycleTimed.transfer {t : Broadcaster X} {c : Cycle} (h : CycleTimed now s c)
    (ht : ∀ start, start < now → Handled s start → Handled t start) : CycleTimed now t c := by
  cases c with
  | idle => trivial
  | begun epoch start clients => exact h
  | checked epoch start => exact h
  | building epoch start began => exact h
  | built start g => exact h
  | rejected epoch start => exact h
  | grouping epoch start => exact ⟨h.1,ht start h.1 h.2⟩
  | groups epoch start n => exact ⟨h.1,ht start h.1 h.2⟩
  | groupBuilding epoch start n began => exact ⟨h.1,ht start h.1 h.2⟩
  | groupBuilt start n g => exact ⟨h.1,ht start h.1 h.2⟩
  | authorizing start n g => exact ⟨h.1,ht start h.1 h.2⟩
  | sending start n g frames => exact ⟨h.1,ht start h.1 h.2⟩
  | abandoning start => exact h
  | ending start => exact ⟨h.1,ht start h.1 h.2⟩

/-- What was stored and marked stays as it is. -/
theorem frame_clean (h : CleanInv now s) {t : Broadcaster X} (hfresh : CleanFresh t)
    (ht : t.cache.topology = s.cache.topology) (hs : t.stored = s.stored)
    (hm : t.lastMark = s.lastMark) (hc : t.lastCycle = s.lastCycle)
    (hf : ∀ o b, inFlight t o = some b → Newest now s b) (hw : CycleTimed now s t.worker) :
    CleanInv now t where
  fresh := hfresh
  flight o b hb := by
    have hn := hf o b hb
    exact ⟨hn.past,hm ▸ hn.marked,hc ▸ hn.cycled,ht ▸ hn.cached⟩
  head := by rw [hs, ht, h.head]
  order := hs ▸ h.order
  cached := ht ▸ h.cached
  marked := hm ▸ h.marked
  cycled := hc ▸ h.cycled
  worker := hw.transfer fun start _ hh => by rwa [Handled, hm, ht]

/-- The worker moves on; a build it is in now is the newest. -/
theorem move_worker (h : CleanInv now s) {c : Cycle} (hc : CycleTimed now s c)
    (hb : ∀ b, c.cacheBuild = some b → Newest now s b) : CleanInv now (setWorker s c) := by
  refine frame_clean h h.fresh rfl rfl rfl rfl (fun o b hob => ?_) hc
  cases o with
  | none => exact hb b hob
  | some i => exact h.flight (some i) b hob

theorem move_reader (h : CleanInv now s) (i : ℕ) {r : Reader X}
    (hb : ∀ b, r.cacheBuild = some b → Newest now s b) : CleanInv now (setReader s i r) := by
  refine frame_clean h h.fresh rfl rfl rfl rfl (fun o b hob => ?_) h.worker
  cases o with
  | none => exact h.flight none b hob
  | some j =>
    by_cases hj : j = i
    · subst hj
      exact hb b (by simpa only [inFlight, setReader, Function.update_self] using hob)
    · exact h.flight (some j) b
        (by simpa only [inFlight, setReader, Function.update_of_ne hj] using hob)

/-- A step that leaves the cache, the worker and the reads alone. -/
theorem other_clean (h : CleanInv now s) {t : Broadcaster X} (hcache : t.cache = s.cache)
    (hs : t.stored = s.stored) (hm : t.lastMark = s.lastMark) (hc : t.lastCycle = s.lastCycle)
    (hw : t.worker = s.worker) (hr : t.readers = s.readers) : CleanInv now t := by
  apply frame_clean h _ (by rw [hcache]) hs hm hc _ (hw ▸ h.worker)
  · rw [CleanFresh, hcache, hm, hc]
    exact h.fresh
  · intro o b hb
    apply h.flight o b
    cases o with
    | none => rwa [inFlight, hw] at hb
    | some i => rwa [inFlight, hr] at hb

theorem handled_of_mark {start : ℕ} (h : start < s.clock) :
    Handled (markCachedTopologyDirty s) start := .inl ⟨s.clock,rfl,h⟩

/-- A mark with no build in flight: nothing that began before it can be stored after it. -/
theorem mark_clean (h : CleanInv s.clock s) (hnone : ∀ o, inFlight s o = none) :
    CleanInv (s.clock+1) (markCachedTopologyDirty s) where
  fresh hd := nomatch hd
  flight o b hb := by
    have hn := hnone o
    cases o <;> simp_all [inFlight, markCachedTopologyDirty]
  head := h.head
  order := h.order
  cached g hg := Nat.lt_succ_of_lt (h.cached g hg)
  marked m hm := by
    obtain rfl := Option.some.inj hm
    exact Nat.lt_succ_self _
  cycled := h.cycled.mono (Nat.le_succ _)
  worker := (h.worker.transfer fun start hs _ => handled_of_mark hs).mono (Nat.le_succ _)

/-- Everything stored so far began before the graph that replaces the last one. -/
theorem stored_before (h : CleanInv now s) {b : ℕ}
    (hb : ∀ g, s.cache.topology = some g → g.began < b) : ∀ g ∈ s.stored, g.began < b := by
  intro g hg
  have hhead := h.head
  have horder := h.order
  cases hs : s.stored with
  | nil => simp [hs] at hg
  | cons newest older =>
    rw [hs] at hg hhead horder
    have hnewest := hb newest hhead.symm
    cases List.mem_cons.mp hg with
    | inl heq => exact heq ▸ hnewest
    | inr hmem => exact Nat.lt_trans ((List.pairwise_cons.mp horder).1 g hmem) hnewest

/-- A store by a build with no older one in flight elsewhere. -/
theorem store_clean (h : CleanInv now s) {t : Broadcaster X} {g : Graph}
    (hg : Newest now s g.began) (hcache : t.cache = ⟨some g,none,false⟩)
    (hstored : t.stored = g::s.stored) (hmark : t.lastMark = s.lastMark)
    (hcycle : t.lastCycle = s.lastCycle)
    (hflight : ∀ o b, inFlight t o = some b → inFlight s o = some b ∧ g.began < b)
    (hworker : CycleTimed now t t.worker) : CleanInv now t where
  fresh _ g' hg' := by
    rw [hcache] at hg'
    obtain rfl := Option.some.inj hg'
    rw [hmark, hcycle]
    exact ⟨hg.marked,hg.cycled⟩
  flight o b hb := by
    have hold := h.flight o b (hflight o b hb).1
    refine ⟨hold.past,hmark ▸ hold.marked,hcycle ▸ hold.cycled,fun g' hg' => ?_⟩
    rw [hcache] at hg'
    obtain rfl := Option.some.inj hg'
    exact (hflight o b hb).2
  head := by rw [hstored, hcache]; rfl
  order := by
    rw [hstored]
    exact List.pairwise_cons.mpr ⟨stored_before h hg.cached,h.order⟩
  cached g' hg' := by
    rw [hcache] at hg'
    obtain rfl := Option.some.inj hg'
    exact hg.past
  marked := hmark ▸ h.marked
  cycled := hcycle ▸ h.cycled
  worker := hworker

/-- The cache after a store is newer still, so cycles that were handled stay handled. -/
theorem handled_store {g : Graph} (hg : ∀ g', s.cache.topology = some g' → g'.began < g.began)
    {start : ℕ} (h : Handled s start) : Handled (storeGraph s g) start := by
  cases h with
  | inl hm => exact .inl hm
  | inr hc =>
    obtain ⟨g',hg',hs⟩ := hc
    exact .inr ⟨g,rfl,Nat.lt_trans hs (hg g' hg')⟩

theorem store_worker (h : CleanInv now s) {start : ℕ} {g : Graph} (hw : s.worker = .built start g)
    (hothers : OthersAfter s none g.began) :
    CleanInv now (setWorker (storeGraph s g) (.grouping g.epoch start)) := by
  have hg : Newest now s g.began := h.flight none g.began (by rw [inFlight, hw]; rfl)
  have hstart : start < g.began := by
    have hworker := h.worker
    rw [hw] at hworker
    exact hworker
  refine store_clean h hg rfl rfl rfl rfl ?_ ?_
  · intro o b hb
    cases o with
    | none => nomatch hb
    | some i => exact ⟨hb,hothers (some i) (by simp) b hb⟩
  · exact ⟨Nat.lt_trans hstart hg.past,.inr ⟨g,rfl,hstart⟩⟩

theorem store_reader (h : CleanInv now s) (i : ℕ) {r : Reader X} {g : Graph}
    (hr : (s.readers i).stores = some g) (hothers : OthersAfter s (some i) g.began)
    (hdone : r.cacheBuild = none) : CleanInv now (setReader (storeGraph s g) i r) := by
  have hbuild : (s.readers i).cacheBuild = some g.began := by
    cases hri : s.readers i <;> simp_all [Reader.stores, Reader.cacheBuild]
  have hg : Newest now s g.began := h.flight (some i) g.began hbuild
  refine store_clean h hg rfl rfl rfl rfl ?_ ?_
  · intro o b hb
    cases o with
    | none => exact ⟨hb,hothers none (by simp) b hb⟩
    | some j =>
      by_cases hj : j = i
      · subst hj
        simp only [inFlight, setReader, Function.update_self, hdone] at hb
        cases hb
      · simp only [inFlight, setReader, Function.update_of_ne hj] at hb
        exact ⟨hb,hothers (some j) (by simpa using hj) b hb⟩
  · exact h.worker.transfer fun start _ hs => handled_store hg.cached hs

/-- A build that begins now is newer than anything that has happened. -/
theorem newest_now (h : CleanInv s.clock s) : Newest (s.clock+1) s s.clock :=
  ⟨Nat.lt_succ_self _,h.marked,h.cycled,h.cached⟩

/-- A cycle ends when everything in flight is newer than its start. -/
theorem end_clean (h : CleanInv now s) {start : ℕ} (hw : s.worker = .ending start)
    (hflight : ∀ o b, inFlight s o = some b → start < b) :
    CleanInv now (setWorker { s with lastCycle := some start } .idle) where
  fresh hd g hg := by
    have hworker := h.worker
    rw [hw] at hworker
    have hfresh := h.fresh hd g hg
    refine ⟨hfresh.1,fun m hm => ?_⟩
    obtain rfl := Option.some.inj hm
    cases hworker.2 with
    | inl hmark =>
      obtain ⟨m,hm,hs⟩ := hmark
      exact Nat.lt_trans hs (hfresh.1 m hm)
    | inr hstored =>
      obtain ⟨g',hg',hs⟩ := hstored
      obtain rfl := Option.some.inj (hg.symm.trans hg')
      exact hs
  flight o b hb := by
    have hold : inFlight s o = some b := by
      cases o with
      | none => nomatch hb
      | some i => exact hb
    have hn := h.flight o b hold
    refine ⟨hn.past,hn.marked,fun m hm => ?_,hn.cached⟩
    obtain rfl := Option.some.inj hm
    exact hflight o b hold
  head := h.head
  order := h.order
  cached := h.cached
  marked := h.marked
  cycled m hm := by
    obtain rfl := Option.some.inj hm
    have hworker := h.worker
    rw [hw] at hworker
    exact hworker.1
  worker := trivial

theorem handler_clean (h : CleanInv now s) (i : ℕ) (d : Handler) :
    CleanInv now (setHandler s i d) := other_clean h rfl rfl rfl rfl rfl rfl

theorem send_clean (h : CleanInv now s) (g : Graph) : CleanInv now (send s g) :=
  other_clean h rfl rfl rfl rfl rfl rfl

theorem quiet_worker (h : CleanInv now s) {c : Cycle} (hc : CycleTimed now s c)
    (hb : c.cacheBuild = none) : CleanInv now (setWorker s c) :=
  move_worker h hc fun b hcb => by rw [hb] at hcb; cases hcb

theorem work_clean (h : CleanInv s.clock s) {k : ℕ} {flag : Bool}
    (hcalm : OneEpoch s (.work k flag)) (hok : NoOlderBuild s (.work k flag)) :
    CleanInv (s.clock+1) (work s k flag) := by
  have hlater := h.mono (Nat.le_succ s.clock)
  have hlt : ∀ {start : ℕ}, start < s.clock → start < s.clock+1 := Nat.lt_succ_of_lt
  have hworker := h.worker
  obtain ⟨hmarks,hstores,hends⟩ := hok
  cases hw : s.worker with
  | idle =>
    simp only [work, hw]
    exact quiet_worker hlater (Nat.lt_succ_self _) rfl
  | begun epoch start clients =>
    rw [hw] at hworker hmarks
    simp only [work, hw]
    split_ifs with hclients
    · exact quiet_worker (mark_clean h (hmarks hclients)) ⟨hlt hworker,handled_of_mark hworker⟩ rfl
    · exact quiet_worker hlater (hlt hworker) rfl
    · exact quiet_worker hlater (hlt hworker) rfl
  | checked epoch start =>
    rw [hw] at hworker hmarks
    simp only [work, hw]
    split_ifs with hwarm
    · exact quiet_worker (mark_clean h (hmarks hwarm)) ⟨hlt hworker,handled_of_mark hworker⟩ rfl
    · refine move_worker hlater hworker fun b hb => ?_
      obtain rfl := Option.some.inj hb
      exact newest_now h
  | building epoch start began =>
    rw [hw] at hworker
    have hflag : flag = true := hcalm (by rw [hw]; trivial)
    simp only [work, hw, hflag, if_true]
    refine move_worker hlater hworker fun b hb => ?_
    obtain rfl := Option.some.inj hb
    exact hlater.flight none began (by rw [inFlight, hw]; rfl)
  | built start g =>
    rw [hw] at hworker hstores
    have hbegan := (h.flight none g.began (by rw [inFlight, hw]; rfl)).past
    simp only [work, hw]
    split_ifs
    · exact quiet_worker hlater (hlt (Nat.lt_trans hworker hbegan)) rfl
    · exact store_worker hlater hw (hstores g rfl)
  | rejected epoch start =>
    rw [hw] at hworker hmarks
    simp only [work, hw]
    exact quiet_worker (mark_clean h (hmarks trivial)) ⟨hlt hworker,handled_of_mark hworker⟩ rfl
  | grouping epoch start =>
    rw [hw] at hworker
    simp only [work, hw]
    split_ifs
    · exact quiet_worker hlater (hlt hworker.1) rfl
    · exact quiet_worker hlater ⟨hlt hworker.1,hworker.2⟩ rfl
  | groups epoch start n =>
    rw [hw] at hworker
    cases n with
    | zero =>
      simp only [work, hw]
      exact quiet_worker hlater ⟨hlt hworker.1,hworker.2⟩ rfl
    | succ n =>
      simp only [work, hw]
      split_ifs
      · exact quiet_worker hlater (hlt hworker.1) rfl
      · exact quiet_worker hlater ⟨hlt hworker.1,hworker.2⟩ rfl
  | groupBuilding epoch start n began =>
    rw [hw] at hworker
    simp only [work, hw]
    split_ifs <;> exact quiet_worker hlater ⟨hlt hworker.1,hworker.2⟩ rfl
  | groupBuilt start n g =>
    rw [hw] at hworker
    simp only [work, hw]
    split_ifs
    · exact quiet_worker hlater (hlt hworker.1) rfl
    · exact quiet_worker hlater ⟨hlt hworker.1,hworker.2⟩ rfl
  | authorizing start n g =>
    rw [hw] at hworker
    simp only [work, hw]
    exact quiet_worker hlater ⟨hlt hworker.1,hworker.2⟩ rfl
  | sending start n g frames =>
    rw [hw] at hworker
    cases frames with
    | zero =>
      simp only [work, hw]
      exact quiet_worker hlater ⟨hlt hworker.1,hworker.2⟩ rfl
    | succ m =>
      simp only [work, hw]
      exact quiet_worker (send_clean hlater g) ⟨hlt hworker.1,hworker.2⟩ rfl
  | abandoning start =>
    rw [hw] at hworker hmarks
    simp only [work, hw]
    exact quiet_worker (mark_clean h (hmarks trivial)) ⟨hlt hworker,handled_of_mark hworker⟩ rfl
  | ending start =>
    simp only [work, hw]
    exact end_clean hlater hw (hends start hw)

/-- The flag is raised, or lowered on an empty cache. -/
theorem set_dirty_clean (h : CleanInv now s) {d : Bool}
    (hd : d = false → s.cache.topology = none) : CleanInv now (setDirty s d) := by
  refine frame_clean h (fun hdirty g hg => ?_) rfl rfl rfl rfl (fun o b hb => ?_) h.worker
  · cases (hd hdirty).symm.trans hg
  · exact h.flight o b (by cases o <;> exact hb)

theorem store_index_clean (h : CleanInv now s) (x : X) : CleanInv now (storeIndex s x) := by
  refine frame_clean h h.fresh rfl rfl rfl rfl (fun o b hb => ?_) h.worker
  exact h.flight o b (by cases o <;> exact hb)

theorem quiet_reader (h : CleanInv now s) (i : ℕ) {r : Reader X} (hr : r.cacheBuild = none) :
    CleanInv now (setReader s i r) :=
  move_reader h i fun b hb => by rw [hr] at hb; cases hb

theorem afterGet_cacheBuild (w : Bool) (since : ℕ) (topo : Option Graph) :
    (afterGet w since topo : Reader X).cacheBuild = none := by
  cases topo with
  | none => rfl
  | some g => cases w <;> rfl

theorem read_clean (h : CleanInv s.clock s) {t : Broadcaster X} {i : ℕ} {flag : Bool}
    (hok : NoOlderBuild s (.read i flag)) (ht : read indexByResource s i flag = some t) :
    CleanInv (s.clock+1) t := by
  have hlater := h.mono (Nat.le_succ s.clock)
  obtain ⟨hgate,hstores⟩ := hok
  cases hr : s.readers i with
  | idle => simp [read, hr] at ht
  | gating w since =>
    simp only [read, hr] at ht
    split_ifs at ht with hdirty
    · obtain rfl := Option.some.inj ht
      exact quiet_reader (set_dirty_clean hlater fun _ => hgate w since hr hdirty) i rfl
    · obtain rfl := Option.some.inj ht
      exact quiet_reader hlater i (afterGet_cacheBuild _ _ _)
  | loading w since =>
    simp only [read, hr] at ht
    split_ifs at ht
    · obtain rfl := Option.some.inj ht
      refine move_reader hlater i fun b hb => ?_
      obtain rfl := Option.some.inj hb
      exact newest_now h
    · obtain rfl := Option.some.inj ht
      exact quiet_reader hlater i rfl
  | building w since epoch began =>
    simp only [read, hr] at ht
    split_ifs at ht
    · obtain rfl := Option.some.inj ht
      refine move_reader hlater i fun b hb => ?_
      obtain rfl := Option.some.inj hb
      exact hlater.flight (some i) began (by rw [inFlight, hr]; rfl)
    · obtain rfl := Option.some.inj ht
      exact quiet_reader hlater i rfl
  | built w since g =>
    rw [hr] at hstores
    simp only [read, hr] at ht
    split_ifs at ht
    · obtain rfl := Option.some.inj ht
      exact quiet_reader hlater i rfl
    · obtain rfl := Option.some.inj ht
      exact store_reader hlater i (by rw [hr]; rfl) (hstores g rfl) rfl
  | redirty w since =>
    simp only [read, hr] at ht
    obtain rfl := Option.some.inj ht
    exact quiet_reader (set_dirty_clean hlater (d := true) fun hd => by cases hd) i rfl
  | rereading w since =>
    simp only [read, hr] at ht
    obtain rfl := Option.some.inj ht
    exact quiet_reader hlater i (afterGet_cacheBuild _ _ _)
  | got since g =>
    simp only [read, hr] at ht
    split at ht
    · split_ifs at ht <;>
      · obtain rfl := Option.some.inj ht
        exact quiet_reader hlater i rfl
    · obtain rfl := Option.some.inj ht
      exact quiet_reader hlater i rfl
  | indexing since g =>
    simp only [read, hr] at ht
    split_ifs at ht
    · obtain rfl := Option.some.inj ht
      exact quiet_reader (store_index_clean hlater _) i rfl
    · obtain rfl := Option.some.inj ht
      exact quiet_reader hlater i rfl
  | returned w since topo index => simp [read, hr] at ht

/-- A stream handler does not touch the cache. -/
theorem handle_clean (h : CleanInv now s) {t : Broadcaster X} {i : ℕ} {flag : Bool}
    (ht : handle s i flag = some t) : CleanInv now t := by
  cases hd : s.handlers i with
  | idle => simp [handle, hd] at ht
  | building epoch began =>
    simp only [handle, hd] at ht
    split_ifs at ht <;>
    · obtain rfl := Option.some.inj ht
      exact handler_clean h i _
  | built g =>
    simp only [handle, hd] at ht
    split_ifs at ht <;>
    · obtain rfl := Option.some.inj ht
      exact handler_clean h i _
  | checked g =>
    simp only [handle, hd] at ht
    obtain rfl := Option.some.inj ht
    exact handler_clean (send_clean h g) i _
  | done => simp [handle, hd] at ht

theorem act_clean (h : CleanInv s.clock s) {t : Broadcaster X} {a : Act} (hcalm : OneEpoch s a)
    (hok : NoOlderBuild s a) (ht : act indexByResource s a = some t) :
    CleanInv (s.clock+1) t := by
  have hlater := h.mono (Nat.le_succ s.clock)
  cases a with
  | change =>
    obtain rfl := Option.some.inj ht
    exact hlater
  | resetBump j => exact absurd hcalm id
  | resetClear j => exact absurd hcalm id
  | work k flag =>
    obtain rfl := Option.some.inj ht
    exact work_clean h hcalm hok
  | get i w up =>
    simp only [act] at ht
    split at ht
    · obtain rfl := Option.some.inj ht
      unfold get
      split_ifs
      · exact quiet_reader hlater i rfl
      · exact quiet_reader hlater i (afterGet_cacheBuild _ _ _)
    · cases ht
  | read i flag => exact read_clean h hok ht
  | openStream i =>
    simp only [act] at ht
    split at ht
    · next hd =>
      obtain rfl := Option.some.inj ht
      exact handler_clean hlater i _
    · cases ht
  | handle i flag => exact handle_clean hlater ht

theorem clean_step_inv (h : CleanInv s.clock s) {t : Broadcaster X} {a : Act}
    (hok : OneEpoch s a ∧ NoOlderBuild s a) (ht : step indexByResource s a = some t) :
    CleanInv t.clock t := by
  obtain ⟨u,hu,rfl⟩ := step_act ht
  have hclock := act_clock hu
  have hclean := act_clean h hok.1 hok.2 hu
  rw [← hclock] at hclean
  exact other_clean hclean rfl rfl rfl rfl rfl rfl

/-- Within one epoch and with builds succeeding, in a run in which no older build is in flight
when the cache is marked, a cycle ends or a graph is stored, and a read clears the flag only of
an empty cache: a clean graph began after the latest mark and after the start of the latest
finished cycle, and graphs are stored in the order their builds began. -/
theorem clean_cache_fresh (indexByResource : Graph → X) (as : List Act) (s : Broadcaster X)
    (hrun : run (step indexByResource) {} as = some s)
    (hok : Meets (step indexByResource) (fun s a => OneEpoch s a ∧ NoOlderBuild s a) {} as) :
    CleanFresh s ∧ s.stored.Pairwise fun newer older => older.began < newer.began := by
  have hinv : CleanInv s.clock s :=
    meets_invariant (fun s a t h ha ht => clean_step_inv h ha ht) fresh_clean hok hrun
  exact ⟨hinv.fresh,hinv.order⟩

/-- A broadcast cycle stores its graph; nothing else moves. -/
def quietCycleRun : List Act := [.work 1 true,.work 0 true,.work 0 false,.work 0 true,.work 0 true]

theorem clean_cache_fresh_quiet :
    ∃ s : Broadcaster ℕ, run (step Graph.id) {} quietCycleRun = some s ∧
      s.cache.topology = some ⟨3,0,2⟩ ∧ CleanFresh s ∧
      s.stored.Pairwise fun newer older => older.began < newer.began := by
  refine ⟨_,rfl,rfl,clean_cache_fresh Graph.id quietCycleRun _ rfl ?_⟩
  refine meets_cons ⟨nofun,nofun,nofun,nofun⟩ rfl ?_
  refine meets_cons ⟨nofun,nofun,nofun,nofun⟩ rfl ?_
  refine meets_cons ⟨nofun,nofun,nofun,nofun⟩ rfl ?_
  refine meets_cons ⟨fun _ => rfl,nofun,nofun,nofun⟩ rfl ?_
  refine meets_cons ⟨nofun,nofun,fun g hg o ho b hb => ?_,nofun⟩ rfl trivial
  cases o with
  | none => exact absurd rfl ho
  | some i => nomatch hb

/-- A cycle marks the cache while a read is building, and the read stores its graph as clean. -/
def lostMarkRun : List Act :=
  [.work 0 true,.work 0 true,.work 0 true,.get 0 false true,.read 0 true,.read 0 true,.change,
    .work 0 true,.work 0 true,.work 0 true,.read 0 true,.read 0 true]

theorem mark_lost_to_rebuild :
    ¬∀ (as : List Act) (s : Broadcaster ℕ), run (step Graph.id) {} as = some s →
      Meets (step Graph.id) OneEpoch {} as → CleanFresh s := by
  intro h
  have hmeets : Meets (step Graph.id) OneEpoch ({} : Broadcaster ℕ) lostMarkRun := by decide
  have hfresh := h lostMarkRun _ rfl hmeets rfl ⟨10,0,5⟩ rfl
  exact absurd (hfresh.1 8 rfl) (by decide)

end Radar.Sse
