import Mathlib.Order.Lattice.Nat
import Mathlib.Tactic.SplitIfs
import Radar.Policy.Reports

/-!
# No change is lost

While one cluster is active, what an index was built from is what the
informers hold, or a rebuild is still to come, if nothing changes unnoticed
between the list of the warm-up and its handlers and no rebuild looks for the
index before the warm-up has published what is already stale.
-/

set_option autoImplicit false

namespace Radar.Policy

open Radar.Run

variable {R : Type} {s t : State R}

/-- A run within one cluster whose handlers are all registered. -/
def OneCluster : Act R → Prop
  | .cancelOperations => False
  | .resetPolicyReportIndex => False
  | .resetDynamicCache => False
  | .resetDiscovery => False
  | .register _ ok => ok = true
  | _ => True

/-- What a warm-up has listed, and the cache it registers with. -/
def Warmup.listed : Warmup R → Option (ℕ × Listed R)
  | .registering _ cache _ done _ _ => some (cache,done)
  | _ => none

/-- A handler is registered for what has not changed since it was listed, or is told of some
object; a rebuild that finds no index finds nothing changed. -/
def Noticed (s : State R) : Act R → Prop
  | .register i _ =>
    match s.warmups i with
    | .registering _ cache _ done (gvr::_) _ =>
      (∀ q ∈ done, q.1 = gvr → q.2 = s.store cache gvr) ∨ s.store cache gvr ≠ []
    | _ => True
  | .rebuild i =>
    match s.rebuilds i with
    | .starting => s.index = none → ∀ j cache done, (s.warmups j).listed = some (cache,done) →
        ∀ q ∈ done, q.2 = s.store cache q.1
    | _ => True
  | _ => True

/-- No timer, no rebuild, no request for one, and no warm-up on its way. -/
def Quiet (s : State R) : Prop :=
  s.notified = 0 ∧ s.timers = 0 ∧ (∀ i, s.rebuilds i = .idle) ∧
    ∀ i, s.warmups i = .idle ∨ s.warmups i = .returned

def Index.content {X : Type} (buildIndex : List R → X) (idx : Index R) : X :=
  buildIndex (idx.reports.flatMap Prod.snd)

/-- The published index is built from what the watched informers hold. -/
def UpToDate {X : Type} (buildIndex : List R → X) (s : State R) : Prop :=
  ∀ idx, s.index = some idx → ∃ cache, s.dynamicCache = some cache ∧
    idx.content buildIndex = buildIndex (s.watched.flatMap (s.store cache))

def Rebuild.looping : Rebuild R → Bool
  | .idle => false
  | .requested => false
  | _ => true

def Rebuild.running : Rebuild R → Bool
  | .starting => true
  | .captured _ _ _ => true
  | .listing _ _ _ _ _ => true
  | .built _ _ _ _ => true
  | _ => false

/-- Another rebuild will begin. -/
def Requested (s : State R) : Prop :=
  0 < s.notified ∨ 0 < s.timers ∨ (∃ i, s.rebuilds i = .requested) ∨ s.rebuildAgain = true

def Running (s : State R) : Prop := ∃ i, (s.rebuilds i).running = true

def Known (s : State R) (q : GVR × List R) : Prop := q.2 = s.store 0 q.1 ∨ Requested s

/-- What was listed is still there, or will be listed again. -/
def Fresh (s : State R) (q : GVR × List R) : Prop := Known s q ∨ Running s

def RebuildOk (s : State R) : Rebuild R → Prop
  | .captured gen idx gvrs => gen = 0 ∧ s.index = some idx ∧ gvrs = s.watched
  | .listing gen idx cache done todo => gen = 0 ∧ s.index = some idx ∧ cache = 0 ∧
      done.map Prod.fst++todo = s.watched ∧ ∀ q ∈ done, Known s q
  | .built gen idx _ done => gen = 0 ∧ s.index = some idx ∧ done.map Prod.fst = s.watched ∧
      ∀ q ∈ done, Known s q
  | _ => True

def WarmupOk (s : State R) : Warmup R → Prop
  | .idle => True
  | .returned => True
  | .entered _ p => s.index = none ∧ p.gen = 0
  | .discovering p => s.index = none ∧ p.gen = 0
  | .caching p => s.index = none ∧ p.gen = 0
  | .selecting p cache => s.index = none ∧ p.gen = 0 ∧ cache = 0
  | .warmed p cache _ => s.index = none ∧ p.gen = 0 ∧ cache = 0
  | .listing p cache sel listed done todo => s.index = none ∧ p.gen = 0 ∧ cache = 0 ∧ listed = 0 ∧
      done.map Prod.fst++todo = sel.gvrs
  | .registering p cache sel done todo _ => s.index = none ∧ p.gen = 0 ∧ cache = 0 ∧
      done.map Prod.fst = sel.gvrs ∧ (∀ g ∈ sel.gvrs, g ∈ todo ∨ s.handlers 0 g = true) ∧
        ∀ q ∈ done, q.1 ∉ todo → Fresh s q
  | .recording p _ => s.index = none ∧ p.gen = 0
  | _ => s.index = none

structure IndexOk (s : State R) (idx : Index R) : Prop where
  keys : idx.reports.map Prod.fst = s.watched
  fresh : ∀ q ∈ idx.reports, Fresh s q

structure LossInv (s : State R) : Prop where
  gen : s.warmupGen = 0
  switch : s.switch = .discoveryReset ∨ s.switch = .stable
  installed : s.switch = .stable → s.dynamicCache = some 0
  begun : ∀ i, s.warmups i ≠ .idle → s.switch = .stable
  single : ∀ i j, s.warmups i ≠ .idle → s.warmups j ≠ .idle → i = j
  published : s.index.isSome = true → s.switch = .stable
  pending : s.pending = true → 0 < s.timers
  looping : ∀ i, (s.rebuilds i).looping = true → s.rebuilding = true
  unique : ∀ i j, (s.rebuilds i).looping = true → (s.rebuilds j).looping = true → i = j
  held : s.rebuilding = true → ∃ i, (s.rebuilds i).looping = true
  again : s.rebuildAgain = true → s.rebuilding = true
  rebuilds : ∀ i, RebuildOk s (s.rebuilds i)
  warmups : ∀ i, WarmupOk s (s.warmups i)
  handled : ∀ g ∈ s.watched, s.handlers 0 g = true
  index : ∀ idx, s.index = some idx → IndexOk s idx

section Frames

theorem rebuildOk_of_rest {r : Rebuild R} (hr : r.looping = false) : RebuildOk s r := by
  cases r with
  | idle => trivial
  | requested => trivial
  | _ => nomatch hr

theorem looping_of_running {r : Rebuild R} (hr : r.running = true) : r.looping = true := by
  cases r with
  | idle => cases hr
  | requested => cases hr
  | _ => rfl

/-- What the invariant says of a rebuild is kept with the index and with what is known. -/
theorem RebuildOk.frame {r : Rebuild R} (hr : RebuildOk s r) (hx : t.index = s.index)
    (hw : t.watched = s.watched) (hq : ∀ q, q.1 ∈ s.watched → Known s q → Known t q) :
    RebuildOk t r := by
  cases r with
  | captured gen idx gvrs =>
    rw [RebuildOk, hx, hw]
    exact hr
  | listing gen idx cache done todo =>
    obtain ⟨hgen,hidx,hcache,hkeys,hdone⟩ := hr
    refine ⟨hgen,hx.trans hidx,hcache,hkeys.trans hw.symm,fun q hmem => hq q ?_ (hdone q hmem)⟩
    rw [← hkeys]
    exact List.mem_append_left _ (List.mem_map_of_mem hmem)
  | built gen idx sources done =>
    obtain ⟨hgen,hidx,hkeys,hdone⟩ := hr
    refine ⟨hgen,hx.trans hidx,hkeys.trans hw.symm,fun q hmem => hq q ?_ (hdone q hmem)⟩
    rw [← hkeys]
    exact List.mem_map_of_mem hmem
  | _ => trivial

/-- What the invariant says of a warm-up is kept with the index, the handlers and what is fresh. -/
theorem WarmupOk.frame {w : Warmup R} (hw : WarmupOk s w) (hx : t.index = s.index)
    (hh : ∀ g, s.handlers 0 g = true → t.handlers 0 g = true)
    (hq : ∀ cache done, w.listed = some (cache,done) → ∀ q ∈ done, s.handlers 0 q.1 = true →
      Fresh s q → Fresh t q) : WarmupOk t w := by
  cases w with
  | idle => trivial
  | returned => trivial
  | registering p cache sel done todo live =>
    obtain ⟨hidx,hgen,hcache,hkeys,hhand,hdone⟩ := hw
    refine ⟨hx.trans hidx,hgen,hcache,hkeys,fun g hg => (hhand g hg).imp_right (hh g),?_⟩
    intro q hmem htodo
    have hkey : q.1 ∈ sel.gvrs := hkeys ▸ List.mem_map_of_mem hmem
    exact hq cache done rfl q hmem ((hhand q.1 hkey).resolve_left htodo) (hdone q hmem htodo)
  | _ =>
    simp only [WarmupOk, hx]
    exact hw

theorem IndexOk.frame {idx : Index R} (h : IndexOk s idx) (hw : t.watched = s.watched)
    (hq : ∀ q ∈ idx.reports, Fresh s q → Fresh t q) : IndexOk t idx :=
  ⟨h.keys.trans hw.symm,fun q hmem => hq q hmem (h.fresh q hmem)⟩

theorem IndexOk.key_mem {idx : Index R} (h : IndexOk s idx) {q : GVR × List R}
    (hq : q ∈ idx.reports) : q.1 ∈ s.watched :=
  h.keys ▸ List.mem_map_of_mem hq

/-- A step that leaves the threads alone, and no handled change unknown. -/
theorem LossInv.frame (h : LossInv s) {store : ℕ → GVR → List R} {handlers : ℕ → GVR → Bool}
    {discovery : Option ℕ} {notified timers : ℕ} {pending : Bool} {readers : ℕ → Reader}
    {onces : ℕ → Option OnceRun} {decision : Option Decision}
    (hp : pending = true → 0 < timers)
    (hh : ∀ g, s.handlers 0 g = true → handlers 0 g = true)
    (hk : ∀ q : GVR × List R, s.handlers 0 q.1 = true → Known s q → Known
      { s with store, handlers, discovery, notified, timers, pending, readers, onces, decision } q) :
    LossInv
      { s with store, handlers, discovery, notified, timers, pending, readers, onces, decision } where
  gen := h.gen
  switch := h.switch
  installed := h.installed
  begun := h.begun
  single := h.single
  published := h.published
  pending := hp
  looping := h.looping
  unique := h.unique
  held := h.held
  again := h.again
  rebuilds i := (h.rebuilds i).frame rfl rfl fun q hq => hk q (h.handled q.1 hq)
  warmups i := (h.warmups i).frame rfl hh fun _ _ _ q _ hq hf => hf.imp_left (hk q hq)
  handled g hg := hh g (h.handled g hg)
  index idx hidx := (h.index idx hidx).frame rfl fun q hq hf =>
    hf.imp_left (hk q (h.handled q.1 ((h.index idx hidx).key_mem hq)))

/-- What a published index or a warm-up on its way was listed as. -/
def Tracked (s : State R) (q : GVR × List R) : Prop :=
  (∃ idx, s.index = some idx ∧ q ∈ idx.reports) ∨
    ∃ i cache done, (s.warmups i).listed = some (cache,done) ∧ q ∈ done

/-- A step of one rebuild. -/
theorem LossInv.rebuildStep (h : LossInv s) {i timers : ℕ} {r : Rebuild R} {b a pending : Bool}
    (hp : pending = true → 0 < timers) (hl : r.looping = true → b = true)
    (ho : ∀ j, j ≠ i → (s.rebuilds j).looping = true → r.looping = false ∧ b = true)
    (hheld : b = true → r.looping = true ∨ ∃ j, j ≠ i ∧ (s.rebuilds j).looping = true)
    (ha : a = true → b = true)
    (hok : RebuildOk { s.setRebuild i r with rebuilding := b, rebuildAgain := a, timers, pending } r)
    (hk : ∀ j, j ≠ i → (s.rebuilds j).looping = true → ∀ q, Known s q →
      Known { s.setRebuild i r with rebuilding := b, rebuildAgain := a, timers, pending } q)
    (hf : ∀ q, Tracked s q → Fresh s q →
      Fresh { s.setRebuild i r with rebuilding := b, rebuildAgain := a, timers, pending } q) :
    LossInv { s.setRebuild i r with rebuilding := b, rebuildAgain := a, timers, pending } where
  gen := h.gen
  switch := h.switch
  installed := h.installed
  begun := h.begun
  single := h.single
  published := h.published
  pending := hp
  looping := by
    intro j hj
    by_cases hji : j = i
    · subst hji
      exact hl (by simpa only [State.setRebuild, Function.update_self] using hj)
    · exact (ho j hji (by simpa only [State.setRebuild, Function.update_of_ne hji] using hj)).2
  unique := by
    have hone : ∀ j, j ≠ i → ((s.setRebuild i r).rebuilds j).looping = true → r.looping = false := by
      intro j hji hj
      exact (ho j hji (by simpa only [State.setRebuild, Function.update_of_ne hji] using hj)).1
    have hself : (s.setRebuild i r).rebuilds i = r := by
      simp only [State.setRebuild, Function.update_self]
    intro j k hj hk'
    by_cases hji : j = i
    · by_cases hki : k = i
      · exact hji.trans hki.symm
      · subst hji
        have hfalse := hone k hki hk'
        rw [← hself, show ((s.setRebuild j r).rebuilds j).looping = true from hj] at hfalse
        cases hfalse
    · by_cases hki : k = i
      · subst hki
        have hfalse := hone j hji hj
        rw [← hself, show ((s.setRebuild k r).rebuilds k).looping = true from hk'] at hfalse
        cases hfalse
      · exact h.unique j k (by simpa only [State.setRebuild, Function.update_of_ne hji] using hj)
          (by simpa only [State.setRebuild, Function.update_of_ne hki] using hk')
  held := by
    intro hb
    obtain hr | ⟨j,hji,hj⟩ := hheld hb
    · exact ⟨i,by simpa only [State.setRebuild, Function.update_self] using hr⟩
    · exact ⟨j,by simpa only [State.setRebuild, Function.update_of_ne hji] using hj⟩
  again := ha
  rebuilds := by
    intro j
    by_cases hji : j = i
    · subst hji
      simpa only [State.setRebuild, Function.update_self] using hok
    · simp only [State.setRebuild, Function.update_of_ne hji]
      cases hj : (s.rebuilds j).looping with
      | false => exact rebuildOk_of_rest hj
      | true => exact (h.rebuilds j).frame rfl rfl fun q _ hq => hk j hji hj q hq
  warmups j := (h.warmups j).frame rfl (fun _ hg => hg) fun cache done hd q hq _ hfr =>
    hf q (.inr ⟨j,cache,done,hd,hq⟩) hfr
  handled := h.handled
  index idx hidx := (h.index idx hidx).frame rfl fun q hq hfr => hf q (.inl ⟨idx,hidx,hq⟩) hfr

/-- A step of the rebuild that loops. -/
theorem LossInv.loopStep (h : LossInv s) {i : ℕ} {r : Rebuild R} {a : Bool}
    (hi : (s.rebuilds i).looping = true) (hr : r.looping = true)
    (ha : a = true → s.rebuildAgain = true)
    (hok : RebuildOk { s.setRebuild i r with rebuildAgain := a } r)
    (hf : ∀ q, Tracked s q → Fresh s q → Fresh { s.setRebuild i r with rebuildAgain := a } q) :
    LossInv { s.setRebuild i r with rebuildAgain := a } := by
  have hone : ∀ j, j ≠ i → (s.rebuilds j).looping = true → False :=
    fun j hji hj => hji (h.unique j i hj hi)
  exact h.rebuildStep h.pending (fun _ => h.looping i hi) (fun j hji hj => (hone j hji hj).elim)
    (fun _ => .inl hr) (fun hag => h.again (ha hag)) hok (fun j hji hj => (hone j hji hj).elim) hf

end Frames

section Rebuilds

theorem running_set (s : State R) (i : ℕ) {r : Rebuild R} (hr : r.running = true) :
    Running (s.setRebuild i r) :=
  ⟨i,by simpa only [State.setRebuild, Function.update_self] using hr⟩

/-- A rebuild other than the one that moves is still requested. -/
theorem requested_set {i : ℕ} (r : Rebuild R) (hi : s.rebuilds i ≠ .requested) (h : Requested s) :
    Requested (s.setRebuild i r) := by
  obtain hn | ht | ⟨j,hj⟩ | ha := h
  · exact .inl hn
  · exact .inr (.inl ht)
  · have hji : j ≠ i := fun hji => hi (hji ▸ hj)
    exact .inr (.inr (.inl ⟨j,by simpa only [State.setRebuild, Function.update_of_ne hji] using hj⟩))
  · exact .inr (.inr (.inr ha))

theorem warmup_over {w : Warmup R} {idx : Index R} (hw : WarmupOk s w) (hx : s.index = some idx) :
    w = .idle ∨ w = .returned := by
  cases w with
  | idle => exact .inl rfl
  | returned => exact .inr rfl
  | spawned cluster => nomatch hx.symm.trans hw
  | gated cluster ctx => nomatch hx.symm.trans hw
  | checked cluster => nomatch hx.symm.trans hw
  | _ => nomatch hx.symm.trans hw.1

theorem warmupOk_over {w : Warmup R} (hw : w = .idle ∨ w = .returned) : WarmupOk s w := by
  obtain rfl | rfl := hw <;> trivial

/-- What a rebuild has listed replaces the index. -/
theorem republish_loss (h : LossInv s) {i : ℕ} {idx : Index R} {done : Listed R} {sources : List ℕ}
    (hloop : (s.rebuilds i).looping = true) (hidx : s.index = some idx)
    (hkeys : done.map Prod.fst = s.watched)
    (hdone : ∀ q ∈ done, Known (s.setRebuild i .judging) q) :
    LossInv { s.setRebuild i .judging with
      index := some ⟨s.nextPtr,done,sources⟩
      nextPtr := s.nextPtr+1 } where
  gen := h.gen
  switch := h.switch
  installed := h.installed
  begun := h.begun
  single := h.single
  published _ := h.published (by rw [hidx]; rfl)
  pending := h.pending
  looping _ _ := h.looping i hloop
  unique := by
    have hone : ∀ j, ((s.setRebuild i .judging).rebuilds j).looping = true → j = i := by
      intro j hj
      by_contra hji
      exact hji (h.unique j i (by simpa only [State.setRebuild, Function.update_of_ne hji] using hj) hloop)
    exact fun j k hj hk => (hone j hj).trans (hone k hk).symm
  held _ := ⟨i,by simp only [State.setRebuild, Function.update_self]; rfl⟩
  again := h.again
  rebuilds := by
    intro j
    by_cases hji : j = i
    · subst hji
      simp only [State.setRebuild, Function.update_self]
      trivial
    · simp only [State.setRebuild, Function.update_of_ne hji]
      apply rebuildOk_of_rest
      exact Bool.eq_false_iff.mpr fun hj => hji (h.unique j i hj hloop)
  warmups j := warmupOk_over (warmup_over (h.warmups j) hidx)
  handled := h.handled
  index := by
    intro idx' hx
    obtain rfl := Option.some.inj hx
    exact ⟨hkeys,fun q hq => .inl (hdone q hq)⟩

theorem rebuild_loss (h : LossInv s) {i : ℕ} (hok : Noticed s (.rebuild i))
    (ht : s.rebuild i = some t) : LossInv t := by
  have hok_i := h.rebuilds i
  cases hi : s.rebuilds i with
  | idle => simp [State.rebuild, hi] at ht
  | requested =>
    have hrest : (s.rebuilds i).looping = false := by rw [hi]; rfl
    simp only [State.rebuild, hi] at ht
    split_ifs at ht with hb
    · obtain rfl := Option.some.inj ht
      have hreq : Requested { s.setRebuild i Rebuild.idle with rebuildAgain := true } :=
        .inr (.inr (.inr rfl))
      refine h.rebuildStep h.pending (fun hr => by cases hr) (fun _ _ _ => ⟨rfl,hb⟩) ?_ (fun _ => hb)
        trivial (fun _ _ _ _ _ => .inr hreq) (fun _ _ _ => .inl (.inr hreq))
      intro _
      obtain ⟨j,hj⟩ := h.held hb
      exact .inr ⟨j,fun hji => Bool.false_ne_true (hrest.symm.trans (hji ▸ hj)),hj⟩
    · obtain rfl := Option.some.inj ht
      have hnone : ∀ j, (s.rebuilds j).looping = true → False := fun j hj => hb (h.looping j hj)
      exact h.rebuildStep h.pending (fun _ => rfl) (fun j _ hj => (hnone j hj).elim) (fun _ => .inl rfl)
        (fun _ => rfl) trivial (fun j _ hj => (hnone j hj).elim)
        (fun _ _ _ => .inr (running_set s i rfl))
  | starting =>
    have hloop : (s.rebuilds i).looping = true := by rw [hi]; rfl
    cases hx : s.index with
    | none =>
      simp only [State.rebuild, hi, hx] at ht
      simp only [Noticed, hi] at hok
      obtain rfl := Option.some.inj ht
      refine h.loopStep hloop rfl (fun ha => ha) trivial ?_
      intro q htr _
      obtain ⟨idx,hidx,-⟩ | ⟨j,cache,done,hd,hq⟩ := htr
      · cases hx.symm.trans hidx
      · have hcache : cache = 0 := by
          have hw := h.warmups j
          cases hj : s.warmups j with
          | registering p cache' sel done' todo live =>
            rw [hj] at hw hd
            obtain ⟨rfl,-⟩ := Prod.mk.inj (Option.some.inj hd)
            exact hw.2.2.1
          | _ => rw [hj] at hd; cases hd
        subst hcache
        exact .inl (.inl (hok hx j 0 done hd q hq))
    | some idx =>
      simp only [State.rebuild, hi, hx] at ht
      obtain rfl := Option.some.inj ht
      exact h.loopStep hloop rfl (fun ha => ha) ⟨h.gen,hx,rfl⟩
        (fun _ _ _ => .inr (running_set s i rfl))
  | captured gen idx gvrs =>
    have hloop : (s.rebuilds i).looping = true := by rw [hi]; rfl
    rw [hi] at hok_i
    obtain ⟨hgen,hidx,hgvrs⟩ := hok_i
    have hcache : s.dynamicCache = some 0 := h.installed (h.published (by rw [hidx]; rfl))
    simp only [State.rebuild, hi, hcache] at ht
    obtain rfl := Option.some.inj ht
    exact h.loopStep hloop rfl (fun ha => ha) ⟨hgen,hidx,rfl,hgvrs,fun _ hq => by cases hq⟩
      (fun _ _ _ => .inr (running_set s i rfl))
  | listing gen idx cache done todo =>
    have hloop : (s.rebuilds i).looping = true := by rw [hi]; rfl
    have hreq : s.rebuilds i ≠ .requested := by rw [hi]; simp
    rw [hi] at hok_i
    obtain ⟨hgen,hidx,rfl,hkeys,hdone⟩ := hok_i
    cases todo with
    | nil =>
      simp only [State.rebuild, hi] at ht
      obtain rfl := Option.some.inj ht
      refine h.loopStep hloop rfl (fun ha => ha) ⟨hgen,hidx,(List.append_nil _).symm.trans hkeys,?_⟩
        (fun _ _ _ => .inr (running_set s i rfl))
      exact fun q hq => (hdone q hq).imp_right (requested_set _ hreq)
    | cons gvr todo =>
      simp only [State.rebuild, hi] at ht
      obtain rfl := Option.some.inj ht
      have hkeys' : (done++[(gvr,s.store 0 gvr)]).map Prod.fst++todo = s.watched := by
        rw [List.map_append, List.append_assoc]
        exact hkeys
      refine h.loopStep hloop rfl (fun ha => ha) ⟨hgen,hidx,rfl,hkeys',?_⟩
        (fun _ _ _ => .inr (running_set s i rfl))
      intro q hq
      obtain hq | hq := List.mem_append.mp hq
      · exact (hdone q hq).imp_right (requested_set _ hreq)
      · obtain rfl := List.mem_singleton.mp hq
        exact .inl rfl
  | built gen idx sources done =>
    have hloop : (s.rebuilds i).looping = true := by rw [hi]; rfl
    have hreq : s.rebuilds i ≠ .requested := by rw [hi]; simp
    rw [hi] at hok_i
    obtain ⟨hgen,hidx,hkeys,hdone⟩ := hok_i
    have hcurrent : ¬(s.warmupGen ≠ gen ∨ s.index.map Index.ptr ≠ some idx.ptr) := by
      rw [h.gen, hgen, hidx]
      simp
    simp only [State.rebuild, hi, if_neg hcurrent] at ht
    obtain rfl := Option.some.inj ht
    exact republish_loss h hloop hidx hkeys fun q hq => (hdone q hq).imp_right (requested_set _ hreq)
  | judging =>
    have hloop : (s.rebuilds i).looping = true := by rw [hi]; rfl
    have hreq : s.rebuilds i ≠ .requested := by rw [hi]; simp
    have hidle : ¬Running s := by
      rintro ⟨j,hj⟩
      obtain rfl := h.unique j i (looping_of_running hj) hloop
      rw [hi] at hj
      cases hj
    simp only [State.rebuild, hi] at ht
    split_ifs at ht with ha
    · obtain rfl := Option.some.inj ht
      exact h.loopStep hloop rfl (fun ha => ha) trivial (fun _ _ _ => .inl (.inr (.inr (.inr (.inr ha)))))
    · obtain rfl := Option.some.inj ht
      have hone : ∀ j, j ≠ i → (s.rebuilds j).looping = true → False :=
        fun j hji hj => hji (h.unique j i hj hloop)
      refine h.rebuildStep h.pending (fun hr => by cases hr) (fun j hji hj => (hone j hji hj).elim)
        (fun hb => by cases hb) (fun hag => absurd hag ha) trivial (fun j hji hj => (hone j hji hj).elim) ?_
      intro q _ hfr
      exact .inl ((hfr.resolve_right hidle).imp_right (requested_set _ hreq))
  | sleeping =>
    have hloop : (s.rebuilds i).looping = true := by rw [hi]; rfl
    simp only [State.rebuild, hi] at ht
    obtain rfl := Option.some.inj ht
    exact h.loopStep hloop rfl (fun ha => by cases ha) trivial
      (fun _ _ _ => .inr (running_set s i rfl))

end Rebuilds

section Warmups

/-- A step that changes only what readers, discovery and the once remember. -/
theorem LossInv.aside (h : LossInv s) {discovery : Option ℕ} {readers : ℕ → Reader}
    {onces : ℕ → Option OnceRun} {decision : Option Decision} :
    LossInv { s with discovery, readers, onces, decision } :=
  h.frame h.pending (fun _ hg => hg) (fun _ _ hk => hk)

theorem LossInv.setWarmup (h : LossInv s) {i : ℕ} {w : Warmup R} (hi : s.warmups i ≠ .idle)
    (hw : WarmupOk s w) : LossInv (s.setWarmup i w) where
  gen := h.gen
  switch := h.switch
  installed := h.installed
  begun := by
    intro j hj
    exact h.begun i hi
  single := by
    have hone : ∀ j, (s.setWarmup i w).warmups j ≠ .idle → j = i := by
      intro j hj
      by_contra hji
      simp only [State.setWarmup, Function.update_of_ne hji] at hj
      exact hji (h.single j i hj hi)
    exact fun j k hj hk => (hone j hj).trans (hone k hk).symm
  published := h.published
  pending := h.pending
  looping := h.looping
  unique := h.unique
  held := h.held
  again := h.again
  rebuilds j := (h.rebuilds j).frame rfl rfl fun _ _ hk => hk
  warmups := by
    intro j
    by_cases hji : j = i
    · subst hji
      simp only [State.setWarmup, Function.update_self]
      exact hw.frame rfl (fun _ hg => hg) (fun _ _ _ _ _ _ hf => hf)
    · simp only [State.setWarmup, Function.update_of_ne hji]
      exact (h.warmups j).frame rfl (fun _ hg => hg) (fun _ _ _ _ _ _ hf => hf)
  handled := h.handled
  index idx hx := (h.index idx hx).frame rfl fun _ _ hf => hf

theorem LossInv.returnOnce (h : LossInv s) {i : ℕ} (hi : s.warmups i ≠ .idle) (once : ℕ) :
    LossInv (s.returnOnce i once) :=
  (h.setWarmup (w := .returned) hi trivial).aside

/-- Without an index no rebuild is past its start. -/
theorem rebuildOk_unindexed {r : Rebuild R} (hr : RebuildOk s r) (hx : s.index = none) :
    RebuildOk t r := by
  cases r with
  | captured gen idx gvrs => cases hx.symm.trans hr.2.1
  | listing gen idx cache done todo => cases hx.symm.trans hr.2.1
  | built gen idx sources done => cases hx.symm.trans hr.2.1
  | _ => trivial

theorem publishReady_loss (h : LossInv s) {i cache : ℕ} {p : Pass} {sel : ReportSelection}
    {done : Listed R} {live : Bool} (hi : s.warmups i = .registering p cache sel done [] live) :
    LossInv ((s.publishReady p sel done live).returnOnce i p.once) := by
  have hne : s.warmups i ≠ .idle := by rw [hi]; nofun
  have hw := h.warmups i
  rw [hi] at hw
  obtain ⟨hx,hgen,-,hkeys,hhand,hdone⟩ := hw
  have hcurrent : ¬s.warmupGen ≠ p.gen := by rw [h.gen, hgen]; exact not_not.mpr rfl
  have hother : ∀ j, j ≠ i → s.warmups j = .idle := by
    intro j hji
    by_contra hj
    exact hji (h.single j i hj hne)
  rw [State.publishReady, if_neg hcurrent]
  constructor
  · exact h.gen
  · exact h.switch
  · exact h.installed
  · exact fun _ _ => h.begun i hne
  · intro j k hj hk
    have hone : ∀ j, j ≠ i → (Function.update s.warmups i .returned) j = .idle := by
      intro j hji
      rw [Function.update_of_ne hji]
      exact hother j hji
    have hji : j = i := by_contra fun hji => hj (hone j hji)
    have hki : k = i := by_contra fun hki => hk (hone k hki)
    exact hji.trans hki.symm
  · exact fun _ => h.begun i hne
  · exact h.pending
  · exact h.looping
  · exact h.unique
  · exact h.held
  · exact h.again
  · exact fun j => rebuildOk_unindexed (h.rebuilds j) hx
  · intro j
    apply warmupOk_over
    by_cases hji : j = i
    · subst hji
      exact .inr (Function.update_self j _ _)
    · exact .inl ((Function.update_of_ne hji _ _).trans (hother j hji))
  · exact fun g hg => (hhand g hg).resolve_left List.not_mem_nil
  · intro idx hidx
    obtain rfl := Option.some.inj hidx
    exact ⟨hkeys,fun q hq => hdone q hq List.not_mem_nil⟩

theorem warm_loss (h : LossInv s) {i : ℕ} (ht : s.warm i = some t) : LossInv t := by
  have hw := h.warmups i
  have hinstalled : s.warmups i ≠ .idle → s.dynamicCache = some 0 :=
    fun hne => h.installed (h.begun i hne)
  cases hi : s.warmups i with
  | idle => simp [State.warm, hi] at ht
  | discovering p => simp [State.warm, hi] at ht
  | selecting p cache => simp [State.warm, hi] at ht
  | returned => simp [State.warm, hi] at ht
  | spawned cluster =>
    have hne : s.warmups i ≠ .idle := by rw [hi]; nofun
    rw [hi] at hw
    simp only [State.warm, hi] at ht
    obtain rfl := Option.some.inj ht
    exact h.setWarmup hne hw
  | gated cluster ctx =>
    have hne : s.warmups i ≠ .idle := by rw [hi]; nofun
    rw [hi] at hw
    simp only [State.warm, hi] at ht
    split_ifs at ht
    · obtain rfl := Option.some.inj ht
      exact h.setWarmup hne hw
    · obtain rfl := Option.some.inj ht
      exact h.setWarmup hne trivial
  | checked cluster =>
    have hne : s.warmups i ≠ .idle := by rw [hi]; nofun
    rw [hi] at hw
    simp only [State.warm, hi] at ht
    obtain rfl := Option.some.inj ht
    exact h.setWarmup hne ⟨hw,h.gen⟩
  | entered cluster p =>
    have hne : s.warmups i ≠ .idle := by rw [hi]; nofun
    rw [hi] at hw
    cases ho : s.onces p.once with
    | none =>
      simp only [State.warm, hi, ho] at ht
      obtain rfl := Option.some.inj ht
      have hgo : LossInv (s.setWarmup i (.discovering p)) := h.setWarmup hne hw
      exact hgo.aside
    | some o =>
      simp only [State.warm, hi, ho] at ht
      split_ifs at ht
      obtain rfl := Option.some.inj ht
      exact h.setWarmup hne trivial
  | caching p =>
    have hne : s.warmups i ≠ .idle := by rw [hi]; nofun
    rw [hi] at hw
    simp only [State.warm, hi, hinstalled hne] at ht
    obtain rfl := Option.some.inj ht
    exact h.setWarmup hne ⟨hw.1,hw.2,rfl⟩
  | warmed p cache sel =>
    have hne : s.warmups i ≠ .idle := by rw [hi]; nofun
    rw [hi] at hw
    simp only [State.warm, hi, hinstalled hne] at ht
    obtain rfl := Option.some.inj ht
    exact h.setWarmup hne ⟨hw.1,hw.2.1,hw.2.2,rfl,rfl⟩
  | listing p cache sel listed done todo =>
    have hne : s.warmups i ≠ .idle := by rw [hi]; nofun
    rw [hi] at hw
    obtain ⟨hx,hgen,hcache,hlisted,hkeys⟩ := hw
    cases todo with
    | nil =>
      simp only [State.warm, hi] at ht
      obtain rfl := Option.some.inj ht
      have hkeys' : done.map Prod.fst = sel.gvrs := (List.append_nil _).symm.trans hkeys
      refine h.setWarmup hne ⟨hx,hgen,hcache,hkeys',fun g hg => .inl hg,fun q hq htodo => ?_⟩
      exact absurd (hkeys' ▸ List.mem_map_of_mem hq) htodo
    | cons gvr todo =>
      simp only [State.warm, hi] at ht
      obtain rfl := Option.some.inj ht
      refine h.setWarmup hne ⟨hx,hgen,hcache,hlisted,?_⟩
      rw [List.map_append, List.append_assoc]
      exact hkeys
  | registering p cache sel done todo live =>
    cases todo with
    | nil =>
      simp only [State.warm, hi] at ht
      obtain rfl := Option.some.inj ht
      exact publishReady_loss h hi
    | cons gvr todo => simp [State.warm, hi] at ht
  | recording p status =>
    have hne : s.warmups i ≠ .idle := by rw [hi]; nofun
    simp only [State.warm, hi] at ht
    obtain rfl := Option.some.inj ht
    unfold State.setStatus
    split_ifs
    · exact h.returnOnce hne p.once
    · have hset : LossInv { s with decision := some ⟨status,p.sources⟩ } := h.aside
      exact hset.returnOnce hne p.once

theorem discover_loss (h : LossInv s) {i : ℕ} {kyverno : Bool}
    (ht : s.discover i kyverno = some t) : LossInv t := by
  have hw := h.warmups i
  cases hi : s.warmups i with
  | discovering p =>
    have hne : s.warmups i ≠ .idle := by rw [hi]; nofun
    rw [hi] at hw
    cases hd : s.discovery with
    | none =>
      simp only [State.discover, hi, hd] at ht
      obtain rfl := Option.some.inj ht
      exact h.setWarmup hne hw
    | some d =>
      simp only [State.discover, hi, hd] at ht
      split_ifs at ht <;>
      · obtain rfl := Option.some.inj ht
        exact h.setWarmup hne hw
  | _ => simp [State.discover, hi] at ht

theorem select_loss (h : LossInv s) {i : ℕ} {served : GVR → Bool} {probeCount : GVR → ℤ}
    (ht : s.select i served probeCount = some t) : LossInv t := by
  have hw := h.warmups i
  cases hi : s.warmups i with
  | selecting p cache =>
    have hne : s.warmups i ≠ .idle := by rw [hi]; nofun
    rw [hi] at hw
    simp only [State.select, hi] at ht
    split_ifs at ht
    · obtain rfl := Option.some.inj ht
      exact h.setWarmup hne hw
    · obtain rfl := Option.some.inj ht
      exact h.setWarmup hne ⟨hw.1,hw.2.1⟩
    · obtain rfl := Option.some.inj ht
      exact h.setWarmup hne ⟨hw.1,hw.2.1⟩
  | _ => simp [State.select, hi] at ht

/-- A handler that is registered, with what it is told of. -/
theorem addHandler_known (s : State R) (cache : ℕ) (gvr : GVR) {q : GVR × List R}
    (hq : Known s q) : Known (s.addHandler cache gvr) q :=
  hq.imp_right fun hr => hr.imp_left fun hn => Nat.add_pos_left hn _

theorem addHandler_mono (s : State R) (cache : ℕ) (gvr : GVR) {g : GVR}
    (hg : s.handlers 0 g = true) : (s.addHandler cache gvr).handlers 0 g = true := by
  by_cases hc : (0 : ℕ) = cache
  · subst hc
    by_cases hgvr : g = gvr
    · simp only [State.addHandler, hgvr, Function.update_self]
    · simpa only [State.addHandler, Function.update_self, Function.update_of_ne hgvr] using hg
  · simpa only [State.addHandler, Function.update_of_ne hc] using hg

theorem register_loss (h : LossInv s) {i : ℕ} (hok : Noticed s (.register i true))
    (ht : s.register i true = some t) : LossInv t := by
  have hw := h.warmups i
  cases hi : s.warmups i with
  | registering p cache sel done todo live =>
    have hne : s.warmups i ≠ .idle := by rw [hi]; nofun
    rw [hi] at hw
    obtain ⟨hx,hgen,rfl,hkeys,hhand,hdone⟩ := hw
    cases todo with
    | nil => simp [State.register, hi] at ht
    | cons gvr todo =>
      simp only [Noticed, hi] at hok
      simp only [State.register, hi, if_true] at ht
      obtain rfl := Option.some.inj ht
      have hadd : LossInv (s.addHandler 0 gvr) :=
        h.frame h.pending (fun g hg => addHandler_mono s 0 gvr hg) fun q _ hk => addHandler_known s 0 gvr hk
      refine hadd.setWarmup hne ⟨hx,hgen,rfl,hkeys,?_,?_⟩
      · intro g hg
        obtain hmem | hold := hhand g hg
        · obtain rfl | hmem := List.mem_cons.mp hmem
          · exact .inr (by simp only [State.addHandler, Function.update_self])
          · exact .inl hmem
        · exact .inr (addHandler_mono s 0 gvr hold)
      · intro q hq htodo
        by_cases hqg : q.1 = gvr
        · obtain hsame | hsome := hok
          · exact .inl (.inl ((hsame q hq hqg).trans (by rw [hqg]; rfl)))
          · exact .inl (.inr (.inl (Nat.add_pos_right _ (List.length_pos_iff.mpr hsome))))
        · have hold := hdone q hq fun hmem => (List.mem_cons.mp hmem).elim hqg htodo
          exact hold.imp_left (addHandler_known s 0 gvr)
  | _ => simp [State.register, hi] at ht

end Warmups

section Steps

theorem change_loss (h : LossInv s) (cluster : ℕ) (gvr : GVR) (reports : List R) :
    LossInv (s.change cluster gvr reports) := by
  apply h.frame h.pending (fun _ hg => hg)
  intro q hq hk
  by_cases hhand : s.handlers cluster gvr = true
  · refine .inr (.inl ?_)
    simp only [if_pos hhand]
    exact Nat.succ_pos _
  · simp only [if_neg hhand]
    refine hk.imp_left fun hsame => hsame.trans ?_
    by_cases hc : (0 : ℕ) = cluster
    · subst hc
      have hne : q.1 ≠ gvr := fun hg => hhand (hg ▸ hq)
      simp only [Function.update_self, Function.update_of_ne hne]
    · simp only [Function.update_of_ne hc]

theorem schedule_loss (h : LossInv s) : LossInv s.scheduleRebuild := by
  unfold State.scheduleRebuild
  by_cases hp : s.pending = true
  · simp only [if_pos hp]
    exact h.frame h.pending (fun _ hg => hg) fun _ _ _ => .inr (.inr (.inl (h.pending hp)))
  · simp only [if_neg hp]
    exact h.frame (fun _ => Nat.succ_pos _) (fun _ hg => hg)
      fun _ _ _ => .inr (.inr (.inl (Nat.succ_pos _)))

theorem install_loss (h : LossInv s) {i : ℕ} (ht : s.step (.installDynamicCache i) = some t) :
    LossInv t := by
  cases hsw : s.switch with
  | discoveryReset =>
    have hidle : ∀ j, s.warmups j = .idle := by
      intro j
      by_contra hj
      cases hsw.symm.trans (h.begun j hj)
    have hx : s.index = none := by
      cases hx : s.index with
      | none => rfl
      | some idx => cases hsw.symm.trans (h.published (by rw [hx]; rfl))
    simp only [State.step, hsw, hidle i] at ht
    obtain rfl := Option.some.inj ht
    constructor
    · exact h.gen
    · exact .inr rfl
    · exact fun _ => congrArg some h.gen
    · exact fun _ _ => rfl
    · have hone : ∀ j, (s.setWarmup i (.spawned s.warmupGen)).warmups j ≠ .idle → j = i := by
        intro j hj
        by_contra hji
        simp only [State.setWarmup, Function.update_of_ne hji] at hj
        exact hj (hidle j)
      exact fun j k hj hk => (hone j hj).trans (hone k hk).symm
    · exact fun _ => rfl
    · exact h.pending
    · exact h.looping
    · exact h.unique
    · exact h.held
    · exact h.again
    · exact fun j => rebuildOk_unindexed (h.rebuilds j) hx
    · intro j
      by_cases hji : j = i
      · subst hji
        simp only [State.setWarmup, Function.update_self]
        exact hx
      · simp only [State.setWarmup, Function.update_of_ne hji, hidle j]
        trivial
    · exact h.handled
    · exact fun idx hidx => by cases hx.symm.trans hidx
  | _ => simp [State.step, hsw] at ht

theorem step_loss (h : LossInv s) {a : Act R} (hone : OneCluster a) (hok : Noticed s a)
    (ht : s.step a = some t) : LossInv t := by
  cases a with
  | cancelOperations => exact hone.elim
  | resetPolicyReportIndex => exact hone.elim
  | resetDynamicCache => exact hone.elim
  | resetDiscovery => exact hone.elim
  | installDiscovery =>
    simp only [State.step] at ht
    split_ifs at ht
    obtain rfl := Option.some.inj ht
    exact h.aside
  | installDynamicCache i => exact install_loss h ht
  | change cluster gvr reports =>
    obtain rfl := Option.some.inj ht
    exact change_loss h cluster gvr reports
  | scheduleRebuild =>
    simp only [State.step] at ht
    split_ifs at ht
    obtain rfl := Option.some.inj ht
    exact schedule_loss h
  | fire i =>
    cases hi : s.rebuilds i with
    | idle =>
      have hrest : (s.rebuilds i).looping = false := by rw [hi]; rfl
      simp only [State.step, hi] at ht
      split_ifs at ht
      obtain rfl := Option.some.inj ht
      have hreq : Requested { s.setRebuild i Rebuild.requested with
          timers := s.timers-1, pending := false } :=
        .inr (.inr (.inl ⟨i,by simp only [State.setRebuild, Function.update_self]⟩))
      refine h.rebuildStep (fun hp => by cases hp) (fun hr => by cases hr)
        (fun j _ hj => ⟨rfl,h.looping j hj⟩) ?_ h.again trivial (fun _ _ _ _ _ => .inr hreq)
        (fun _ _ _ => .inl (.inr hreq))
      intro hb
      obtain ⟨j,hj⟩ := h.held hb
      exact .inr ⟨j,fun hji => Bool.false_ne_true (hrest.symm.trans (hji ▸ hj)),hj⟩
    | _ => simp [State.step, hi] at ht
  | rebuild i => exact rebuild_loss h hok ht
  | warm i => exact warm_loss h ht
  | discover i kyverno => exact discover_loss h ht
  | select i served probeCount => exact select_loss h ht
  | register i ok =>
    obtain rfl : ok = true := hone
    exact register_loss h hok ht
  | getPolicyReportStatus i =>
    cases hi : s.readers i with
    | idle =>
      simp only [State.step, hi] at ht
      obtain rfl := Option.some.inj ht
      exact h.aside
    | _ => simp [State.step, hi] at ht
  | getKyvernoStatus i =>
    cases hi : s.readers i with
    | idle =>
      cases hx : s.index with
      | none =>
        simp only [State.step, hi, hx] at ht
        obtain rfl := Option.some.inj ht
        exact h.aside
      | some idx =>
        simp only [State.step, hi, hx] at ht
        obtain rfl := Option.some.inj ht
        exact h.aside
    | _ => simp [State.step, hi] at ht
  | read i kyverno =>
    obtain ⟨readers,rfl⟩ : ∃ readers, t = { s with readers := readers } := State.read_only ht
    exact h.aside

end Steps

section Coordinator

/-- One rebuild loops at a time, in every run. -/
structure LoopInv (s : State R) : Prop where
  looping : ∀ i, (s.rebuilds i).looping = true → s.rebuilding = true
  unique : ∀ i j, (s.rebuilds i).looping = true → (s.rebuilds j).looping = true → i = j

theorem LoopInv.same (h : LoopInv s) (hr : t.rebuilds = s.rebuilds) (hb : t.rebuilding = s.rebuilding) :
    LoopInv t := by
  constructor
  · rw [hr, hb]
    exact h.looping
  · rw [hr]
    exact h.unique

/-- A thread that does not loop more than before. -/
theorem LoopInv.setRebuild (h : LoopInv s) {i : ℕ} {r : Rebuild R}
    (hr : r.looping = true → (s.rebuilds i).looping = true) : LoopInv (s.setRebuild i r) := by
  have hold : ∀ j, ((s.setRebuild i r).rebuilds j).looping = true →
      (s.rebuilds j).looping = true := by
    intro j hj
    by_cases hji : j = i
    · subst hji
      exact hr (by simpa only [State.setRebuild, Function.update_self] using hj)
    · simpa only [State.setRebuild, Function.update_of_ne hji] using hj
  exact ⟨fun j hj => h.looping j (hold j hj),fun j k hj hk => h.unique j k (hold j hj) (hold k hk)⟩

/-- The rebuild that takes the flag is the only one. -/
theorem LoopInv.begin (h : LoopInv s) {i : ℕ} (hb : ¬s.rebuilding = true) :
    LoopInv { s.setRebuild i Rebuild.starting with rebuilding := true } := by
  have hone : ∀ j, ((s.setRebuild i .starting).rebuilds j).looping = true → j = i := by
    intro j hj
    by_contra hji
    simp only [State.setRebuild, Function.update_of_ne hji] at hj
    exact hb (h.looping j hj)
  exact ⟨fun _ _ => rfl,fun j k hj hk => (hone j hj).trans (hone k hk).symm⟩

/-- The rebuild that gives the flag back has stopped. -/
theorem LoopInv.end (h : LoopInv s) {i : ℕ} (hi : (s.rebuilds i).looping = true) :
    LoopInv { s.setRebuild i Rebuild.idle with rebuilding := false } := by
  have hnone : ∀ j, ((s.setRebuild i .idle).rebuilds j).looping = true → False := by
    intro j hj
    by_cases hji : j = i
    · subst hji
      simp only [State.setRebuild, Function.update_self] at hj
      cases hj
    · simp only [State.setRebuild, Function.update_of_ne hji] at hj
      exact hji (h.unique j i hj hi)
  exact ⟨fun j hj => (hnone j hj).elim,fun j _ hj => (hnone j hj).elim⟩

theorem rebuild_loop (h : LoopInv s) {i : ℕ} (ht : s.rebuild i = some t) : LoopInv t := by
  cases hi : s.rebuilds i with
  | idle => simp [State.rebuild, hi] at ht
  | requested =>
    simp only [State.rebuild, hi] at ht
    split_ifs at ht with hb
    · obtain rfl := Option.some.inj ht
      exact (h.setRebuild (r := .idle) fun hr => by cases hr).same rfl rfl
    · obtain rfl := Option.some.inj ht
      exact h.begin hb
  | judging =>
    simp only [State.rebuild, hi] at ht
    split_ifs at ht
    · obtain rfl := Option.some.inj ht
      exact h.setRebuild fun _ => by rw [hi]; rfl
    · obtain rfl := Option.some.inj ht
      exact h.end (by rw [hi]; rfl)
  | sleeping =>
    simp only [State.rebuild, hi] at ht
    obtain rfl := Option.some.inj ht
    exact (h.setRebuild (r := .starting) fun _ => by rw [hi]; rfl).same rfl rfl
  | starting =>
    cases hx : s.index <;> simp only [State.rebuild, hi, hx] at ht <;>
    · obtain rfl := Option.some.inj ht
      exact h.setRebuild fun _ => by rw [hi]; rfl
  | captured gen idx gvrs =>
    cases hc : s.dynamicCache <;> simp only [State.rebuild, hi, hc] at ht <;>
    · obtain rfl := Option.some.inj ht
      exact h.setRebuild fun _ => by rw [hi]; rfl
  | listing gen idx cache done todo =>
    cases todo <;> simp only [State.rebuild, hi] at ht <;>
    · obtain rfl := Option.some.inj ht
      exact h.setRebuild fun _ => by rw [hi]; rfl
  | built gen idx sources done =>
    simp only [State.rebuild, hi] at ht
    split_ifs at ht <;>
    · obtain rfl := Option.some.inj ht
      exact (h.setRebuild (r := .judging) fun _ => by rw [hi]; rfl).same rfl rfl

theorem setStatus_rebuilds (p : Pass) (status : PolicyReportStatus) :
    (s.setStatus p status).rebuilds = s.rebuilds ∧ (s.setStatus p status).rebuilding = s.rebuilding := by
  unfold State.setStatus
  split_ifs <;> exact ⟨rfl,rfl⟩

theorem publishReady_rebuilds (p : Pass) (sel : ReportSelection) (done : Listed R) (live : Bool) :
    (s.publishReady p sel done live).rebuilds = s.rebuilds ∧
      (s.publishReady p sel done live).rebuilding = s.rebuilding := by
  unfold State.publishReady
  split_ifs <;> exact ⟨rfl,rfl⟩

/-- A warm-up leaves the coordinator alone. -/
theorem warm_rebuilds {i : ℕ} (ht : s.warm i = some t) :
    t.rebuilds = s.rebuilds ∧ t.rebuilding = s.rebuilding := by
  cases hi : s.warmups i with
  | gated cluster ctx =>
    simp only [State.warm, hi] at ht
    split_ifs at ht <;> exact Option.some.inj ht ▸ ⟨rfl,rfl⟩
  | entered cluster p =>
    cases ho : s.onces p.once <;> simp only [State.warm, hi, ho] at ht
    · exact Option.some.inj ht ▸ ⟨rfl,rfl⟩
    · split_ifs at ht
      exact Option.some.inj ht ▸ ⟨rfl,rfl⟩
  | caching p =>
    cases hc : s.dynamicCache <;> simp only [State.warm, hi, hc] at ht <;>
      exact Option.some.inj ht ▸ ⟨rfl,rfl⟩
  | warmed p cache sel =>
    cases hc : s.dynamicCache <;> simp only [State.warm, hi, hc] at ht <;>
      exact Option.some.inj ht ▸ ⟨rfl,rfl⟩
  | listing p cache sel listed done todo =>
    cases todo <;> simp only [State.warm, hi] at ht <;> exact Option.some.inj ht ▸ ⟨rfl,rfl⟩
  | registering p cache sel done todo live =>
    cases todo with
    | nil =>
      simp only [State.warm, hi] at ht
      exact Option.some.inj ht ▸ publishReady_rebuilds p sel done live
    | cons gvr todo => simp [State.warm, hi] at ht
  | recording p status =>
    simp only [State.warm, hi] at ht
    exact Option.some.inj ht ▸ setStatus_rebuilds p status
  | spawned cluster =>
    simp only [State.warm, hi] at ht
    exact Option.some.inj ht ▸ ⟨rfl,rfl⟩
  | checked cluster =>
    simp only [State.warm, hi] at ht
    exact Option.some.inj ht ▸ ⟨rfl,rfl⟩
  | _ => simp [State.warm, hi] at ht

/-- Every step but those of a rebuild leaves the coordinator alone. -/
theorem step_rebuilds {a : Act R} (hf : ∀ i, a ≠ .fire i) (hb : ∀ i, a ≠ .rebuild i)
    (ht : s.step a = some t) : t.rebuilds = s.rebuilds ∧ t.rebuilding = s.rebuilding := by
  cases a with
  | fire i => exact absurd rfl (hf i)
  | rebuild i => exact absurd rfl (hb i)
  | warm i => exact warm_rebuilds ht
  | change cluster gvr reports => exact Option.some.inj ht ▸ ⟨rfl,rfl⟩
  | scheduleRebuild =>
    simp only [State.step, State.scheduleRebuild] at ht
    split_ifs at ht <;> exact Option.some.inj ht ▸ ⟨rfl,rfl⟩
  | installDynamicCache i =>
    simp only [State.step] at ht
    split at ht
    · exact Option.some.inj ht ▸ ⟨rfl,rfl⟩
    · cases ht
  | discover i kyverno =>
    simp only [State.step, State.discover] at ht
    split at ht
    · split at ht
      · exact Option.some.inj ht ▸ ⟨rfl,rfl⟩
      · split_ifs at ht <;> exact Option.some.inj ht ▸ ⟨rfl,rfl⟩
    · cases ht
  | select i served probeCount =>
    simp only [State.step, State.select] at ht
    split at ht
    · split_ifs at ht <;> exact Option.some.inj ht ▸ ⟨rfl,rfl⟩
    · cases ht
  | register i ok =>
    simp only [State.step, State.register] at ht
    split at ht
    · split_ifs at ht <;> exact Option.some.inj ht ▸ ⟨rfl,rfl⟩
    · cases ht
  | getPolicyReportStatus i =>
    simp only [State.step] at ht
    split at ht
    · exact Option.some.inj ht ▸ ⟨rfl,rfl⟩
    · cases ht
  | getKyvernoStatus i =>
    simp only [State.step] at ht
    split at ht
    · split at ht <;> exact Option.some.inj ht ▸ ⟨rfl,rfl⟩
    · cases ht
  | read i kyverno =>
    obtain ⟨readers,rfl⟩ : ∃ readers, t = { s with readers := readers } := State.read_only ht
    exact ⟨rfl,rfl⟩
  | _ =>
    simp only [State.step] at ht
    split_ifs at ht
    exact Option.some.inj ht ▸ ⟨rfl,rfl⟩

theorem step_loop (h : LoopInv s) {a : Act R} (ht : s.step a = some t) : LoopInv t := by
  cases a with
  | fire i =>
    simp only [State.step] at ht
    split at ht
    · split_ifs at ht
      obtain rfl := Option.some.inj ht
      exact (h.setRebuild (r := .requested) fun hr => by cases hr).same rfl rfl
    · cases ht
  | rebuild i => exact rebuild_loop h ht
  | _ =>
    obtain ⟨hr,hb⟩ := step_rebuilds (by simp) (by simp) ht
    exact h.same hr hb

end Coordinator

section Runs

theorem booted_loop (store : ℕ → GVR → List R) : LoopInv { store := store } :=
  ⟨fun _ hi => (by cases hi),fun _ _ hi => by cases hi⟩

theorem booted_loss (store : ℕ → GVR → List R) : LossInv { store := store } where
  gen := rfl
  switch := .inl rfl
  installed hsw := by cases hsw
  begun _ hi := absurd rfl hi
  single _ _ hi := absurd rfl hi
  published hx := by cases hx
  pending hp := by cases hp
  looping _ hi := by cases hi
  unique _ _ hi := by cases hi
  held hb := by cases hb
  again ha := by cases ha
  rebuilds _ := trivial
  warmups _ := trivial
  handled _ hg := by cases hg
  index _ hx := by cases hx

theorem not_requested (h : LossInv s) (hq : Quiet s) : ¬Requested s := by
  obtain ⟨hn,ht,hidle,-⟩ := hq
  rintro (hn' | ht' | ⟨i,hi⟩ | ha)
  · exact absurd hn' (by omega)
  · exact absurd ht' (by omega)
  · cases (hidle i).symm.trans hi
  · obtain ⟨i,hi⟩ := h.held (h.again ha)
    rw [hidle i] at hi
    cases hi

theorem LossInv.upToDate {X : Type} (buildIndex : List R → X) (h : LossInv s) (hq : Quiet s) :
    UpToDate buildIndex s := by
  intro idx hx
  refine ⟨0,h.installed (h.published (by rw [hx]; rfl)),?_⟩
  have hsame : ∀ q ∈ idx.reports, q.2 = s.store 0 q.1 := by
    intro q hmem
    obtain (hsame | hreq) | ⟨i,hi⟩ := (h.index idx hx).fresh q hmem
    · exact hsame
    · exact absurd hreq (not_requested h hq)
    · rw [hq.2.2.1 i] at hi
      cases hi
  have hkeys := (h.index idx hx).keys
  rw [Index.content, ← hkeys, List.flatMap_map]
  exact congrArg buildIndex (List.flatMap_congr hsame)

/-- Within one cluster one rebuild runs at a time, and when nothing is on its way the index is up to
date, if every change is noticed. -/
theorem no_change_lost {X : Type} (buildIndex : List R → X) {store : ℕ → GVR → List R}
    {as : List (Act R)} (hone : ∀ a ∈ as, OneCluster a)
    (hr : run State.step { store := store } as = some s) :
    (∀ i j, (s.rebuilds i).running = true → (s.rebuilds j).running = true → i = j) ∧
      (Meets State.step Noticed { store := store } as → Quiet s → UpToDate buildIndex s) := by
  constructor
  · have h := run_invariant (fun _ _ _ h ht => step_loop h ht) (booted_loop store) hr
    exact fun i j hi hj => h.unique i j (looping_of_running hi) (looping_of_running hj)
  · intro hm hq
    have h := meets_invariant (fun _ _ _ h hok ht => step_loss h hok.1 hok.2 ht) (booted_loss store)
      (meets_and hone hm) hr
    exact h.upToDate buildIndex hq

/-- A warm-up up to its list. -/
def toTheList : List (Act ℕ) :=
  [.installDiscovery,.installDynamicCache 0,.warm 0,.warm 0,.warm 0,.warm 0,.discover 0 true,.warm 0,
    .select 0 onlyPolicyReports fun _ => 1,.warm 0,.warm 0,.warm 0]

def policyReports : GVR := "wgpolicyk8s.io/v1alpha2/policyreports"

/-- The handler is told of the report there is, a second one comes later, and one rebuild sees both. -/
def noticedRun : List (Act ℕ) :=
  toTheList++[Act.register 0 true,.scheduleRebuild,.warm 0,.change 0 policyReports [7,8],.scheduleRebuild,
    .fire 0,.rebuild 0,.rebuild 0,.rebuild 0,.rebuild 0,.rebuild 0,.rebuild 0,.rebuild 0]

theorem no_change_lost_noticed : ∃ s : State ℕ,
    run State.step { store := fun _ _ => [7] } noticedRun = some s ∧
      s.index.map Index.reports = some [(policyReports,[7,8])] ∧ UpToDate id s := by
  have hone : ∀ a ∈ noticedRun, OneCluster a := by
    simp [noticedRun, toTheList, OneCluster]
  have hm : Meets State.step Noticed { store := fun _ _ => [7] } noticedRun := by
    refine meets_cons trivial rfl (meets_cons trivial rfl (meets_cons trivial rfl ?_))
    refine meets_cons trivial rfl (meets_cons trivial rfl (meets_cons trivial rfl ?_))
    refine meets_cons trivial rfl (meets_cons trivial rfl (meets_cons trivial rfl ?_))
    refine meets_cons trivial rfl (meets_cons trivial rfl (meets_cons trivial rfl ?_))
    refine meets_cons (.inr nofun) rfl (meets_cons trivial rfl (meets_cons trivial rfl ?_))
    refine meets_cons trivial rfl (meets_cons trivial rfl (meets_cons trivial rfl ?_))
    refine meets_cons trivial rfl (meets_cons nofun rfl (meets_cons trivial rfl ?_))
    refine meets_cons trivial rfl (meets_cons trivial rfl (meets_cons trivial rfl ?_))
    exact meets_cons trivial rfl trivial
  have hr : ∃ s : State ℕ, run State.step { store := fun _ _ => [7] } noticedRun = some s ∧
      s.index.map Index.reports = some [(policyReports,[7,8])] ∧ s.notified = 0 ∧ s.timers = 0 ∧
      (∀ i, s.rebuilds i = .idle) ∧ ∀ i, s.warmups i = .idle ∨ s.warmups i = .returned := by
    refine ⟨_,rfl,rfl,rfl,rfl,fun i => ?_,fun i => ?_⟩
    · cases i <;> rfl
    · cases i
      · exact .inr rfl
      · exact .inl rfl
  obtain ⟨s,hs,hx,hquiet⟩ := hr
  exact ⟨s,hs,hx,(no_change_lost id hone hs).2 hm hquiet⟩

/-- The last report is deleted after the list and before the handler is there. -/
def deletedUnnoticed : List (Act ℕ) :=
  toTheList++[Act.change 0 policyReports [],.register 0 true,.warm 0]

/-- A report comes while the handler is there, and its rebuild is over before the index is. -/
def rebuiltTooEarly : List (Act ℕ) :=
  toTheList++[Act.register 0 true,.change 0 policyReports [7,8],.scheduleRebuild,.scheduleRebuild,.fire 0,
    .rebuild 0,.rebuild 0,.rebuild 0,.warm 0]

theorem change_lost_in_warmup : [deletedUnnoticed,rebuiltTooEarly].Forall fun as => ∃ s : State ℕ,
    run State.step { store := fun _ _ => [7] } as = some s ∧ (∀ a ∈ as, OneCluster a) ∧ Quiet s ∧
      ¬UpToDate id s := by
  have hquiet : ∀ {s : State ℕ}, s.notified = 0 → s.timers = 0 → (∀ i, s.rebuilds i = .idle) →
      (∀ i, s.warmups i = .idle ∨ s.warmups i = .returned) → Quiet s :=
    fun hn ht hb hw => ⟨hn,ht,hb,hw⟩
  refine List.forall_iff_forall_mem.mpr fun as has => ?_
  obtain rfl | has := List.mem_cons.mp has
  · refine ⟨_,rfl,by simp [deletedUnnoticed, toTheList, OneCluster],
      hquiet rfl rfl (fun i => ?_) (fun i => ?_),fun h => ?_⟩
    · cases i <;> rfl
    · cases i
      · exact .inr rfl
      · exact .inl rfl
    · obtain ⟨cache,hc,heq⟩ := h _ rfl
      obtain rfl := Option.some.inj hc
      exact absurd heq (by decide)
  · obtain rfl := List.mem_singleton.mp has
    refine ⟨_,rfl,by simp [rebuiltTooEarly, toTheList, OneCluster],
      hquiet rfl rfl (fun i => ?_) (fun i => ?_),fun h => ?_⟩
    · cases i <;> rfl
    · cases i
      · exact .inr rfl
      · exact .inl rfl
    · obtain ⟨cache,hc,heq⟩ := h _ rfl
      obtain rfl := Option.some.inj hc
      exact absurd heq (by decide)

end Runs

end Radar.Policy
