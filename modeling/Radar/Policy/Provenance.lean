import Mathlib.Order.Lattice.Nat
import Mathlib.Tactic.SplitIfs
import Radar.Policy.Reports

/-!
# Where a published index comes from

Everything that is published while a generation lasts was computed from the
caches installed in it, if every warm-up takes its generation while its own
cluster is still the active one, and a status is not read from discovery
between the reset of the index and that of discovery.
-/

set_option autoImplicit false

namespace Radar.Policy

open Radar.Run

variable {R : Type} {s t : State R}

/-- Nothing published is from another cluster than the active one. -/
def Published (s : State R) : Prop :=
  (∀ idx, s.index = some idx → ∀ c ∈ idx.sources, c = s.warmupGen) ∧
    ∀ d, s.decision = some d → ∀ c ∈ d.sources, c = s.warmupGen

/-- Nothing returned is from a cluster left before the call. -/
def Returned (s : State R) : Prop :=
  ∀ i since status sources, s.readers i = .returned since status sources → ∀ c ∈ sources, since ≤ c

/-- The once of a generation is only run for the cluster of that generation. -/
def OwnOnce (s : State R) : Prop := ∀ once o, s.onces once = some o → o.cluster = once

/-- A warm-up takes its generation while its cluster is the active one, and an undecided status is
not read from the discovery of another cluster. -/
def Current (s : State R) : Act R → Prop
  | .warm i =>
    match s.warmups i with
    | .checked cluster => cluster = s.warmupGen
    | _ => True
  | .read i _ =>
    match s.readers i with
    | .undecided _ => ∀ d, s.discovery = some d → d = s.warmupGen
    | _ => True
  | _ => True

def Warmup.sequence : Warmup R → Option ℕ
  | .spawned cluster => some cluster
  | .gated cluster _ => some cluster
  | .checked cluster => some cluster
  | _ => none

def Warmup.pass : Warmup R → Option Pass
  | .entered _ p => some p
  | .discovering p => some p
  | .caching p => some p
  | .selecting p _ => some p
  | .warmed p _ _ => some p
  | .listing p _ _ _ _ _ => some p
  | .registering p _ _ _ _ _ => some p
  | .recording p _ => some p
  | _ => none

/-- The cluster whose once the warm-up is about to run. -/
def Warmup.entering : Warmup R → Option (ℕ × Pass)
  | .entered cluster p => some (cluster,p)
  | _ => none

/-- The generation a rebuild has captured, and what it has read from. -/
def Rebuild.reading : Rebuild R → Option (ℕ × List ℕ)
  | .captured gen idx _ => some (gen,idx.sources)
  | .listing gen idx cache _ _ => some (gen,cache::idx.sources)
  | .built gen _ sources _ => some (gen,sources)
  | _ => none

def Reader.seen : Reader → Option (ℕ × List ℕ)
  | .idle => none
  | .sampled since reason => some (since,(reason.map Decision.sources).getD [])
  | .rereading since sources => some (since,sources)
  | .undecided since => some (since,[])
  | .deciding since => some (since,[])
  | .returned since _ sources => some (since,sources)

/-- The caches of the cluster that is being left are gone. -/
def Clean (s : State R) : Prop := s.switch ≠ .indexReset ∧ s.switch ≠ .dynamicReset

/-- What was captured in generation `gen` and read from `sources` may be published while that
generation lasts. -/
def Fit (s : State R) (gen : ℕ) (sources : List ℕ) : Prop :=
  gen ≤ s.warmupGen ∧ (gen = s.warmupGen → Clean s ∧ ∀ c ∈ sources, c = s.warmupGen)

structure ProvInv (s : State R) : Prop where
  init : s.init = s.warmupGen
  dynamicCache : s.switch ≠ .indexReset → ∀ c, s.dynamicCache = some c → c = s.warmupGen
  discovery : Clean s → ∀ d, s.discovery = some d → d = s.warmupGen
  sequences : ∀ i c, (s.warmups i).sequence = some c → c ≤ s.warmupGen ∧ (c = s.warmupGen → Clean s)
  entering : ∀ i c p, (s.warmups i).entering = some (c,p) → p.once = c
  passes : ∀ i p, (s.warmups i).pass = some p → Fit s p.gen p.sources
  index : ∀ idx, s.index = some idx → Clean s ∧ ∀ c ∈ idx.sources, c = s.warmupGen
  decision : ∀ d, s.decision = some d → ∀ c ∈ d.sources, c = s.warmupGen
  rebuilds : ∀ i gen sources, (s.rebuilds i).reading = some (gen,sources) → Fit s gen sources
  readers : ∀ i since sources, (s.readers i).seen = some (since,sources) →
    since ≤ s.warmupGen ∧ ∀ c ∈ sources, since ≤ c
  onces : OwnOnce s

section Threads

theorem ProvInv.setWarmup (h : ProvInv s) (i : ℕ) {w : Warmup R}
    (hs : ∀ c, w.sequence = some c → c ≤ s.warmupGen ∧ (c = s.warmupGen → Clean s))
    (he : ∀ c p, w.entering = some (c,p) → p.once = c)
    (hp : ∀ p, w.pass = some p → Fit s p.gen p.sources) : ProvInv (s.setWarmup i w) where
  init := h.init
  dynamicCache := h.dynamicCache
  discovery := h.discovery
  sequences := by
    intro j c hj
    by_cases hji : j = i
    · subst hji
      exact hs c (by simpa only [State.setWarmup, Function.update_self] using hj)
    · exact h.sequences j c (by simpa only [State.setWarmup, Function.update_of_ne hji] using hj)
  entering := by
    intro j c p hj
    by_cases hji : j = i
    · subst hji
      exact he c p (by simpa only [State.setWarmup, Function.update_self] using hj)
    · exact h.entering j c p (by simpa only [State.setWarmup, Function.update_of_ne hji] using hj)
  passes := by
    intro j p hj
    by_cases hji : j = i
    · subst hji
      exact hp p (by simpa only [State.setWarmup, Function.update_self] using hj)
    · exact h.passes j p (by simpa only [State.setWarmup, Function.update_of_ne hji] using hj)
  index := h.index
  decision := h.decision
  rebuilds := h.rebuilds
  readers := h.readers
  onces := h.onces

/-- A step of a warm-up that keeps its generation and reads from `sources`. -/
theorem ProvInv.goOn (h : ProvInv s) (i : ℕ) {w : Warmup R} {p : Pass} (hs : w.sequence = none)
    (he : w.entering = none) (hw : w.pass = some p) (hp : Fit s p.gen p.sources) :
    ProvInv (s.setWarmup i w) :=
  h.setWarmup i (fun _ hc => by cases hs.symm.trans hc) (fun _ _ hc => by cases he.symm.trans hc)
    fun _ hq => Option.some.inj (hw.symm.trans hq) ▸ hp

theorem ProvInv.returned (h : ProvInv s) (i : ℕ) : ProvInv (s.setWarmup i .returned) :=
  h.setWarmup i (fun _ hc => nomatch hc) (fun _ _ hc => nomatch hc) (fun _ hp => nomatch hp)

theorem ProvInv.setRebuild (h : ProvInv s) (i : ℕ) {r : Rebuild R}
    (hr : ∀ gen sources, r.reading = some (gen,sources) → Fit s gen sources) :
    ProvInv (s.setRebuild i r) where
  init := h.init
  dynamicCache := h.dynamicCache
  discovery := h.discovery
  sequences := h.sequences
  entering := h.entering
  passes := h.passes
  index := h.index
  decision := h.decision
  rebuilds := by
    intro j gen sources hj
    by_cases hji : j = i
    · subst hji
      exact hr gen sources (by simpa only [State.setRebuild, Function.update_self] using hj)
    · exact h.rebuilds j gen sources
        (by simpa only [State.setRebuild, Function.update_of_ne hji] using hj)
  readers := h.readers
  onces := h.onces

theorem ProvInv.setReader (h : ProvInv s) (i : ℕ) {r : Reader}
    (hr : ∀ since sources, r.seen = some (since,sources) →
      since ≤ s.warmupGen ∧ ∀ c ∈ sources, since ≤ c) : ProvInv (s.setReader i r) where
  init := h.init
  dynamicCache := h.dynamicCache
  discovery := h.discovery
  sequences := h.sequences
  entering := h.entering
  passes := h.passes
  index := h.index
  decision := h.decision
  rebuilds := h.rebuilds
  readers := by
    intro j since sources hj
    by_cases hji : j = i
    · subst hji
      exact hr since sources (by simpa only [State.setReader, Function.update_self] using hj)
    · exact h.readers j since sources
        (by simpa only [State.setReader, Function.update_of_ne hji] using hj)
  onces := h.onces

theorem Fit.read {gen cache : ℕ} {sources : List ℕ} (h : Fit s gen sources)
    (hc : gen = s.warmupGen → Clean s → cache = s.warmupGen) : Fit s gen (cache::sources) := by
  refine ⟨h.1,fun hgen => ⟨(h.2 hgen).1,?_⟩⟩
  exact List.forall_mem_cons.mpr ⟨hc hgen (h.2 hgen).1,(h.2 hgen).2⟩

end Threads

section Switches

/-- A step of a switch within a generation. -/
theorem ProvInv.caches (h : ProvInv s) {sw : Switch} {op : ℕ} {dc d : Option ℕ}
    (hclean : Clean s → sw ≠ .indexReset ∧ sw ≠ .dynamicReset)
    (hdc : sw ≠ .indexReset → ∀ c, dc = some c → c = s.warmupGen)
    (hd : sw ≠ .indexReset ∧ sw ≠ .dynamicReset → ∀ c, d = some c → c = s.warmupGen) :
    ProvInv { s with switch := sw, operation := op, dynamicCache := dc, discovery := d } where
  init := h.init
  dynamicCache := hdc
  discovery := hd
  sequences i c hc := ⟨(h.sequences i c hc).1,fun hg => hclean ((h.sequences i c hc).2 hg)⟩
  entering := h.entering
  passes i p hp :=
    ⟨(h.passes i p hp).1,fun hg => ⟨hclean ((h.passes i p hp).2 hg).1,((h.passes i p hp).2 hg).2⟩⟩
  index idx hi := ⟨hclean (h.index idx hi).1,(h.index idx hi).2⟩
  decision := h.decision
  rebuilds i gen sources hr :=
    ⟨(h.rebuilds i gen sources hr).1,fun hg =>
      ⟨hclean ((h.rebuilds i gen sources hr).2 hg).1,((h.rebuilds i gen sources hr).2 hg).2⟩⟩
  readers := h.readers
  onces := h.onces

/-- What was captured before the reset is not of the new generation. -/
theorem reset_index_prov (h : ProvInv s) : ProvInv s.resetPolicyReportIndex := by
  have hlate : ∀ {gen : ℕ}, gen ≤ s.warmupGen → gen ≤ s.warmupGen+1 ∧ gen ≠ s.warmupGen+1 :=
    fun hgen => ⟨Nat.le_succ_of_le hgen,Nat.ne_of_lt (Nat.lt_succ_of_le hgen)⟩
  refine ⟨rfl,fun hsw => absurd rfl hsw,fun hc => absurd rfl hc.1,?_,h.entering,?_,
    (fun _ hi => nomatch hi),(fun _ hd => nomatch hd),?_,?_,h.onces⟩
  · intro i c hc
    obtain ⟨hle,hne⟩ := hlate (h.sequences i c hc).1
    exact ⟨hle,fun heq => absurd heq hne⟩
  · intro i p hp
    obtain ⟨hle,hne⟩ := hlate (h.passes i p hp).1
    exact ⟨hle,fun heq => absurd heq hne⟩
  · intro i gen sources hr
    obtain ⟨hle,hne⟩ := hlate (h.rebuilds i gen sources hr).1
    exact ⟨hle,fun heq => absurd heq hne⟩
  · intro i since sources hr
    obtain ⟨hle,hall⟩ := h.readers i since sources hr
    exact ⟨Nat.le_succ_of_le hle,hall⟩

theorem switch_prov (h : ProvInv s) {a : Act R}
    (ha : a = .cancelOperations ∨ a = .resetPolicyReportIndex ∨ a = .resetDynamicCache ∨
      a = .resetDiscovery ∨ a = .installDiscovery) (ht : s.step a = some t) : ProvInv t := by
  rcases ha with rfl | rfl | rfl | rfl | rfl
  · simp only [State.step] at ht
    split_ifs at ht with hsw
    obtain rfl := Option.some.inj ht
    have hclean : Clean s := by
      rcases hsw with hsw | hsw <;> simp [Clean, hsw]
    exact h.caches (fun _ => by simp) (fun _ => h.dynamicCache hclean.1) fun _ => h.discovery hclean
  · simp only [State.step] at ht
    split_ifs at ht
    obtain rfl := Option.some.inj ht
    exact reset_index_prov h
  · simp only [State.step] at ht
    split_ifs at ht with hsw
    obtain rfl := Option.some.inj ht
    exact h.caches (fun hclean => absurd hsw hclean.1) (fun _ _ hc => by cases hc)
      fun hsw => absurd rfl hsw.2
  · simp only [State.step] at ht
    split_ifs at ht with hsw
    obtain rfl := Option.some.inj ht
    exact h.caches (fun _ => by simp) (fun _ => h.dynamicCache (by simp [hsw])) (fun _ _ hc => by cases hc)
  · simp only [State.step] at ht
    split_ifs at ht with hsw
    obtain rfl := Option.some.inj ht
    have hclean : Clean s := by
      rcases hsw with hsw | hsw <;> simp [Clean, hsw]
    exact h.caches (fun hc => hc) h.dynamicCache fun _ c hc => (Option.some.inj hc).symm

/-- The caches of this generation are installed, and a sequence begins. -/
theorem install_prov (h : ProvInv s) {i : ℕ} (ht : s.step (.installDynamicCache i) = some t) :
    ProvInv t := by
  cases hsw : s.switch with
  | discoveryReset =>
    cases hi : s.warmups i with
    | idle =>
      simp only [State.step, hsw, hi] at ht
      obtain rfl := Option.some.inj ht
      have hclean : Clean s := by simp [Clean, hsw]
      have hspawned : ProvInv (s.setWarmup i (.spawned s.warmupGen)) := by
        apply h.setWarmup i
        · intro c hc
          exact ⟨(Option.some.inj hc) ▸ le_rfl,fun _ => hclean⟩
        · exact fun _ _ hc => nomatch hc
        · exact fun _ hp => nomatch hp
      exact hspawned.caches (fun _ => by simp) (fun _ c hc => (Option.some.inj hc).symm)
        fun _ => h.discovery hclean
    | _ => simp [State.step, hsw, hi] at ht
  | _ => simp [State.step, hsw] at ht

end Switches

section Warming

theorem setStatus_prov (h : ProvInv s) {p : Pass} (hp : Fit s p.gen p.sources)
    (status : PolicyReportStatus) : ProvInv (s.setStatus p status) := by
  unfold State.setStatus
  split_ifs with hgen
  · exact h
  · exact ⟨h.init,h.dynamicCache,h.discovery,h.sequences,h.entering,h.passes,h.index,
      fun d hd => Option.some.inj hd ▸ (hp.2 (not_not.mp hgen).symm).2,h.rebuilds,h.readers,h.onces⟩

theorem publishReady_prov (h : ProvInv s) {p : Pass} (hp : Fit s p.gen p.sources)
    (sel : ReportSelection) (done : Listed R) (live : Bool) :
    ProvInv (s.publishReady p sel done live) := by
  unfold State.publishReady
  split_ifs with hgen
  · exact h
  · have hfit := hp.2 (not_not.mp hgen).symm
    exact ⟨h.init,h.dynamicCache,h.discovery,h.sequences,h.entering,h.passes,
      fun idx hi => Option.some.inj hi ▸ hfit,fun d hd => Option.some.inj hd ▸ hfit.2,
      h.rebuilds,h.readers,h.onces⟩

theorem onces_prov (h : ProvInv s) {onces : ℕ → Option OnceRun}
    (ho : ∀ once o, onces once = some o → o.cluster = once) : ProvInv { s with onces := onces } :=
  ⟨h.init,h.dynamicCache,h.discovery,h.sequences,h.entering,h.passes,h.index,h.decision,h.rebuilds,
    h.readers,ho⟩

theorem returnOnce_prov (h : ProvInv s) (i once : ℕ) : ProvInv (s.returnOnce i once) := by
  apply onces_prov (h.returned i)
  intro once' o ho
  by_cases hon : once' = once
  · subst hon
    rw [Function.update_self] at ho
    obtain ⟨o',ho',rfl⟩ := Option.map_eq_some_iff.mp ho
    exact h.onces once' o' ho'
  · rw [Function.update_of_ne hon] at ho
    exact h.onces once' o ho

theorem warm_prov (h : ProvInv s) {i : ℕ} (hok : Current s (.warm i)) (ht : s.warm i = some t) :
    ProvInv t := by
  have hpass : ∀ {p : Pass}, (s.warmups i).pass = some p → Fit s p.gen p.sources :=
    fun hp => h.passes i _ hp
  cases hi : s.warmups i with
  | spawned cluster =>
    simp only [State.warm, hi] at ht
    obtain rfl := Option.some.inj ht
    exact h.setWarmup i (fun c hc => h.sequences i c (by rw [hi]; exact hc))
      (fun _ _ hc => nomatch hc) (fun _ hp => nomatch hp)
  | gated cluster ctx =>
    simp only [State.warm, hi] at ht
    split_ifs at ht
    · obtain rfl := Option.some.inj ht
      exact h.setWarmup i (fun c hc => h.sequences i c (by rw [hi]; exact hc))
        (fun _ _ hc => nomatch hc) (fun _ hp => nomatch hp)
    · obtain rfl := Option.some.inj ht
      exact h.returned i
  | checked cluster =>
    simp only [State.warm, hi] at ht
    simp only [Current, hi] at hok
    obtain rfl := Option.some.inj ht
    have hclean : Clean s := (h.sequences i cluster (by rw [hi]; rfl)).2 hok
    apply h.setWarmup i
    · exact fun _ hc => nomatch hc
    · intro c p hc
      obtain ⟨rfl,rfl⟩ := Prod.mk.inj (Option.some.inj hc)
      exact h.init.trans hok.symm
    · intro p hp
      obtain rfl := Option.some.inj hp
      exact ⟨le_rfl,fun _ => ⟨hclean,fun _ hc => nomatch hc⟩⟩
  | entered cluster p =>
    have honce : p.once = cluster := h.entering i cluster p (by rw [hi]; rfl)
    cases ho : s.onces p.once with
    | none =>
      simp only [State.warm, hi, ho] at ht
      obtain rfl := Option.some.inj ht
      have hgo : ProvInv (s.setWarmup i (.discovering p)) :=
        h.goOn i rfl rfl rfl (hpass (by rw [hi]; rfl))
      apply onces_prov hgo
      intro once' o ho'
      by_cases hon : once' = p.once
      · subst hon
        rw [Function.update_self] at ho'
        obtain rfl := Option.some.inj ho'
        exact honce.symm
      · rw [Function.update_of_ne hon] at ho'
        exact h.onces once' o ho'
    | some o =>
      simp only [State.warm, hi, ho] at ht
      split_ifs at ht
      obtain rfl := Option.some.inj ht
      exact h.returned i
  | caching p =>
    have hp : Fit s p.gen p.sources := hpass (by rw [hi]; rfl)
    cases hc : s.dynamicCache with
    | none =>
      simp only [State.warm, hi, hc] at ht
      obtain rfl := Option.some.inj ht
      exact h.goOn i rfl rfl rfl hp
    | some cache =>
      simp only [State.warm, hi, hc] at ht
      obtain rfl := Option.some.inj ht
      exact h.goOn i rfl rfl rfl (hp.read fun _ hclean => h.dynamicCache hclean.1 cache hc)
  | warmed p cache sel =>
    have hp : Fit s p.gen p.sources := hpass (by rw [hi]; rfl)
    cases hc : s.dynamicCache with
    | none =>
      simp only [State.warm, hi, hc] at ht
      obtain rfl := Option.some.inj ht
      exact h.goOn i rfl rfl rfl hp
    | some listed =>
      simp only [State.warm, hi, hc] at ht
      obtain rfl := Option.some.inj ht
      exact h.goOn i rfl rfl rfl (hp.read fun _ hclean => h.dynamicCache hclean.1 listed hc)
  | listing p cache sel listed done todo =>
    have hp : Fit s p.gen p.sources := hpass (by rw [hi]; rfl)
    cases todo with
    | nil =>
      simp only [State.warm, hi] at ht
      obtain rfl := Option.some.inj ht
      exact h.goOn i rfl rfl rfl hp
    | cons gvr todo =>
      simp only [State.warm, hi] at ht
      obtain rfl := Option.some.inj ht
      exact h.goOn i rfl rfl rfl hp
  | registering p cache sel done todo live =>
    cases todo with
    | nil =>
      simp only [State.warm, hi] at ht
      obtain rfl := Option.some.inj ht
      exact returnOnce_prov (publishReady_prov h (hpass (by rw [hi]; rfl)) sel done live) i p.once
    | cons gvr todo => simp [State.warm, hi] at ht
  | recording p status =>
    simp only [State.warm, hi] at ht
    obtain rfl := Option.some.inj ht
    exact returnOnce_prov (setStatus_prov h (hpass (by rw [hi]; rfl)) status) i p.once
  | idle => simp [State.warm, hi] at ht
  | discovering p => simp [State.warm, hi] at ht
  | selecting p cache => simp [State.warm, hi] at ht
  | returned => simp [State.warm, hi] at ht

theorem discover_prov (h : ProvInv s) {i : ℕ} {kyverno : Bool}
    (ht : s.discover i kyverno = some t) : ProvInv t := by
  cases hi : s.warmups i with
  | discovering p =>
    have hp : Fit s p.gen p.sources := h.passes i p (by rw [hi]; rfl)
    cases hd : s.discovery with
    | none =>
      simp only [State.discover, hi, hd] at ht
      obtain rfl := Option.some.inj ht
      exact h.goOn i rfl rfl rfl hp
    | some d =>
      have hread : Fit s p.gen (d::p.sources) := hp.read fun _ hclean => h.discovery hclean d hd
      simp only [State.discover, hi, hd] at ht
      split_ifs at ht
      · obtain rfl := Option.some.inj ht
        exact h.goOn i rfl rfl rfl hread
      · obtain rfl := Option.some.inj ht
        exact h.goOn i rfl rfl rfl hread
  | _ => simp [State.discover, hi] at ht

theorem select_prov (h : ProvInv s) {i : ℕ} {served : GVR → Bool} {probeCount : GVR → ℤ}
    (ht : s.select i served probeCount = some t) : ProvInv t := by
  cases hi : s.warmups i with
  | selecting p cache =>
    have hp : Fit s p.gen p.sources := h.passes i p (by rw [hi]; rfl)
    simp only [State.select, hi] at ht
    split_ifs at ht <;>
    · obtain rfl := Option.some.inj ht
      exact h.goOn i rfl rfl rfl hp
  | _ => simp [State.select, hi] at ht

theorem register_prov (h : ProvInv s) {i : ℕ} {ok : Bool} (ht : s.register i ok = some t) :
    ProvInv t := by
  cases hi : s.warmups i with
  | registering p cache sel done todo live =>
    have hp : Fit s p.gen p.sources := h.passes i p (by rw [hi]; rfl)
    cases todo with
    | nil => simp [State.register, hi] at ht
    | cons gvr todo =>
      simp only [State.register, hi] at ht
      split_ifs at ht
      · obtain rfl := Option.some.inj ht
        have hadd : ProvInv (s.addHandler cache gvr) :=
          ⟨h.init,h.dynamicCache,h.discovery,h.sequences,h.entering,h.passes,h.index,h.decision,
            h.rebuilds,h.readers,h.onces⟩
        exact hadd.goOn i rfl rfl rfl hp
      · obtain rfl := Option.some.inj ht
        exact h.goOn i rfl rfl rfl hp
  | _ => simp [State.register, hi] at ht

end Warming

section Rest

theorem rebuild_prov (h : ProvInv s) {i : ℕ} (ht : s.rebuild i = some t) : ProvInv t := by
  have hflags : ∀ {u : State R} (b c : Bool), ProvInv u →
      ProvInv { u with rebuilding := b, rebuildAgain := c } := fun _ _ hu =>
    ⟨hu.init,hu.dynamicCache,hu.discovery,hu.sequences,hu.entering,hu.passes,hu.index,hu.decision,
      hu.rebuilds,hu.readers,hu.onces⟩
  have hquiet : ∀ {r : Rebuild R}, r.reading = none → ProvInv (s.setRebuild i r) :=
    fun hr => h.setRebuild i fun _ _ hg => nomatch hr.symm.trans hg
  cases hi : s.rebuilds i with
  | idle => simp [State.rebuild, hi] at ht
  | requested =>
    simp only [State.rebuild, hi] at ht
    split_ifs at ht
    · obtain rfl := Option.some.inj ht
      exact hflags _ _ (hquiet rfl)
    · obtain rfl := Option.some.inj ht
      exact hflags _ _ (hquiet rfl)
  | starting =>
    cases hx : s.index with
    | none =>
      simp only [State.rebuild, hi, hx] at ht
      obtain rfl := Option.some.inj ht
      exact hquiet rfl
    | some idx =>
      simp only [State.rebuild, hi, hx] at ht
      obtain rfl := Option.some.inj ht
      apply h.setRebuild i
      intro gen sources hr
      obtain ⟨rfl,rfl⟩ := Prod.mk.inj (Option.some.inj hr)
      exact ⟨le_rfl,fun _ => h.index idx hx⟩
  | captured gen idx gvrs =>
    have hfit : Fit s gen idx.sources := h.rebuilds i gen idx.sources (by rw [hi]; rfl)
    cases hc : s.dynamicCache with
    | none =>
      simp only [State.rebuild, hi, hc] at ht
      obtain rfl := Option.some.inj ht
      apply h.setRebuild i
      intro gen' sources hr
      obtain ⟨rfl,rfl⟩ := Prod.mk.inj (Option.some.inj hr)
      exact hfit
    | some cache =>
      simp only [State.rebuild, hi, hc] at ht
      obtain rfl := Option.some.inj ht
      apply h.setRebuild i
      intro gen' sources hr
      obtain ⟨rfl,rfl⟩ := Prod.mk.inj (Option.some.inj hr)
      exact hfit.read fun _ hclean => h.dynamicCache hclean.1 cache hc
  | listing gen idx cache done todo =>
    have hfit : Fit s gen (cache::idx.sources) := h.rebuilds i gen _ (by rw [hi]; rfl)
    cases todo with
    | nil =>
      simp only [State.rebuild, hi] at ht
      obtain rfl := Option.some.inj ht
      apply h.setRebuild i
      intro gen' sources hr
      obtain ⟨rfl,rfl⟩ := Prod.mk.inj (Option.some.inj hr)
      exact hfit
    | cons gvr todo =>
      simp only [State.rebuild, hi] at ht
      obtain rfl := Option.some.inj ht
      apply h.setRebuild i
      intro gen' sources hr
      obtain ⟨rfl,rfl⟩ := Prod.mk.inj (Option.some.inj hr)
      exact hfit
  | built gen idx sources done =>
    have hfit : Fit s gen sources := h.rebuilds i gen sources (by rw [hi]; rfl)
    simp only [State.rebuild, hi] at ht
    split_ifs at ht with hdrop
    · obtain rfl := Option.some.inj ht
      exact hquiet rfl
    · obtain rfl := Option.some.inj ht
      have hgen : gen = s.warmupGen := (not_not.mp (not_or.mp hdrop).1).symm
      have hu : ProvInv (s.setRebuild i .judging) := hquiet rfl
      exact ⟨hu.init,hu.dynamicCache,hu.discovery,hu.sequences,hu.entering,hu.passes,
        fun idx' hx => Option.some.inj hx ▸ hfit.2 hgen,hu.decision,hu.rebuilds,hu.readers,hu.onces⟩
  | judging =>
    simp only [State.rebuild, hi] at ht
    split_ifs at ht
    · obtain rfl := Option.some.inj ht
      exact hquiet rfl
    · obtain rfl := Option.some.inj ht
      exact hflags _ _ (hquiet rfl)
  | sleeping =>
    simp only [State.rebuild, hi] at ht
    obtain rfl := Option.some.inj ht
    exact hflags _ _ (hquiet rfl)

/-- What is of the active cluster is of no cluster left before the call. -/
theorem since_le {since : ℕ} {sources : List ℕ} (hs : since ≤ s.warmupGen)
    (h : ∀ c ∈ sources, c = s.warmupGen) : ∀ c ∈ sources, since ≤ c :=
  fun c hc => (h c hc).symm ▸ hs

theorem read_prov (h : ProvInv s) {i : ℕ} {kyverno : Bool} (hok : Current s (.read i kyverno))
    (ht : s.read i kyverno = some t) : ProvInv t := by
  have hset : ∀ {since sources} {r : Reader}, r.seen = some (since,sources) →
      since ≤ s.warmupGen → (∀ c ∈ sources, since ≤ c) → ProvInv (s.setReader i r) := by
    intro since sources r hr hsince hall
    apply h.setReader i
    intro since' sources' hr'
    obtain ⟨rfl,rfl⟩ := Prod.mk.inj (Option.some.inj (hr.symm.trans hr'))
    exact ⟨hsince,hall⟩
  cases hi : s.readers i with
  | sampled since reason =>
    have hseen := h.readers i since ((reason.map Decision.sources).getD []) (by rw [hi]; rfl)
    cases hx : s.index with
    | none =>
      cases reason with
      | none =>
        simp only [State.read, hi, hx] at ht
        obtain rfl := Option.some.inj ht
        exact hset rfl hseen.1 fun _ hc => by cases hc
      | some d =>
        simp only [State.read, hi, hx] at ht
        obtain rfl := Option.some.inj ht
        exact hset rfl hseen.1 hseen.2
    | some idx =>
      have hidx := since_le hseen.1 (h.index idx hx).2
      cases reason with
      | none =>
        simp only [State.read, hi, hx] at ht
        obtain rfl := Option.some.inj ht
        exact hset rfl hseen.1 hidx
      | some d =>
        simp only [State.read, hi, hx] at ht
        obtain rfl := Option.some.inj ht
        exact hset rfl hseen.1 (List.forall_mem_append.mpr ⟨hidx,hseen.2⟩)
  | rereading since sources =>
    have hseen := h.readers i since sources (by rw [hi]; rfl)
    cases hd : s.decision with
    | none =>
      simp only [State.read, hi, hd] at ht
      obtain rfl := Option.some.inj ht
      exact hset rfl hseen.1 hseen.2
    | some d =>
      simp only [State.read, hi, hd] at ht
      obtain rfl := Option.some.inj ht
      exact hset rfl hseen.1
        (List.forall_mem_append.mpr ⟨hseen.2,since_le hseen.1 (h.decision d hd)⟩)
  | undecided since =>
    have hseen := h.readers i since [] (by rw [hi]; rfl)
    simp only [Current, hi] at hok
    cases hd : s.discovery with
    | none =>
      simp only [State.read, hi, hd] at ht
      obtain rfl := Option.some.inj ht
      exact hset rfl hseen.1 fun _ hc => by cases hc
    | some d =>
      have hall : ∀ c ∈ [d], since ≤ c := by
        intro c hc
        rw [List.mem_singleton.mp hc, hok d hd]
        exact hseen.1
      simp only [State.read, hi, hd] at ht
      split_ifs at ht
      · obtain rfl := Option.some.inj ht
        exact hset rfl hseen.1 hall
      · obtain rfl := Option.some.inj ht
        exact hset rfl hseen.1 hall
  | deciding since =>
    have hseen := h.readers i since [] (by rw [hi]; rfl)
    cases hd : s.decision with
    | none =>
      simp only [State.read, hi, hd] at ht
      obtain rfl := Option.some.inj ht
      exact hset rfl hseen.1 fun _ hc => by cases hc
    | some d =>
      simp only [State.read, hi, hd] at ht
      obtain rfl := Option.some.inj ht
      exact hset rfl hseen.1 (since_le hseen.1 (h.decision d hd))
  | idle => simp [State.read, hi] at ht
  | returned since status sources => simp [State.read, hi] at ht

theorem step_prov (h : ProvInv s) {a : Act R} (hok : Current s a) (ht : s.step a = some t) :
    ProvInv t := by
  cases a with
  | cancelOperations => exact switch_prov h (.inl rfl) ht
  | resetPolicyReportIndex => exact switch_prov h (.inr (.inl rfl)) ht
  | resetDynamicCache => exact switch_prov h (.inr (.inr (.inl rfl))) ht
  | resetDiscovery => exact switch_prov h (.inr (.inr (.inr (.inl rfl)))) ht
  | installDiscovery => exact switch_prov h (.inr (.inr (.inr (.inr rfl)))) ht
  | installDynamicCache i => exact install_prov h ht
  | change cluster gvr reports =>
    obtain rfl := Option.some.inj ht
    exact ⟨h.init,h.dynamicCache,h.discovery,h.sequences,h.entering,h.passes,h.index,h.decision,
      h.rebuilds,h.readers,h.onces⟩
  | scheduleRebuild =>
    simp only [State.step, State.scheduleRebuild] at ht
    split_ifs at ht <;>
    · obtain rfl := Option.some.inj ht
      exact ⟨h.init,h.dynamicCache,h.discovery,h.sequences,h.entering,h.passes,h.index,h.decision,
        h.rebuilds,h.readers,h.onces⟩
  | fire i =>
    cases hi : s.rebuilds i with
    | idle =>
      simp only [State.step, hi] at ht
      split_ifs at ht
      obtain rfl := Option.some.inj ht
      have hu : ProvInv (s.setRebuild i .requested) := h.setRebuild i fun _ _ hr => by cases hr
      exact ⟨hu.init,hu.dynamicCache,hu.discovery,hu.sequences,hu.entering,hu.passes,hu.index,
        hu.decision,hu.rebuilds,hu.readers,hu.onces⟩
    | _ => simp [State.step, hi] at ht
  | rebuild i => exact rebuild_prov h ht
  | warm i => exact warm_prov h hok ht
  | discover i kyverno => exact discover_prov h ht
  | select i served probeCount => exact select_prov h ht
  | register i ok => exact register_prov h ht
  | getPolicyReportStatus i =>
    cases hi : s.readers i with
    | idle =>
      simp only [State.step, hi] at ht
      obtain rfl := Option.some.inj ht
      apply h.setReader i
      intro since sources hr
      obtain ⟨rfl,rfl⟩ := Prod.mk.inj (Option.some.inj hr)
      refine ⟨le_rfl,?_⟩
      cases hd : s.decision with
      | none => exact fun _ hc => by cases hc
      | some d => exact since_le le_rfl (h.decision d hd)
    | _ => simp [State.step, hi] at ht
  | getKyvernoStatus i =>
    cases hi : s.readers i with
    | idle =>
      cases hx : s.index with
      | none =>
        simp only [State.step, hi, hx] at ht
        obtain rfl := Option.some.inj ht
        apply h.setReader i
        intro since sources hr
        obtain ⟨rfl,rfl⟩ := Prod.mk.inj (Option.some.inj hr)
        exact ⟨le_rfl,fun _ hc => by cases hc⟩
      | some idx =>
        simp only [State.step, hi, hx] at ht
        obtain rfl := Option.some.inj ht
        apply h.setReader i
        intro since sources hr
        obtain ⟨rfl,rfl⟩ := Prod.mk.inj (Option.some.inj hr)
        exact ⟨le_rfl,since_le le_rfl (h.index idx hx).2⟩
    | _ => simp [State.step, hi] at ht
  | read i kyverno => exact read_prov h hok ht

theorem booted_prov (store : ℕ → GVR → List R) : ProvInv { store := store } where
  init := rfl
  dynamicCache _ _ hc := by cases hc
  discovery _ _ hd := by cases hd
  sequences _ _ hc := by cases hc
  entering _ _ _ hc := by cases hc
  passes _ _ hp := by cases hp
  index _ hx := by cases hx
  decision _ hd := by cases hd
  rebuilds _ _ _ hr := by cases hr
  readers _ _ _ hr := by cases hr
  onces _ _ ho := by cases ho

/-- No index, decision or status of a cluster that was left, and no once lost to it, in any run of
warm-ups and status reads of the active cluster. -/
theorem index_of_active_cluster {store : ℕ → GVR → List R} {as : List (Act R)}
    (hm : Meets State.step Current { store := store } as)
    (hr : run State.step { store := store } as = some s) :
    Published s ∧ Returned s ∧ OwnOnce s := by
  have h := meets_invariant (fun _ _ _ h hok ht => step_prov h hok ht) (booted_prov store) hm hr
  refine ⟨⟨fun idx hx => (h.index idx hx).2,h.decision⟩,?_,h.onces⟩
  intro i since status sources hi
  exact (h.readers i since sources (by rw [hi]; rfl)).2

/-- The caches are installed, and the sequence is checked before its step. -/
def toTheCheck : List (Act ℕ) := [.installDiscovery,.installDynamicCache 0,.warm 0,.warm 0]

def theWarmup : List (Act ℕ) :=
  [.warm 0,.warm 0,.discover 0 true,.warm 0,.select 0 onlyPolicyReports fun _ => 1,.warm 0,.warm 0,
    .warm 0,.register 0 true,.warm 0]

theorem index_of_active_cluster_boot : ∃ s : State ℕ,
    run State.step { store := fun _ _ => [7] } (toTheCheck++theWarmup) = some s ∧
      s.index.isSome = true ∧ Published s ∧ Returned s ∧ OwnOnce s := by
  have hr : ∃ s : State ℕ, run State.step { store := fun _ _ => [7] } (toTheCheck++theWarmup) = some s ∧
      s.index.isSome = true := ⟨_,rfl,rfl⟩
  obtain ⟨s,hs,hx⟩ := hr
  refine ⟨s,hs,hx,index_of_active_cluster ?_ hs⟩
  refine meets_cons trivial rfl (meets_cons trivial rfl (meets_cons trivial rfl ?_))
  refine meets_cons trivial rfl (meets_cons rfl rfl (meets_cons trivial rfl ?_))
  refine meets_cons trivial rfl (meets_cons trivial rfl (meets_cons trivial rfl ?_))
  refine meets_cons trivial rfl (meets_cons trivial rfl (meets_cons trivial rfl ?_))
  exact meets_cons trivial rfl (meets_cons trivial rfl trivial)

/-- The index is reset between the check of a sequence and its warm-up; the warm-up of the new
cluster comes after. -/
def resetBetween : List (Act ℕ) :=
  toTheCheck++[Act.cancelOperations,.resetPolicyReportIndex]++theWarmup++
    [Act.resetDynamicCache,.resetDiscovery,.installDiscovery,.installDynamicCache 1,.warm 1,.warm 1,.warm 1,
      .warm 1]

/-- A status is asked for while the discovery of the cluster that is left is still there. -/
def askedBetween : List (Act ℕ) :=
  [.installDiscovery,.installDynamicCache 0,.cancelOperations,.resetPolicyReportIndex,
    .getPolicyReportStatus 0,.read 0 true,.read 0 true]

theorem index_of_left_cluster :
    (∃ s : State ℕ, run State.step { store := fun _ _ => [7] } resetBetween = some s ∧
      s.warmupGen = 1 ∧ s.warmups 1 = .returned ∧ ¬Published s ∧ ¬OwnOnce s) ∧
    ∃ s : State ℕ, run State.step { store := fun _ _ => [7] } askedBetween = some s ∧ ¬Returned s := by
  constructor
  · refine ⟨_,rfl,rfl,rfl,fun h => ?_,fun h => ?_⟩
    · exact absurd (h.1 _ rfl 0 (by decide)) (by decide)
    · exact absurd (h 1 _ rfl) (by decide)
  · exact ⟨_,rfl,fun h => absurd (h 0 1 _ _ rfl 0 (by decide)) (by decide)⟩

end Rest

end Radar.Policy
