import Radar.ReadScope.Assessed

/-!
# What an assessment promises

A read looks at the stores that the assessment looked at. What was assessed as
readable is read in full from then on, and a request is read as a whole exactly
when the assessment called it complete, unless an informer synced meanwhile.
-/

set_option autoImplicit false

namespace Radar.ReadScope

open Looks

section Reading

variable {rc : ResourceCache} {key : String} {w v : World} {l : List String}

/-- How time may pass between two looks. -/
structure Passing (R : World → World → Prop) : Prop where
  refl : ∀ w, R w w
  trans : ∀ {w u v}, R w u → R u v → R w v
  later : ∀ {w v}, R w v → Later w v

theorem passing_later : Passing Later :=
  ⟨fun _ => .refl,fun h h' => h.trans h',id⟩

/-- Nothing moves. -/
theorem passing_eq : Passing (Eq : World → World → Prop) :=
  ⟨fun _ => rfl,fun h h' => h.trans h',fun h => h ▸ .refl⟩

theorem Passing.yields {R : World → World → Prop} (hR : Passing R) {α : Type} {p : Looks World α}
    {a : α} (h : Yields R w p a v) : R w v :=
  yields_moves hR.refl hR.trans h

/-- The read of a namespace's objects. -/
def readOf (rc : ResourceCache) (key ns : String) : StoreRead :=
  ((storeFor rc key ns).getD ⟨key,""⟩,some ns)

theorem readOf_objects (hwatched : Watched rc key) {ns : String} (hcovers : Covers rc key ns)
    (w : World) : (readOf rc key ns).objects w = heldIn rc key w ns := by
  obtain ⟨inf,hstore,-,hheld⟩ := store_holds hwatched.layout hcovers
  rw [readOf, hstore]
  exact hheld w

theorem stores_ne_nil (h : Layout rc key) : rc.kindStores key ≠ [] := by
  cases h with
  | whole watched hcovered hstores => simp [hstores]
  | each namespaces hcovered hne hnodup hnamed hstores => simp [hstores, hne]

variable {R : World → World → Prop} (hR : Passing R)
include hR

theorem yields_namespaceStores {out : Option (List StoreRead)}
    (h : Yields R w (namespaceStores rc key (KindNamespaces rc key) l) out v) :
    (∀ reads, out = some reads → reads = l.map (readOf rc key) ∧ ∀ ns ∈ l, Readable rc key v ns) ∧
      ((∀ ns ∈ l, Readable rc key w ns) → out.isSome = true) := by
  induction l generalizing w out with
  | nil =>
    obtain ⟨rfl,rfl⟩ := yields_pure h
    refine ⟨fun reads heq => ⟨(Option.some.inj heq).symm,?_⟩,fun _ => rfl⟩
    exact fun ns hns => by cases hns
  | cons ns rest ih =>
    rw [namespaceStores] at h
    have hany : (KindNamespaces rc key).any (fun covered => decide (ns ∉ covered)) = true ↔
        ¬Covers rc key ns := by
      unfold Covers
      cases KindNamespaces rc key with
      | none => simp
      | some covered => simp
    by_cases hcovers : Covers rc key ns
    · rw [if_neg (hany.not.mpr (not_not.mpr hcovers))] at h
      cases hstore : storeFor rc key ns with
      | none =>
        rw [hstore] at h
        obtain ⟨rfl,rfl⟩ := yields_pure h
        refine ⟨(by simp),fun hall => ?_⟩
        obtain ⟨-,inf,hinf,-⟩ := hall ns List.mem_cons_self
        cases hstore.symm.trans hinf
      | some inf =>
        rw [hstore] at h
        obtain ⟨synced,u,hfirst,hrest⟩ := yields_bind h
        obtain ⟨hmove,rfl⟩ := yields_ask hfirst
        cases hsynced : u.synced inf with
        | false =>
          rw [hsynced, if_neg Bool.false_ne_true] at hrest
          obtain ⟨rfl,rfl⟩ := yields_pure hrest
          refine ⟨(by simp),fun hall => ?_⟩
          obtain ⟨-,inf',hinf,hw⟩ := hall ns List.mem_cons_self
          rw [Option.some.inj (hstore.symm.trans hinf), later_synced (hR.later hmove) hw] at hsynced
          cases hsynced
        | true =>
          rw [hsynced, if_pos rfl] at hrest
          obtain ⟨reads,u',hreads,hend⟩ := yields_bind hrest
          obtain ⟨rfl,rfl⟩ := yields_pure hend
          obtain ⟨hsound,hfull⟩ := ih hreads
          constructor
          · intro all hall
            obtain ⟨tail,rfl,rfl⟩ := Option.map_eq_some_iff.mp hall
            obtain ⟨rfl,hreadable⟩ := hsound tail rfl
            refine ⟨by rw [List.map_cons, readOf, hstore]; rfl,fun n hn => ?_⟩
            rcases List.mem_cons.mp hn with rfl | hn
            · exact ⟨hcovers,inf,hstore,later_synced (hR.later (hR.yields hreads)) hsynced⟩
            · exact hreadable n hn
          · intro hall
            rw [Option.isSome_map]
            exact hfull fun n hn => (hall n (List.mem_cons_of_mem ns hn)).later (hR.later hmove)
    · rw [if_pos (hany.mpr hcovers)] at h
      obtain ⟨rfl,rfl⟩ := yields_pure h
      exact ⟨(by simp),fun hall => absurd (hall ns List.mem_cons_self).1 hcovers⟩

theorem yields_indexers (hwatched : Watched rc key) {out : Option (List StoreRead)}
    (h : Yields R w (readableIndexers rc key (some l)) out v) :
    (∀ reads, out = some reads → reads = l.map (readOf rc key) ∧ ∀ ns ∈ l, Readable rc key v ns) ∧
      ((∀ ns ∈ l, Readable rc key w ns) → out.isSome = true) := by
  rw [readableIndexers, if_neg (by simp [hwatched.enabled, stores_ne_nil hwatched.layout])] at h
  exact yields_namespaceStores hR h

/-- A list of namespaces is read store by store when all of them are readable, and only then. -/
theorem yields_objects (hwatched : Watched rc key) {out : Option (List Object)}
    (h : Yields R w (ReadableObjects rc key (some l)) out v) :
    (out.isSome = true → ∀ ns ∈ l, Readable rc key v ns) ∧
      ((∀ ns ∈ l, Readable rc key w ns) → ∃ ms, Moments R w ms v ∧ ms.map Prod.fst = l ∧
        out = some (ms.flatMap fun m => heldIn rc key m.2 m.1)) := by
  obtain ⟨reads,u,hreads,hrest⟩ := yields_bind h
  obtain ⟨hsound,hfull⟩ := yields_indexers hR hwatched hreads
  cases reads with
  | none =>
    obtain ⟨rfl,rfl⟩ := yields_pure hrest
    exact ⟨nofun,fun hall => absurd (hfull hall) Bool.false_ne_true⟩
  | some reads =>
    obtain ⟨objects,u',hgather,hend⟩ := yields_bind hrest
    obtain ⟨rfl,rfl⟩ := yields_pure hend
    obtain ⟨rfl,hreadable⟩ := hsound reads rfl
    constructor
    · exact fun _ ns hns => (hreadable ns hns).later (hR.later (hR.yields hgather))
    · intro _
      rw [gather_map] at hgather
      obtain ⟨ms,hms,hnames,rfl⟩ := yields_gather hR.refl hgather
      refine ⟨ms,hms.after hR.trans (hR.yields hreads),hnames,?_⟩
      rw [Option.some.injEq]
      apply List.flatMap_congr
      intro m hm
      exact readOf_objects hwatched (hreadable m.1 (hnames ▸ List.mem_map_of_mem hm)).1 m.2

theorem yields_count (hwatched : Watched rc key) {out : Option ℕ}
    (h : Yields R w (ReadableCount rc key (some l)) out v)
    (hall : ∀ ns ∈ l, Readable rc key w ns) :
    ∃ ms, Moments R w ms v ∧ ms.map Prod.fst = l ∧
      out = some (ms.map fun m => (heldIn rc key m.2 m.1).length).sum := by
  obtain ⟨reads,u,hreads,hrest⟩ := yields_bind h
  obtain ⟨hsound,hfull⟩ := yields_indexers hR hwatched hreads
  cases reads with
  | none => exact absurd (hfull hall) Bool.false_ne_true
  | some reads =>
    obtain ⟨counts,u',hgather,hend⟩ := yields_bind hrest
    obtain ⟨rfl,rfl⟩ := yields_pure hend
    obtain ⟨rfl,hreadable⟩ := hsound reads rfl
    rw [gather_map] at hgather
    obtain ⟨ms,hms,hnames,rfl⟩ := yields_gather hR.refl hgather
    refine ⟨ms,hms.after hR.trans (hR.yields hreads),hnames,?_⟩
    rw [Option.some.injEq, ← List.map_eq_flatMap]
    apply congrArg List.sum
    apply List.map_congr_left
    intro m hm
    rw [readOf_objects hwatched (hreadable m.1 (hnames ▸ List.mem_map_of_mem hm)).1 m.2]

theorem yields_object (hwatched : Watched rc key) {ns : String} {name : ApiName}
    {out : Option (Option Object)} (h : Yields R w (ReadableObject rc key ns name) out v)
    (hreadable : Readable rc key w ns) :
    ∃ m, R w m ∧ R m v ∧
      out = some ((heldIn rc key m ns).find? fun o => decide (o.name = name)) := by
  obtain ⟨hcovers,inf,hstore,hsynced⟩ := hreadable
  have hin : ¬(KindNamespaces rc key).any (fun covered => decide (ns ∉ covered)) = true := by
    rw [Option.any_eq_true]
    rintro ⟨covered,hcovered,hnot⟩
    exact of_decide_eq_true hnot (hcovers covered hcovered)
  rw [ReadableObject, if_neg (by simp [hwatched.enabled, stores_ne_nil hwatched.layout]), if_neg hin,
    hstore] at h
  obtain ⟨synced,u,hfirst,hrest⟩ := yields_bind h
  obtain ⟨hmove,rfl⟩ := yields_ask hfirst
  rw [later_synced (hR.later hmove) hsynced, if_pos rfl] at hrest
  obtain ⟨found,m,hfound,hend⟩ := yields_bind hrest
  obtain ⟨hlater,rfl⟩ := yields_ask hfound
  obtain ⟨rfl,rfl⟩ := yields_pure hend
  refine ⟨v,hR.trans hmove hlater,hR.refl v,?_⟩
  obtain ⟨inf',hstore',-,hheld⟩ := store_holds hwatched.layout hcovers
  rw [Option.some.inj (hstore.symm.trans hstore'), find_key, ← hheld v]
  rfl

end Reading

section Honest

variable {cfg : CacheConfig} {setup : InformerSetup} {requested : Option (List String)}
  {w v : World} {a : KindReadAssessment} {read : List String}

/-- The configuration has the kind collected in the namespace. -/
def Collects (cfg : CacheConfig) (setup : InformerSetup) (ns : String) : Prop :=
  ∃ scope, enabledScopes cfg setup.key = some scope ∧
    (setup.isClusterScoped = true ∨ scope.ns = "" ∨ ns = scope.ns ∨
      ns ≠ "" ∧ ns ∈ cfg.resourceScopeNamespaces setup.key)

/-- An informer of the kind holds the object. -/
def Held (cfg : CacheConfig) (setup : InformerSetup) (w : World) (o : Object) : Prop :=
  ∃ st ∈ (NewResourceCache cfg).kindStores setup.key, o ∈ (w.store st.2).items

/-- What an assessment that splits its target says is so from then on. -/
structure Honest (cfg : CacheConfig) (setup : InformerSetup) (requested : Option (List String))
    (w v : World) (a : KindReadAssessment) (read : List String) : Prop where
  split : ∃ target : List String,
    (requested = some target ∨ requested = none ∧ ∀ ns, ns ∈ target ↔ Collects cfg setup ns) ∧
    target.Nodup ∧ (read++a.loading++a.failed++a.uncovered).Perm target ∧
    ∀ ns ∈ target, ns ∈ a.uncovered ↔ ¬Collects cfg setup ns
  objects : ∀ {u t out}, Later v u →
    Yields Later u (ReadableObjects (NewResourceCache cfg) setup.key (some read)) out t →
    ∃ ms, Moments Later u ms t ∧ ms.map Prod.fst = read ∧
      out = some (ms.flatMap fun m => heldIn (NewResourceCache cfg) setup.key m.2 m.1)
  count : ∀ {u t out}, Later v u →
    Yields Later u (ReadableCount (NewResourceCache cfg) setup.key (some read)) out t →
    ∃ ms, Moments Later u ms t ∧ ms.map Prod.fst = read ∧
      out = some (ms.map fun m => (heldIn (NewResourceCache cfg) setup.key m.2 m.1).length).sum
  object : ∀ {u t ns out} (name : ApiName), Later v u → ns ∈ read →
    Yields Later u (ReadableObject (NewResourceCache cfg) setup.key ns name) out t →
    ∃ m, Later u m ∧ Later m t ∧ out = some
      ((heldIn (NewResourceCache cfg) setup.key m ns).find? fun o => decide (o.name = name))
  agree : ∀ u, Later v u → ∃ objects : List Object,
    (ReadableObjects (NewResourceCache cfg) setup.key (some read)).now u = some objects ∧
    (∀ o, o ∈ objects ↔ o.ns.1 ∈ read ∧ Held cfg setup u o) ∧ (objects.map Object.key).Nodup ∧
    (ReadableCount (NewResourceCache cfg) setup.key (some read)).now u = some objects.length ∧
    ∀ ns ∈ read, ∀ name : ApiName,
      (ReadableObject (NewResourceCache cfg) setup.key ns name).now u =
        some (objects.find? fun o => decide (o.ns.1 = ns ∧ o.name = name))
  complete : ∀ {l u t out}, requested = some l → Later v u →
    Yields Later u (ReadableObjects (NewResourceCache cfg) setup.key (some l)) out t →
    (a.complete = true → out.isSome = true) ∧
      (t.synced = w.synced → (out.isSome = true ↔ a.complete = true))

theorem moments_eq {β : Type} {u t : World} {ms : List (β × World)} (h : Moments Eq u ms t) :
    ms = (ms.map Prod.fst).map fun b => (b,u) := by
  induction h with
  | nil => rfl
  | cons hmove _ ih =>
    rw [List.map_cons, List.map_cons, hmove, ← ih]

theorem covered_nodup {rc : ResourceCache} {key : String} (h : Layout rc key) {covered : List String}
    (hcovered : KindNamespaces rc key = some covered) : covered.Nodup := by
  cases h with
  | whole watched hwhole hstores =>
    rw [hwhole] at hcovered
    split_ifs at hcovered
    rw [← Option.some.inj hcovered]
    exact List.nodup_singleton watched
  | each namespaces heach hne hnodup hnamed hstores =>
    rw [← Option.some.inj (heach.symm.trans hcovered)]
    exact hnodup

section Now

variable {rc : ResourceCache} {key : String} (hwatched : Watched rc key)
  (hreadable : ∀ ns ∈ read, Readable rc key w ns)
include hwatched hreadable

theorem objects_now : (ReadableObjects rc key (some read)).now w =
    some (read.flatMap fun ns => heldIn rc key w ns) := by
  obtain ⟨ms,hms,hnames,hout⟩ := (yields_objects passing_eq hwatched
    (yields_now passing_eq.refl w (ReadableObjects rc key (some read)))).2 hreadable
  rw [hout, moments_eq hms, hnames, List.flatMap_map]

theorem count_now : (ReadableCount rc key (some read)).now w =
    some (read.flatMap fun ns => heldIn rc key w ns).length := by
  obtain ⟨ms,hms,hnames,hout⟩ := yields_count passing_eq hwatched
    (yields_now passing_eq.refl w (ReadableCount rc key (some read))) hreadable
  rw [hout, moments_eq hms, hnames, List.map_map, List.length_flatMap]
  rfl

theorem object_now (hnodup : read.Nodup) {ns : String} (hns : ns ∈ read) (name : ApiName) :
    (ReadableObject rc key ns name).now w =
      some ((read.flatMap fun n => heldIn rc key w n).find? fun o =>
        decide (o.ns.1 = ns ∧ o.name = name)) := by
  obtain ⟨m,rfl,-,hout⟩ := yields_object passing_eq hwatched
    (yields_now passing_eq.refl w (ReadableObject rc key ns name)) (hreadable ns hns)
  have hone : (read.flatMap fun n => heldIn rc key w n).filter (fun o => decide (o.ns.1 = ns)) =
      heldIn rc key w ns := by
    rw [Grouping.filter_flatMap_one hnodup hns, List.filter_eq_self]
    · exact fun o ho => decide_eq_true (mem_held ho)
    · intro n _ hne
      rw [List.filter_eq_nil_iff]
      intro o ho heq
      exact hne ((mem_held ho).symm.trans (of_decide_eq_true heq))
  rw [hout, ← hone, List.find?_filter]
  simp

theorem held_keys_nodup (hnodup : read.Nodup) :
    ((read.flatMap fun ns => heldIn rc key w ns).map Object.key).Nodup := by
  rw [List.map_flatMap, List.nodup_flatMap]
  constructor
  · exact fun ns hns => held_nodup hwatched.layout (hreadable ns hns).1 w
  · refine hnodup.imp fun {ns ns'} hne => ?_
    intro k hk hk'
    obtain ⟨o,ho,rfl⟩ := List.mem_map.mp hk
    obtain ⟨o',ho',hkey⟩ := List.mem_map.mp hk'
    have hns : o'.ns.1 = o.ns.1 := (keyOf_inj.mp hkey).1
    exact hne ((mem_held ho).symm.trans (hns.symm.trans (mem_held ho')))

end Now

theorem collects_iff (hsetup : setup ∈ buildInformerSetups) {scope : ResourceScope}
    (hscope : enabledScopes cfg setup.key = some scope) {ns : String} :
    Collects cfg setup ns ↔ Covers (NewResourceCache cfg) setup.key ns := by
  rw [covers_iff hsetup hscope]
  constructor
  · rintro ⟨scope',hscope',hns⟩
    rw [Option.some.inj (hscope.symm.trans hscope')]
    exact hns
  · exact fun hns => ⟨scope,hscope,hns⟩

theorem target_nodup {rc : ResourceCache} {key : String} (h : Layout rc key)
    (hnodup : ∀ l, requested = some l → l.Nodup) {target : List String}
    (htarget : Target rc key requested target) : target.Nodup := by
  rcases htarget with heq | ⟨-,hcovered⟩
  · exact hnodup target heq
  · exact covered_nodup h hcovered

theorem complete_reads {rc : ResourceCache} {key : String} {target : List String}
    (hwatched : Watched rc key) (h : Assessed rc key (some target) w v target a) {u t : World}
    {out : Option (List Object)} (hlater : Later v u)
    (hyields : Yields Later u (ReadableObjects rc key (some target)) out t) :
    (a.complete = true → out.isSome = true) ∧
      (t.synced = w.synced → (out.isSome = true ↔ a.complete = true)) := by
  obtain ⟨hsound,hfull⟩ := yields_objects passing_later hwatched hyields
  have hreads : a.complete = true → out.isSome = true := by
    intro hcomplete
    obtain ⟨-,hloading,hfailed,huncovered⟩ := h.complete.mp hcomplete
    have hall : ∀ ns ∈ target, Readable rc key u ns := by
      intro ns hns
      apply (h.synced ns ?_).later hlater
      have hin := h.partition.mem_iff.mpr hns
      rw [parts, hloading, hfailed, huncovered] at hin
      simpa using hin
    obtain ⟨ms,-,-,rfl⟩ := hfull hall
    rfl
  refine ⟨hreads,fun hsame => ⟨fun hout => ?_,hreads⟩⟩
  have hall : ∀ ns ∈ target, Readable rc key w ns := by
    intro ns hns
    obtain ⟨hcovers,inf,hstore,hsynced⟩ := hsound hout ns hns
    exact ⟨hcovers,inf,hstore,hsame ▸ hsynced⟩
  obtain ⟨hloading,hfailed⟩ := h.full hall
  refine h.complete.mpr ⟨(by simp),hloading,hfailed,?_⟩
  rw [List.eq_nil_iff_forall_not_mem]
  intro ns hns
  obtain ⟨hin,hnot⟩ := (h.uncovered ns).mp hns
  exact hnot (hall ns hin).1

/-- An assessment with a partition is right about it, and whoever reads after it can rely on it. -/
theorem assessment_honest (hsetup : setup ∈ buildInformerSetups)
    (hon : (enabledScopes cfg setup.key).isSome = true)
    (hnodup : ∀ l, requested = some l → l.Nodup)
    (h : Yields Later w (AssessKindRead (NewResourceCache cfg) setup.key requested) a v) :
    (requested.isSome = true → a.read.isSome = true) ∧
      ∀ read, a.read = some read → Honest cfg setup requested w v a read := by
  obtain ⟨scope,hscope⟩ := Option.isSome_iff_exists.mp hon
  have hwatched := new_watched hsetup hscope
  rcases assess_cases hwatched h with ⟨rfl,hnone⟩ | ⟨target,hassessed⟩
  · exact ⟨by simp,fun read hread => by cases hnone.symm.trans hread⟩
  · refine ⟨fun _ => hassessed.read,fun read hread => ?_⟩
    have hpartition := hassessed.partition
    rw [parts, hread, Option.getD_some] at hpartition
    have htarget := target_nodup hwatched.layout hnodup hassessed.asked
    have hreadable : ∀ {u}, Later v u → ∀ ns ∈ read,
        Readable (NewResourceCache cfg) setup.key u ns := by
      intro u hlater ns hns
      exact (hassessed.synced ns (by rw [hread]; exact hns)).later hlater
    have honce : read.Nodup := by
      have hall := hpartition.nodup_iff.mpr htarget
      rw [List.append_assoc, List.append_assoc] at hall
      exact hall.of_append_left
    constructor
    · refine ⟨target,?_,htarget,hpartition,fun ns hns => ?_⟩
      · rcases hassessed.asked with heq | ⟨hnone,hcovered⟩
        · exact .inl heq
        · refine .inr ⟨hnone,fun ns => ?_⟩
          rw [collects_iff hsetup hscope, Covers, hcovered]
          simp
      · rw [hassessed.uncovered, collects_iff hsetup hscope]
        exact ⟨And.right,fun hnot => ⟨hns,hnot⟩⟩
    · exact fun hlater hyields =>
        (yields_objects passing_later hwatched hyields).2 (hreadable hlater)
    · exact fun hlater hyields => yields_count passing_later hwatched hyields (hreadable hlater)
    · exact fun name hlater hns hyields =>
        yields_object passing_later hwatched hyields (hreadable hlater _ hns)
    · intro u hlater
      refine ⟨_,objects_now hwatched (hreadable hlater),fun o => ?_,
        held_keys_nodup hwatched (hreadable hlater) honce,count_now hwatched (hreadable hlater),
        fun ns hns name => object_now hwatched (hreadable hlater) honce hns name⟩
      simp only [List.mem_flatMap, heldIn, List.mem_filter, decide_eq_true_iff, Held]
      constructor
      · rintro ⟨ns,hns,hheld,rfl⟩
        exact ⟨hns,hheld⟩
      · exact fun hin => ⟨o.ns.1,hin.1,hin.2,rfl⟩
    · intro l u t out heq hlater hyields
      subst heq
      rcases hassessed.asked with hsame | ⟨hnone,-⟩
      · rw [← Option.some.inj hsame] at hassessed
        exact complete_reads hwatched hassessed hlater hyields
      · cases hnone

theorem target_readiness (hread : a.read.isSome = true) :
    a.TargetReadiness = .ready ↔ a.loading = [] ∧ a.failed = [] := by
  unfold KindReadAssessment.TargetReadiness
  rw [if_neg (Option.isSome_iff_ne_none.mp hread)]
  split_ifs with hloading hfailed
  · simp [hloading]
  · simp [hfailed]
  · exact ⟨fun _ => ⟨not_not.mp hloading,not_not.mp hfailed⟩,fun _ => rfl⟩

/-- Pods are collected in two namespaces. -/
def twoNamespaces : CacheConfig where
  resourceScopes := some fun key => if key = "pods" then some ⟨true,"alpha"⟩ else none
  resourceScopeNamespaces key := if key = "pods" then ["alpha","beta"] else []

/-- One of the two has synced, with nothing in it. -/
def alphaSynced : World where
  synced inf := decide (inf.watched = "alpha")
  store _ := ⟨[],List.nodup_nil,nofun⟩
  deferredFailed := false
  deferredSynced _ := false

def alphaAssessed : KindReadAssessment :=
  (AssessKindRead (NewResourceCache twoNamespaces) "pods"
    (some ["beta","gamma","alpha"])).now alphaSynced

theorem assessment_honest_alpha : alphaAssessed.loading = ["beta"] ∧
    alphaAssessed.uncovered = ["gamma"] ∧
    Honest twoNamespaces { key := "pods" } (some ["beta","gamma","alpha"]) alphaSynced alphaSynced
      alphaAssessed ["alpha"] := by
  have hyields : Yields Later alphaSynced (AssessKindRead (NewResourceCache twoNamespaces) "pods"
      (some ["beta","gamma","alpha"])) alphaAssessed alphaSynced :=
    yields_now passing_later.refl alphaSynced _
  have hsetup : { key := "pods" } ∈ buildInformerSetups := by decide
  have hhonest := assessment_honest hsetup rfl (by simp) hyields
  exact ⟨by decide +kernel,by decide +kernel,hhonest.2 ["alpha"] (by decide +kernel)⟩

end Honest

end Radar.ReadScope
