import Radar.Issues.GroupOrder

/-!
# When grouping is a function of the set of rows

Two orders of the same rows give the same groups exactly when, for every ID,
the members' reads begin one another and the members that no other one is
better than carry the same data.
-/

set_option autoImplicit false

namespace Radar.Issues

variable {X : Type}

/-- Rows with equal ID describe the same subject and category. -/
def Coherent (flat : List (Issue X)) : Prop :=
  ∀ a ∈ flat, ∀ b ∈ flat, a.id = b.id → a.subjectRef = b.subjectRef ∧ a.category = b.category

/-- What a group has from its representative and `betterRepresentative` does not compare. -/
structure Carried (X : Type) where
  categoryGroup : CategoryGroup
  groupingScope : Scope
  rawMessage : String
  messageSource : String
  fingerprint : String
  restartCount : ℕ
  lastTerminatedReason : String
  restartLoop : Option X
  diagnosticContext : Option X
  affectedRefs : List Ref
  changeContext : Option X
  degraded : Option X
  deriving DecidableEq

def carried (i : Issue X) : Carried X where
  categoryGroup := i.categoryGroup
  groupingScope := i.groupingScope
  rawMessage := i.rawMessage
  messageSource := i.messageSource
  fingerprint := i.fingerprint
  restartCount := i.restartCount
  lastTerminatedReason := i.lastTerminatedReason
  restartLoop := i.restartLoop
  diagnosticContext := i.diagnosticContext
  affectedRefs := i.affectedRefs
  changeContext := i.changeContext
  degraded := i.degraded

/-- The reads a row brings, each once. -/
def distinctReads (i : Issue X) : List EvidenceRead := Names.distinctFrom [] i.requiredReads

/-- No row of the same ID is a better representative. -/
def Unbeaten (flat : List (Issue X)) (a : Issue X) : Prop :=
  ∀ c ∈ flat, c.id = a.id → betterRepresentative c a = false

structure OrderFree (flat : List (Issue X)) : Prop where
  reads : ∀ a ∈ flat, ∀ b ∈ flat, a.id = b.id →
    distinctReads a <+: distinctReads b ∨ distinctReads b <+: distinctReads a
  best : ∀ a ∈ flat, ∀ b ∈ flat, a.id = b.id → Unbeaten flat a → Unbeaten flat b →
    carried a = carried b

section Buckets

/-- The rows of one ID, in the order they come in. -/
def bucketOf (flat : List (Issue X)) (id : String) : List (Issue X) :=
  flat.filter fun r => r.id = id

theorem mem_bucketOf {flat : List (Issue X)} {id : String} {r : Issue X} :
    r ∈ bucketOf flat id ↔ r ∈ flat ∧ r.id = id := by
  simp [bucketOf]

variable {flat : List (Issue X)} {bs : List (Bucket X)}

theorem members_of (hp : bs.Perm (buckets flat)) :
    ∀ b ∈ bs, b.members = bucketOf flat b.key :=
  ((Grouping.collect_collected Issue.id (fun _ => ()) flat).perm hp).members

variable [DecidableEq X]

theorem foldGroup_id {id : String} {g : Issue X} (h : foldGroup (bucketOf flat id) = some g) :
    g.id = id ∧ ∃ r ∈ flat, r.id = id := by
  cases hb : bucketOf flat id with
  | nil =>
    rw [hb] at h
    nomatch h
  | cons first rest =>
    rw [hb, foldGroup, Option.some_inj] at h
    have hrep := Ranking.best_mem betterRepresentative first rest
    rw [← hb, mem_bucketOf] at hrep
    rw [← h]
    exact ⟨hrep.2,_,hrep⟩

theorem mem_groupRanged (hp : bs.Perm (buckets flat)) {g : Issue X} :
    g ∈ groupRanged bs ↔ foldGroup (bucketOf flat g.id) = some g := by
  have hall := (Grouping.collect_collected Issue.id (fun _ => ()) flat).perm hp
  rw [groupRanged, (Ranking.sorted_perm _).mem_iff, List.mem_filterMap]
  constructor
  · intro h
    obtain ⟨b,hb,hg⟩ := h
    rw [members_of hp b hb] at hg
    rwa [(foldGroup_id hg).1]
  · intro h
    obtain ⟨r,hr,hid⟩ := (foldGroup_id h).2
    obtain ⟨b,hb,hk⟩ := hall.cover r hr
    refine ⟨b,hb,?_⟩
    rw [members_of hp b hb, hk, hid]
    exact h

theorem groupRanged_nodup (hp : bs.Perm (buckets flat)) :
    (bs.filterMap fun b => foldGroup b.members).Nodup := by
  have hkeys : (bs.map Grouping.Group.key).Nodup :=
    ((Grouping.collect_collected Issue.id (fun _ => ()) flat).perm hp).nodup
  rw [List.Nodup, List.pairwise_map] at hkeys
  rw [List.Nodup, List.pairwise_filterMap]
  apply hkeys.imp_of_mem
  intro b b' hb hb' hne g hg g' hg' heq
  rw [members_of hp b hb] at hg
  rw [members_of hp b' hb'] at hg'
  exact hne ((foldGroup_id hg).1.symm.trans (heq ▸ (foldGroup_id hg').1))

end Buckets

section Symmetric

variable {flat flat' : List (Issue X)}

theorem bucketOf_perm (hp : flat'.Perm flat) (id : String) :
    (bucketOf flat' id).Perm (bucketOf flat id) := hp.filter _

/-- The chosen member is one no other member is better than. -/
theorem best_unbeaten {id : String} {first : Issue X} {rest : List (Issue X)}
    (hb : bucketOf flat id = first::rest) :
    Unbeaten flat (Ranking.best betterRepresentative first rest) := by
  have hmem := Ranking.best_mem betterRepresentative first rest
  rw [← hb, mem_bucketOf] at hmem
  intro c hc hid
  have hcb : c ∈ first::rest := hb ▸ mem_bucketOf.mpr ⟨hc,hid.trans hmem.2⟩
  have hle := Ranking.best_max betterRepresentative_ranks first rest c hcb
  rw [← Bool.not_eq_true]
  intro hbetter
  exact absurd ((betterRepresentative_ranks _ _).mp hbetter) (not_lt.mpr hle)

theorem unbeaten_perm (hp : flat'.Perm flat) {a : Issue X} (h : Unbeaten flat' a) :
    Unbeaten flat a := fun c hc => h c (hp.mem_iff.mpr hc)

theorem unbeaten_key {a b : Issue X} (ha : a ∈ flat) (hb : b ∈ flat) (hid : a.id = b.id)
    (hua : Unbeaten flat a) (hub : Unbeaten flat b) : repKey a = repKey b := by
  have hab := hua b hb hid.symm
  have hba := hub a ha hid
  rw [← Bool.not_eq_true, betterRepresentative_ranks a b, not_lt] at hab
  rw [← Bool.not_eq_true, betterRepresentative_ranks b a, not_lt] at hba
  exact le_antisymm hba hab

variable [DecidableEq X]

/-- Members in another order, with a representative that carries the same. -/
theorem foldOver_congr {rep rep' : Issue X} {members members' : List (Issue X)}
    (hp : members.Perm members') (hkey : repKey rep = repKey rep') (hid : rep.id = rep'.id)
    (hsubject : rep.subjectRef = rep'.subjectRef) (hcategory : rep.category = rep'.category)
    (hcarried : carried rep = carried rep')
    (hreads : Names.distinctFrom [] (members.flatMap Issue.requiredReads) =
      Names.distinctFrom [] (members'.flatMap Issue.requiredReads)) :
    foldOver rep members = foldOver rep' members' := by
  simp only [repKey, EmbeddingLike.apply_eq_iff_eq, Prod.mk.injEq, identityFields,
    List.cons.injEq] at hkey
  simp only [carried, Carried.mk.injEq] at hcarried
  have hseverity : rep.severity = rep'.severity := Severity.rank_inj.mp hkey.1
  have hsource : rep.source = rep'.source := Source.text_inj.mp hkey.2.2.2.2.2.2.1
  have honset := foldIssueOnset_perm hp
  have hdiagnosis := agreedDiagnosis_perm hp
  have hlatest := latest_perm rep'.lastSeen hp
  have hrefs := memberRefs_sorted rep'.subjectRef hp
  have hany : members.any Issue.capacityRelevant = members'.any Issue.capacityRelevant :=
    hp.any_eq
  have htiming := groupTiming_perm (foldIssueOnset members').coverage hp
  simp only [foldOver, honset, hdiagnosis, hkey, hlatest, hsubject, hrefs, hany, htiming, hreads,
    hseverity, hsource, hcategory, hid, hcarried]

theorem foldGroup_perm (hc : Coherent flat) (ho : OrderFree flat) (hp : flat'.Perm flat)
    (id : String) : foldGroup (bucketOf flat' id) = foldGroup (bucketOf flat id) := by
  have hbp := bucketOf_perm hp id
  cases hb : bucketOf flat id with
  | nil =>
    rw [hb] at hbp
    rw [hbp.eq_nil]
  | cons first rest =>
    cases hb' : bucketOf flat' id with
    | nil =>
      rw [hb, hb'] at hbp
      nomatch hbp.symm.eq_nil
    | cons first' rest' =>
      have hrep := Ranking.best_mem betterRepresentative first rest
      have hrep' := Ranking.best_mem betterRepresentative first' rest'
      rw [← hb, mem_bucketOf] at hrep
      rw [← hb', mem_bucketOf, hp.mem_iff] at hrep'
      have hids := hrep'.2.trans hrep.2.symm
      have hun := best_unbeaten hb
      have hun' := unbeaten_perm hp (best_unbeaten hb')
      have hsame := hc _ hrep'.1 _ hrep.1 hids
      have hchain : ∀ x ∈ first::rest, ∀ y ∈ first::rest,
          distinctReads x <+: distinctReads y ∨ distinctReads y <+: distinctReads x := by
        intro x hx y hy
        rw [← hb, mem_bucketOf] at hx hy
        exact ho.reads x hx.1 y hy.1 (hx.2.trans hy.2.symm)
      rw [hb, hb'] at hbp
      have hchain' : ∀ x ∈ first'::rest', ∀ y ∈ first'::rest',
          distinctReads x <+: distinctReads y ∨ distinctReads y <+: distinctReads x :=
        fun x hx y hy => hchain x (hbp.mem_iff.mp hx) y (hbp.mem_iff.mp hy)
      obtain ⟨m,hm,hreads,hlong⟩ := Names.distinct_chain Issue.requiredReads first rest hchain
      obtain ⟨m',hm',hreads',hlong'⟩ :=
        Names.distinct_chain Issue.requiredReads first' rest' hchain'
      have hlist : distinctReads m' = distinctReads m := by
        have hle := hlong m' (hbp.mem_iff.mp hm')
        have hge := hlong' m (hbp.mem_iff.mpr hm)
        exact hle.eq_of_length (Nat.le_antisymm hle.length_le hge.length_le)
      rw [foldGroup, foldGroup, Option.some_inj]
      apply foldOver_congr hbp (unbeaten_key hrep'.1 hrep.1 hids hun' hun) hids hsame.1 hsame.2
        (ho.best _ hrep'.1 _ hrep.1 hids hun' hun)
      rw [hreads, hreads']
      exact hlist

/-- The groups of two orders of the rows, ranged over in any order. -/
theorem groupRanged_congr {bs bs' : List (Bucket X)}
    (hfold : ∀ id, foldGroup (bucketOf flat' id) = foldGroup (bucketOf flat id))
    (hbs : bs.Perm (buckets flat)) (hbs' : bs'.Perm (buckets flat')) :
    groupRanged bs' = groupRanged bs := by
  have hnodup := groupRanged_nodup hbs
  have hnodup' := groupRanged_nodup hbs'
  have hperm : (bs'.filterMap fun b => foldGroup b.members).Perm
      (bs.filterMap fun b => foldGroup b.members) := by
    rw [List.perm_ext_iff_of_nodup hnodup' hnodup]
    intro g
    have hg := mem_groupRanged hbs (g := g)
    have hg' := mem_groupRanged hbs' (g := g)
    rw [groupRanged, (Ranking.sorted_perm _).mem_iff] at hg hg'
    rw [hg, hg', hfold]
  apply Ranking.sorted_eq lessIssue_ranks hperm
  intro a ha b hb hkey
  have hmem : ∀ g ∈ bs'.filterMap fun b => foldGroup b.members,
      foldGroup (bucketOf flat' g.id) = some g := by
    intro g hg
    rw [← mem_groupRanged hbs', groupRanged, (Ranking.sorted_perm _).mem_iff]
    exact hg
  have hga := hmem a ha
  have hgb := hmem b hb
  rw [sortKey_id hkey, hgb, Option.some_inj] at hga
  exact hga.symm

end Symmetric

section Needed

variable [DecidableEq X] {flat : List (Issue X)}

/-- Any row can be the first of its bucket. -/
theorem bucketOf_moved {a : Issue X} :
    bucketOf (a::flat.erase a) a.id = a::bucketOf (flat.erase a) a.id :=
  List.filter_cons_of_pos (by simp)

theorem same_groups
    (h : ∀ flat' out out', flat'.Perm flat → GroupIssues flat out → GroupIssues flat' out' →
      out' = out) {flat' : List (Issue X)} (hp : flat'.Perm flat) {a : Issue X} (ha : a ∈ flat) :
    foldGroup (bucketOf flat' a.id) = foldGroup (bucketOf flat a.id) := by
  have heq := h flat' _ _ hp ⟨_,.refl _,rfl⟩ ⟨_,.refl _,rfl⟩
  cases hb : bucketOf flat' a.id with
  | nil =>
    have hmem : a ∈ bucketOf flat' a.id := mem_bucketOf.mpr ⟨hp.mem_iff.mpr ha,rfl⟩
    rw [hb] at hmem
    nomatch hmem
  | cons first rest =>
    rw [foldGroup]
    have hg : foldGroup (bucketOf flat' a.id) =
        some (foldOver (Ranking.best betterRepresentative first rest) (first::rest)) := by
      rw [hb, foldGroup]
    have hid := (foldGroup_id hg).1
    rw [← hid] at hg
    have hin := (mem_groupRanged (.refl (buckets flat'))).mpr hg
    rw [heq, mem_groupRanged (.refl (buckets flat)), hid] at hin
    exact hin.symm

/-- The group of an unbeaten row that comes first. -/
theorem foldGroup_first {a : Issue X} {rest : List (Issue X)}
    (hmax : ∀ x ∈ rest, betterRepresentative x a = false) :
    foldGroup (a::rest) = some (foldOver a (a::rest)) := by
  rw [foldGroup, Ranking.best_first betterRepresentative_ranks]
  intro x hx
  rw [← not_lt, ← betterRepresentative_ranks a x, Bool.not_eq_true]
  exact hmax x hx

theorem reads_first (a : Issue X) (rest : List (Issue X)) :
    ∃ g, foldGroup (a::rest) = some g ∧ distinctReads a <+: g.requiredReads := by
  refine ⟨_,rfl,?_⟩
  rw [foldOver, List.flatMap_cons, Names.distinctFrom_append]
  exact List.prefix_append _ _

/-- Grouping does not depend on the order of the rows exactly when the rows are order free. -/
theorem grouping_order_free (flat : List (Issue X)) (hc : Coherent flat) :
    (∀ flat' out out', flat'.Perm flat → GroupIssues flat out → GroupIssues flat' out' →
      out' = out) ↔ OrderFree flat := by
  constructor
  · intro h
    have hfirst : ∀ a ∈ flat, foldGroup (a::bucketOf (flat.erase a) a.id) =
        foldGroup (bucketOf flat a.id) := by
      intro a ha
      rw [← bucketOf_moved]
      exact same_groups h (List.perm_cons_erase ha).symm ha
    constructor
    · intro a ha b hb hid
      obtain ⟨g,hg,hread⟩ := reads_first a (bucketOf (flat.erase a) a.id)
      obtain ⟨g',hg',hread'⟩ := reads_first b (bucketOf (flat.erase b) b.id)
      rw [hfirst a ha] at hg
      rw [hfirst b hb, ← hid, hg, Option.some_inj] at hg'
      rw [← hg'] at hread'
      exact List.prefix_or_prefix_of_prefix hread hread'
    · intro a ha b hb hid hua hub
      have hrest : ∀ c ∈ flat, Unbeaten flat c →
          ∀ x ∈ bucketOf (flat.erase c) c.id, betterRepresentative x c = false := by
        intro c _ hc x hx
        rw [mem_bucketOf] at hx
        exact hc x (List.mem_of_mem_erase hx.1) hx.2
      have hga := foldGroup_first (hrest a ha hua)
      have hgb := foldGroup_first (hrest b hb hub)
      rw [hfirst a ha] at hga
      rw [hfirst b hb, ← hid, hga, Option.some_inj] at hgb
      have hcarried : carried (foldOver a _) = carried (foldOver b _) := congrArg carried hgb
      exact hcarried
  · intro ho flat' out out' hp hout hout'
    obtain ⟨bs,hbs,rfl⟩ := hout
    obtain ⟨bs',hbs',rfl⟩ := hout'
    exact groupRanged_congr (foldGroup_perm hc ho hp) hbs hbs'

end Needed

/-! Two rows of one Deployment, from its pods `web-1` and `web-2`. -/

/-- A pod of the Deployment `web`, whose message was cut from `raw`. -/
def podRow (name raw : String) : Issue Empty :=
  { severity := .critical, source := .problem, category := .rbacForbidden
    id := "shop/web/rbac_forbidden", kind := "Pod", ns := "shop", name := name
    owner := { group := "apps", kind := "Deployment", ns := "shop", name := "web" }
    reason := "RBACForbidden", message := "forbidden", rawMessage := raw, lastSeen := 7 }

theorem grouping_order_free_pods : OrderFree [podRow "web-1" "a", podRow "web-2" "b"] ∧
    ∀ flat' out out', flat'.Perm [podRow "web-1" "a", podRow "web-2" "b"] →
      GroupIssues [podRow "web-1" "a", podRow "web-2" "b"] out → GroupIssues flat' out' →
      out' = out := by
  have hfree : OrderFree [podRow "web-1" "a", podRow "web-2" "b"] := by
    constructor
    · decide +kernel
    · unfold Unbeaten
      decide +kernel
  refine ⟨hfree,(grouping_order_free [podRow "web-1" "a", podRow "web-2" "b"] ?_).mpr hfree⟩
  unfold Coherent
  decide +kernel

/-- One pod reported twice: the first report's raw message is the group's. -/
theorem grouping_takes_first : ¬∀ flat : List (Issue Empty), Coherent flat →
    ∀ flat' out out', flat'.Perm flat → GroupIssues flat out → GroupIssues flat' out' →
      out' = out := by
  intro h
  have hc : Coherent [podRow "web-1" "a", podRow "web-1" "b"] := by
    unfold Coherent
    decide +kernel
  have hsame := h _ hc [podRow "web-1" "b", podRow "web-1" "a"] _ _ (.swap _ _ _)
    ⟨_,.refl _,rfl⟩ ⟨_,.refl _,rfl⟩
  revert hsame
  decide +kernel

end Radar.Issues
