import Radar.Policy.Findings

/-!
# The findings index is exact

Under a subject the index holds each finding once, with the groups it was seen
in, and under a policy what the subjects hold of it. The reports may come in
any order.
-/

set_option autoImplicit false

namespace Radar.PolicyFindings

section Collapse

theorem mem_mergeGroups {a b : List String} {g : String} :
    g ∈ mergeGroups a b ↔ g ∈ a ∨ g ∈ b := by
  rw [mergeGroups, Names.mem_sorted]
  induction b generalizing a with
  | nil => simp
  | cons x b ih =>
    rw [List.foldl_cons, ih, List.mem_cons]
    split_ifs with hx
    · grind
    · rw [List.mem_append, List.mem_singleton, or_assoc]

theorem mergeGroups_strict {a b : List String} (ha : a.Nodup) :
    (mergeGroups a b).Pairwise (· < ·) := by
  apply Names.sorted_strict
  induction b generalizing a with
  | nil => exact ha
  | cons x b ih =>
    rw [List.foldl_cons]
    apply ih
    split_ifs with hx
    · exact ha
    · rw [List.nodup_append]
      refine ⟨ha,List.nodup_singleton x,fun y hy z hz => ?_⟩
      rw [List.mem_singleton.mp hz]
      exact fun hyx => hx (hyx ▸ hy)

/-- Every finding of the list once, with the groups it was seen in. -/
structure Collapsed (findings out : List SourcedFinding) : Prop where
  nodup : (out.map SourcedFinding.finding).Nodup
  mem : ∀ f, f ∈ out.map SourcedFinding.finding ↔ f ∈ findings.map SourcedFinding.finding
  strict : ∀ o ∈ out, o.groups.Pairwise (· < ·)
  groups : ∀ o ∈ out, ∀ g, g ∈ o.groups ↔
    ∃ sf ∈ findings, sf.finding = o.finding ∧ g ∈ sf.groups

theorem Collapsed.step {findings out : List SourcedFinding} (h : Collapsed findings out)
    {sf : SourcedFinding} (hsf : sf.groups.Pairwise (· < ·)) :
    Collapsed (findings++[sf]) (collapse out sf) := by
  unfold collapse
  split_ifs with hin
  · have hfindings : (out.map fun o => if o.finding = sf.finding then
        { o with groups := mergeGroups o.groups sf.groups } else o).map SourcedFinding.finding =
          out.map SourcedFinding.finding := by
      rw [List.map_map]
      apply List.map_congr_left
      intro o _
      show (if _ then _ else _ : SourcedFinding).finding = _
      split_ifs <;> rfl
    refine ⟨by rw [hfindings]; exact h.nodup,fun f => ?_,fun o ho => ?_,fun o ho g => ?_⟩
    · rw [hfindings, h.mem, List.map_append, List.mem_append]
      refine ⟨.inl,fun hf => hf.elim id fun hf => ?_⟩
      rw [List.map_singleton, List.mem_singleton] at hf
      exact hf ▸ (h.mem _).mp hin
    · obtain ⟨x,hx,rfl⟩ := List.mem_map.mp ho
      split_ifs
      · exact mergeGroups_strict ((h.strict x hx).imp ne_of_lt)
      · exact h.strict x hx
    · obtain ⟨x,hx,rfl⟩ := List.mem_map.mp ho
      simp only [List.mem_append, List.mem_singleton, or_and_right, exists_or, exists_eq_left]
      split_ifs with heq
      · rw [mem_mergeGroups, h.groups x hx]
        exact or_congr_right (by simp [heq])
      · rw [h.groups x hx, or_iff_left fun hsame => heq hsame.1.symm]
  · refine ⟨?_,fun f => ?_,fun o ho => ?_,fun o ho g => ?_⟩
    · rw [List.map_append, List.nodup_append]
      refine ⟨h.nodup,List.nodup_singleton _,fun f hf f' hf' => ?_⟩
      rw [List.mem_singleton.mp hf']
      exact fun heq => hin (heq ▸ hf)
    · rw [List.map_append, List.map_append, List.mem_append, List.mem_append, h.mem]
    · rcases List.mem_append.mp ho with ho | ho
      · exact h.strict o ho
      · exact List.mem_singleton.mp ho ▸ hsf
    · simp only [List.mem_append, List.mem_singleton, or_and_right, exists_or, exists_eq_left]
      rcases List.mem_append.mp ho with ho | ho
      · have hne : sf.finding ≠ o.finding := fun heq => hin (heq ▸ List.mem_map_of_mem ho)
        rw [h.groups o ho, or_iff_left fun hsame => hne hsame.1]
      · obtain rfl := List.mem_singleton.mp ho
        have hnone : ¬∃ x ∈ findings, x.finding = o.finding ∧ g ∈ x.groups := by
          rintro ⟨x,hx,heq,_⟩
          exact hin ((h.mem _).mpr (heq ▸ List.mem_map_of_mem hx))
        rw [or_iff_right hnone]
        exact ⟨fun hg => ⟨rfl,hg⟩,And.right⟩

theorem foldl_collapsed {findings more out : List SourcedFinding} (h : Collapsed findings out)
    (hmore : ∀ sf ∈ more, sf.groups.Pairwise (· < ·)) :
    Collapsed (findings++more) (more.foldl collapse out) := by
  induction more generalizing findings out with
  | nil => simpa using h
  | cons sf more ih =>
    rw [List.append_cons]
    exact ih (h.step (hmore sf List.mem_cons_self)) fun x hx => hmore x (List.mem_cons_of_mem sf hx)

theorem Collapsed.perm {findings out out' : List SourcedFinding} (h : Collapsed findings out)
    (hp : out'.Perm out) : Collapsed findings out' where
  nodup := (hp.map _).nodup_iff.mpr h.nodup
  mem f := by rw [(hp.map SourcedFinding.finding).mem_iff, h.mem]
  strict o ho := h.strict o (hp.mem_iff.mp ho)
  groups o ho := h.groups o (hp.mem_iff.mp ho)

variable (c : Choices) {findings : List SourcedFinding}

theorem dedupe_collapsed (h : ∀ sf ∈ findings, sf.groups.Pairwise (· < ·)) :
    Collapsed findings (dedupeFindings c findings) := by
  have hnil : Collapsed [] [] := ⟨List.nodup_nil,by simp,by simp,by simp⟩
  have hfold := foldl_collapsed hnil h
  unfold dedupeFindings
  split_ifs with hshort
  · cases findings with
    | nil => exact hnil
    | cons sf rest =>
      have hone : rest = [] := by
        rw [List.length_cons] at hshort
        exact List.length_eq_zero_iff.mp (by omega)
      rw [hone] at hfold ⊢
      simpa [collapse] using hfold
  · rw [List.nil_append] at hfold
    exact hfold.perm (c.sortFindings.perm _)

theorem dedupe_sorted (findings : List SourcedFinding) :
    (dedupeFindings c findings).Pairwise fun a b => compareFindings a b ≠ .gt := by
  unfold dedupeFindings
  split_ifs with hshort
  · cases findings with
    | nil => exact List.Pairwise.nil
    | cons sf rest =>
      have hone : rest = [] := by
        rw [List.length_cons] at hshort
        exact List.length_eq_zero_iff.mp (by omega)
      rw [hone]
      exact List.pairwise_singleton _ _
  · exact c.sortFindings.sorted _

end Collapse

section Determined

attribute [ext] Subject Finding SourcedFinding

instance : Std.TransCmp compareFindings := inferInstanceAs (Std.TransCmp (compareLex _ _))

instance : Std.TransCmp compareOutcomes := inferInstanceAs (Std.TransCmp (compareLex _ _))

/-- Every field of a finding is compared. -/
theorem compareFindings_eq {a b : SourcedFinding} (h : compareFindings a b = .eq) :
    a.finding = b.finding := by
  unfold compareFindings at h
  simp only [compareLex_eq_eq, compareOn, compare_eq_iff_eq] at h
  exact Finding.ext h.1 h.2.1 h.2.2.1 h.2.2.2.1 h.2.2.2.2.1 h.2.2.2.2.2.1 h.2.2.2.2.2.2

/-- Findings that say the same of the same families are collapsed to the same list. -/
theorem Collapsed.eq_of_sorted {xs ys out out' : List SourcedFinding} (h : Collapsed xs out)
    (h' : Collapsed ys out') (hs : out.Pairwise fun a b => compareFindings a b ≠ .gt)
    (hs' : out'.Pairwise fun a b => compareFindings a b ≠ .gt) (hxy : ∀ sf, sf ∈ xs ↔ sf ∈ ys) :
    out = out' := by
  have hsame : ∀ o ∈ out, ∀ o' ∈ out', o.finding = o'.finding → o = o' := by
    intro o ho o' ho' heq
    have hgroups : o.groups = o'.groups := by
      apply (h.strict o ho).eq_of_mem_iff (h'.strict o' ho')
      intro g
      rw [h.groups o ho, h'.groups o' ho', heq]
      exact exists_congr fun sf => by rw [hxy]
    exact SourcedFinding.ext heq hgroups
  have hfindings : ∀ f,
      f ∈ out.map SourcedFinding.finding ↔ f ∈ out'.map SourcedFinding.finding := by
    intro f
    rw [h.mem, h'.mem, List.mem_map, List.mem_map]
    exact exists_congr fun sf => by rw [hxy]
  have hperm : out.Perm out' := by
    rw [List.perm_ext_iff_of_nodup h.nodup.of_map h'.nodup.of_map]
    intro o
    constructor
    · intro ho
      obtain ⟨o',ho',heq⟩ := List.mem_map.mp ((hfindings _).mp (List.mem_map_of_mem ho))
      rwa [hsame o ho o' ho' heq.symm]
    · intro ho
      obtain ⟨o',ho',heq⟩ := List.mem_map.mp ((hfindings _).mpr (List.mem_map_of_mem ho))
      rwa [← hsame o' ho' o ho heq]
  apply hperm.eq_of_pairwise _ hs hs'
  intro a b ha hb hab hba
  have heq := compareFindings_eq (SortFunc.eq_of_le_of_le hab hba)
  exact hsame a ha b hb heq

end Determined

section Recorded

/-- A report of the family lists a result with this finding, about this subject. -/
def Recorded (reports : List (Option Object)) (s : Subject) (f : Finding) (g : String) : Prop :=
  ∃ report, some report ∈ reports ∧ reportGroup report = g ∧
    ∃ entry ∈ resultsOf report, findingOf entry = f ∧ s ∈ subjectsOf report entry

/-- Kubernetes lets no kind and no namespace hold a slash. -/
structure Subject.Free (s : Subject) : Prop where
  group : '/' ∉ s.group.toList
  kind : '/' ∉ s.kind.toList
  ns : '/' ∉ s.ns.toList

/-- The findings that the reports append under a key. -/
def findingsUnder (reports : List (Option Object)) (key : String) : List SourcedFinding :=
  ((reports.flatMap extractFindings).filter fun p => p.1 = key).map Prod.snd

theorem mem_extractFindings {reports : List (Option Object)} {key : String} {sf : SourcedFinding} :
    (key,sf) ∈ reports.flatMap extractFindings ↔
      ∃ s g, subjectKey s = key ∧ sf.groups = [g] ∧ Recorded reports s sf.finding g := by
  rw [List.mem_flatMap]
  constructor
  · rintro ⟨report,hreport,hin⟩
    cases report with
    | none => cases hin
    | some report =>
      obtain ⟨entry,hentry,hin⟩ := List.mem_flatMap.mp hin
      obtain ⟨s,hs,heq⟩ := List.mem_map.mp hin
      cases heq
      exact ⟨s,reportGroup report,rfl,rfl,report,hreport,rfl,entry,hentry,rfl,hs⟩
  · rintro ⟨s,g,hkey,hg,report,hreport,hgroup,entry,hentry,hfinding,hs⟩
    refine ⟨some report,hreport,List.mem_flatMap.mpr ⟨entry,hentry,List.mem_map.mpr ⟨s,hs,?_⟩⟩⟩
    rw [hkey, hgroup, ← hg, hfinding]

theorem mem_findingsUnder {reports : List (Option Object)} {key : String} {sf : SourcedFinding} :
    sf ∈ findingsUnder reports key ↔
      ∃ s g, subjectKey s = key ∧ sf.groups = [g] ∧ Recorded reports s sf.finding g := by
  rw [← mem_extractFindings, findingsUnder]
  constructor
  · intro hin
    obtain ⟨p,hp,rfl⟩ := List.mem_map.mp hin
    have hkey := List.mem_filter.mp hp
    rw [← of_decide_eq_true hkey.2]
    exact hkey.1
  · intro hin
    exact List.mem_map_of_mem (List.mem_filter.mpr ⟨hin,decide_eq_true rfl⟩)

theorem findingsUnder_strict (reports : List (Option Object)) (key : String) :
    ∀ sf ∈ findingsUnder reports key, sf.groups.Pairwise (· < ·) := by
  intro sf hsf
  obtain ⟨s,g,_,hg,_⟩ := mem_findingsUnder.mp hsf
  rw [hg]
  exact List.pairwise_singleton _ g

end Recorded

section Lookup

variable (c : Choices) {reports : List (Option Object)}

theorem bySubjectOf_nodup : ((bySubjectOf reports).map Prod.fst).Nodup := by
  have h := Grouping.collect_collected Prod.fst (fun _ => ()) (reports.flatMap extractFindings)
  rw [bySubjectOf, List.map_map]
  exact h.nodup

theorem mem_bySubjectOf {key : String} {findings : List SourcedFinding} :
    (key,findings) ∈ bySubjectOf reports ↔
      findings = findingsUnder reports key ∧ findings ≠ [] := by
  have h := Grouping.collect_collected Prod.fst (fun _ => ()) (reports.flatMap extractFindings)
  rw [bySubjectOf, List.mem_map]
  constructor
  · rintro ⟨group,hgroup,heq⟩
    cases heq
    refine ⟨by rw [h.members group hgroup]; rfl,?_⟩
    obtain ⟨p,hp,hkey,_⟩ := h.head group hgroup
    rw [h.members group hgroup, ne_eq, List.map_eq_nil_iff]
    exact List.ne_nil_of_mem (List.mem_filter.mpr ⟨hp,decide_eq_true hkey⟩)
  · rintro ⟨rfl,hne⟩
    obtain ⟨sf,hsf⟩ := List.exists_mem_of_ne_nil _ hne
    obtain ⟨p,hp,rfl⟩ := List.mem_map.mp hsf
    have hkey := List.mem_filter.mp hp
    obtain ⟨group,hgroup,hgk⟩ := h.cover p hkey.1
    refine ⟨group,hgroup,?_⟩
    rw [h.members group hgroup, hgk, of_decide_eq_true hkey.2]
    rfl

theorem bySubject_nodup : ((replace c reports).bySubject.map Prod.fst).Nodup := by
  unfold replace
  rw [List.map_map]
  exact bySubjectOf_nodup

theorem mem_bySubject {key : String} {findings : List SourcedFinding} :
    (key,findings) ∈ (replace c reports).bySubject ↔
      findings = dedupeFindings c (findingsUnder reports key) ∧ findingsUnder reports key ≠ [] := by
  unfold replace
  rw [List.mem_map]
  constructor
  · rintro ⟨p,hp,heq⟩
    cases heq
    obtain ⟨heq,hne⟩ := mem_bySubjectOf.mp hp
    exact ⟨by rw [← heq],heq ▸ hne⟩
  · rintro ⟨rfl,hne⟩
    exact ⟨(key,findingsUnder reports key),mem_bySubjectOf.mpr ⟨rfl,hne⟩,rfl⟩

/-- A subject is answered with the findings under its key. -/
theorem lookup_bySubject (key : String) : ((replace c reports).bySubject.lookup key).getD [] =
    dedupeFindings c (findingsUnder reports key) := by
  have hnodup : ((replace c reports).bySubject.map Prod.fst).Nodup := bySubject_nodup c
  have hlookup := fun v => Grouping.lookup_eq_some_iff hnodup (k := key) (v := v)
  by_cases hnil : findingsUnder reports key = []
  · cases hl : (replace c reports).bySubject.lookup key with
    | none =>
      rw [hnil]
      rfl
    | some findings => exact absurd hnil ((mem_bySubject c).mp ((hlookup findings).mp hl)).2
  · rw [(hlookup _).mpr ((mem_bySubject c).mpr ⟨rfl,hnil⟩)]
    rfl

end Lookup


section Subjects

theorem subjectKey_toList (s : Subject) : (subjectKey s).toList =
    s.group.toList++ '/'::(s.kind.toList++ '/'::(s.ns.toList++ '/'::s.name.toList)) := by
  have hslash : "/".toList = ['/'] := rfl
  simp only [subjectKey, String.toList_append, hslash, List.append_assoc, List.cons_append,
    List.nil_append]

/-- Without slashes in what may hold none, the parts of a key are the subject. -/
theorem parse_subjectKey {s : Subject} (h : s.Free) (hv : s.valid) :
    parseSubjectKey (subjectKey s) = some s := by
  have hvalid : ¬(s.kind.toList = [] ∨ s.name.toList = []) := by
    unfold Subject.valid at hv
    simpa using hv
  simp only [parseSubjectKey, subjectKey_toList, Join.cut_append h.group, Join.cut_append h.kind,
    Join.cut_append h.ns, Option.bind_eq_bind, Option.bind_some, if_neg hvalid,
    String.ofList_toList]

theorem eq_of_parse {key : String} {s : Subject} (h : parseSubjectKey key = some s) :
    s.Free ∧ s.valid ∧ subjectKey s = key := by
  unfold parseSubjectKey at h
  simp only [Option.bind_eq_bind, Option.bind_eq_some_iff, Prod.exists] at h
  obtain ⟨group,rest,hgroup,kind,rest',hkind,ns,name,hns,hs⟩ := h
  split_ifs at hs with hempty
  cases hs
  obtain ⟨hkey,hgroupFree⟩ := Join.cut_eq_some hgroup
  obtain ⟨rfl,hkindFree⟩ := Join.cut_eq_some hkind
  obtain ⟨rfl,hnsFree⟩ := Join.cut_eq_some hns
  rw [not_or] at hempty
  refine ⟨⟨?_,?_,?_⟩,?_,?_⟩
  · simpa using hgroupFree
  · simpa using hkindFree
  · simpa using hnsFree
  · unfold Subject.valid
    simpa using hempty
  · apply String.ext
    rw [subjectKey_toList, hkey]
    simp only [String.toList_ofList]

theorem subjectKey_inj {s t : Subject} (hs : s.Free) (ht : t.Free)
    (h : subjectKey s = subjectKey t) : s = t := by
  have hlists := congrArg String.toList h
  rw [subjectKey_toList, subjectKey_toList] at hlists
  obtain ⟨hgroup,hrest⟩ := Join.append_sep_inj hs.group ht.group hlists
  obtain ⟨hkind,hrest⟩ := Join.append_sep_inj hs.kind ht.kind hrest
  obtain ⟨hns,hname⟩ := Join.append_sep_inj hs.ns ht.ns hrest
  exact Subject.ext (String.ext hgroup) (String.ext hkind) (String.ext hns) (String.ext hname)

theorem subjectsOf_valid {report entry : Object} {s : Subject} (h : s ∈ subjectsOf report entry) :
    s.valid := by
  have hns : ∀ (t : Subject) (ns : String), t.valid → (t.inNamespace ns).valid := by
    intro t ns ht
    unfold Subject.inNamespace
    split_ifs
    · exact ht
    · exact ht
  unfold subjectsOf at h
  extract_lets validSubjects at h
  by_cases hnone : resultResources entry = none ∨ validSubjects = []
  · rw [if_pos hnone] at h
    by_cases hscope : (reportScope report).valid = true
    · rw [if_pos hscope, List.mem_singleton] at h
      exact h ▸ hns _ _ hscope
    · rw [if_neg hscope] at h
      cases h
  · rw [if_neg hnone] at h
    obtain ⟨t,ht,rfl⟩ := List.mem_map.mp h
    exact hns t _ (List.mem_filter.mp ht).2

end Subjects

section Exact

variable (c : Choices) {reports : List (Option Object)}

/-- No report names a subject whose kind or namespace holds a slash. -/
def ReportsFree (reports : List (Option Object)) : Prop :=
  ∀ s f g, Recorded reports s f g → s.Free

/-- Every finding once for a subject, in the order of all its fields, with the sorted families
that the finding was read from. -/
theorem sourced_exact (hfree : ReportsFree reports) {s : Subject} (hs : s.Free) :
    let outcomes := (replace c reports).sourcedFindingsFor s
    (outcomes.map PolicyOutcome.finding).Nodup ∧
    (∀ o ∈ outcomes, o.subject = s ∧ o.groups.Pairwise (· < ·) ∧
      ∀ g, g ∈ o.groups ↔ Recorded reports s o.finding g) ∧
    (∀ f, f ∈ outcomes.map PolicyOutcome.finding ↔ ∃ g, Recorded reports s f g) ∧
    outcomes.Pairwise fun a b =>
      compareFindings ⟨a.finding,a.groups⟩ ⟨b.finding,b.groups⟩ ≠ .gt := by
  have hrecorded : ∀ f g, (∃ sf ∈ findingsUnder reports (subjectKey s),
      sf.finding = f ∧ g ∈ sf.groups) ↔ Recorded reports s f g := by
    intro f g
    constructor
    · rintro ⟨sf,hsf,rfl,hg⟩
      obtain ⟨t,g',hkey,hgroups,hrec⟩ := mem_findingsUnder.mp hsf
      rw [hgroups, List.mem_singleton] at hg
      rw [hg, ← subjectKey_inj (hfree _ _ _ hrec) hs hkey]
      exact hrec
    · intro hrec
      exact ⟨⟨f,[g]⟩,mem_findingsUnder.mpr ⟨s,g,rfl,rfl,hrec⟩,rfl,List.mem_singleton_self g⟩
  have h := dedupe_collapsed c (findingsUnder_strict reports (subjectKey s))
  have hsorted := dedupe_sorted c (findingsUnder reports (subjectKey s))
  unfold Index.sourcedFindingsFor
  rw [lookup_bySubject]
  refine ⟨?_,?_,?_,?_⟩
  · rw [List.map_map]
    exact h.nodup
  · intro o ho
    obtain ⟨sf,hsf,rfl⟩ := List.mem_map.mp ho
    refine ⟨rfl,h.strict sf hsf,fun g => ?_⟩
    rw [← hrecorded]
    exact h.groups sf hsf g
  · intro f
    rw [List.map_map]
    refine (h.mem f).trans ?_
    rw [List.mem_map]
    constructor
    · rintro ⟨sf,hsf,rfl⟩
      obtain ⟨_,g,_,hg,_⟩ := mem_findingsUnder.mp hsf
      exact ⟨g,(hrecorded _ g).mp ⟨sf,hsf,rfl,hg ▸ List.mem_singleton_self g⟩⟩
    · rintro ⟨g,hrec⟩
      obtain ⟨sf,hsf,heq,_⟩ := (hrecorded f g).mpr hrec
      exact ⟨sf,hsf,heq⟩
  · rw [List.pairwise_map]
    exact hsorted

/-- A cluster that serves a result in both families. -/
def migrated (family : String) : Option Object :=
  some [("apiVersion",.str (family++"/v1alpha2")),("results",.arr [.obj
    [("policy",.str "require-labels"),("result",.str "fail"),("resources",.arr [.obj
      [("apiVersion",.str "v1"),("kind",.str "Pod"),("namespace",.str "web"),
        ("name",.str "api")]])]])]

def inOrder : Choices where
  sortFindings := SortFunc.stable compareFindings
  sortOutcomes := SortFunc.stable compareOutcomes
  range := id
  range_perm m := List.Perm.refl m

theorem migrated_free :
    ReportsFree [migrated "wgpolicyk8s.io",migrated "openreports.io"] := by
  rintro s f g ⟨report,hreport,_,entry,hentry,_,hs⟩
  have hall : ([migrated "wgpolicyk8s.io",migrated "openreports.io"].filterMap id).all
      (fun report => (resultsOf report).all fun entry => (subjectsOf report entry).all fun s =>
        s = ⟨"","Pod","web","api"⟩) = true := by decide
  rw [List.all_eq_true] at hall
  have hone := hall report (List.mem_filterMap.mpr ⟨some report,hreport,rfl⟩)
  rw [List.all_eq_true] at hone
  have hsub := hone entry hentry
  rw [List.all_eq_true] at hsub
  rw [of_decide_eq_true (hsub s hs)]
  exact ⟨by decide,by decide,by decide⟩

theorem sourced_exact_migrated :
    ∃ o ∈ (replace inOrder [migrated "wgpolicyk8s.io",migrated "openreports.io"]).sourcedFindingsFor
      ⟨"","Pod","web","api"⟩, o.groups = ["openreports.io","wgpolicyk8s.io"] := by
  have h := sourced_exact inOrder migrated_free (s := ⟨"","Pod","web","api"⟩)
    ⟨by decide,by decide,by decide⟩
  have hrecorded : ∀ g, Recorded [migrated "wgpolicyk8s.io",migrated "openreports.io"]
      ⟨"","Pod","web","api"⟩ ⟨"require-labels","","fail","","","",""⟩ g ↔
        g = "openreports.io" ∨ g = "wgpolicyk8s.io" := by
    intro g
    have hold : ∀ report, migrated "wgpolicyk8s.io" = some report →
        reportGroup report = "wgpolicyk8s.io" := by
      intro report hreport
      cases hreport
      decide
    have hnew : ∀ report, migrated "openreports.io" = some report →
        reportGroup report = "openreports.io" := by
      intro report hreport
      cases hreport
      decide
    constructor
    · rintro ⟨report,hreport,hg,_⟩
      rw [List.mem_cons, List.mem_singleton] at hreport
      rw [← hg]
      exact hreport.symm.imp (fun h => hnew report h.symm) fun h => hold report h.symm
    · rintro (rfl | rfl)
      · exact ⟨_,List.mem_cons_of_mem _ List.mem_cons_self,by decide,_,List.mem_cons_self,rfl,
          List.mem_cons_self⟩
      · exact ⟨_,List.mem_cons_self,by decide,_,List.mem_cons_self,rfl,List.mem_cons_self⟩
  obtain ⟨o,ho,hfinding⟩ := List.mem_map.mp ((h.2.2.1 _).mpr ⟨_,(hrecorded _).mpr (.inl rfl)⟩)
  refine ⟨o,ho,?_⟩
  apply (h.2.1 o ho).2.1.eq_of_mem_iff (by decide)
  intro g
  rw [(h.2.1 o ho).2.2 g, hfinding, hrecorded]
  simp

theorem mem_outcomesUnder {policy : String} {p : String × List SourcedFinding} {o : PolicyOutcome} :
    o ∈ outcomesUnder policy p ↔ parseSubjectKey p.1 = some o.subject ∧
      o.finding.policy ≠ "" ∧ o.finding.policy = policy ∧ ⟨o.finding,o.groups⟩ ∈ p.2 := by
  unfold outcomesUnder
  cases hparse : parseSubjectKey p.1 with
  | none => simp
  | some subject =>
    simp only [List.mem_map, List.mem_filter, decide_eq_true_eq, Option.some.injEq]
    constructor
    · rintro ⟨sf,⟨hsf,hpolicy⟩,rfl⟩
      exact ⟨rfl,hpolicy.1,hpolicy.2,hsf⟩
    · rintro ⟨rfl,hne,hpolicy,hsf⟩
      exact ⟨⟨o.finding,o.groups⟩,⟨hsf,hne,hpolicy⟩,rfl⟩

theorem mem_sourced {s : Subject} {o : PolicyOutcome} :
    o ∈ (replace c reports).sourcedFindingsFor s ↔ o.subject = s ∧
      ⟨o.finding,o.groups⟩ ∈ dedupeFindings c (findingsUnder reports (subjectKey s)) := by
  unfold Index.sourcedFindingsFor
  rw [lookup_bySubject, List.mem_map]
  constructor
  · rintro ⟨sf,hsf,rfl⟩
    exact ⟨rfl,hsf⟩
  · rintro ⟨rfl,hsf⟩
    exact ⟨_,hsf,rfl⟩

theorem outcomesUnder_nodup {policy : String} {p : String × List SourcedFinding}
    (hp : p ∈ (replace c reports).bySubject) :
    ((outcomesUnder policy p).map fun o => (o.subject,o.finding)).Nodup := by
  unfold outcomesUnder
  cases hparse : parseSubjectKey p.1 with
  | none => exact List.nodup_nil
  | some subject =>
    have hcollapsed := dedupe_collapsed c (findingsUnder_strict reports p.1)
    rw [← ((mem_bySubject c).mp hp).1] at hcollapsed
    rw [List.map_map]
    apply List.Nodup.of_map Prod.snd
    rw [List.map_map]
    exact (List.filter_sublist.map SourcedFinding.finding).nodup hcollapsed.nodup

theorem outcomes_nodup (policy : String) :
    (((replace c reports).outcomesForPolicy policy).map fun o => (o.subject,o.finding)).Nodup := by
  unfold Index.outcomesForPolicy
  split_ifs with hp
  · exact List.nodup_nil
  have hrange := c.range_perm (replace c reports).bySubject
  have hkeys : ((c.range (replace c reports).bySubject).map Prod.fst).Nodup :=
    (hrange.map _).nodup_iff.mpr (bySubject_nodup c)
  apply ((c.sortOutcomes.perm _).map _).nodup_iff.mpr
  rw [List.map_flatMap, List.nodup_flatMap]
  refine ⟨fun p hp => outcomesUnder_nodup c (hrange.mem_iff.mp hp),?_⟩
  rw [List.Nodup, List.pairwise_map] at hkeys
  apply hkeys.imp
  intro p q hne x hx hy
  obtain ⟨o,ho,rfl⟩ := List.mem_map.mp hx
  obtain ⟨o',ho',heq⟩ := List.mem_map.mp hy
  have hsubject := congrArg Prod.fst heq
  apply hne
  rw [← (eq_of_parse (mem_outcomesUnder.mp ho).1).2.2,
    ← (eq_of_parse (mem_outcomesUnder.mp ho').1).2.2]
  exact congrArg subjectKey hsubject.symm

theorem mem_outcomes {policy : String} {o : PolicyOutcome} :
    o ∈ (replace c reports).outcomesForPolicy policy ↔ o.subject.Free ∧ o.subject.valid ∧
      policy ≠ "" ∧ o.finding.policy = policy ∧
      o ∈ (replace c reports).sourcedFindingsFor o.subject := by
  unfold Index.outcomesForPolicy
  split_ifs with hp
  · simp [hp]
  show o ∈ c.sortOutcomes.run _ ↔ _
  rw [c.sortOutcomes.mem_run, List.mem_flatMap, mem_sourced]
  constructor
  · rintro ⟨p,hin,ho⟩
    obtain ⟨hparse,_,hpolicy,hsf⟩ := mem_outcomesUnder.mp ho
    obtain ⟨hfree,hvalid,hkey⟩ := eq_of_parse hparse
    have hfindings := (mem_bySubject c).mp ((c.range_perm _).mem_iff.mp hin)
    rw [hfindings.1, ← hkey] at hsf
    exact ⟨hfree,hvalid,hp,hpolicy,rfl,hsf⟩
  · rintro ⟨hfree,hvalid,_,hpolicy,_,hsf⟩
    have hcollapsed := dedupe_collapsed c
      (findingsUnder_strict reports (subjectKey o.subject))
    have hne : findingsUnder reports (subjectKey o.subject) ≠ [] := by
      intro hnil
      have hin := (hcollapsed.mem o.finding).mp (List.mem_map_of_mem hsf)
      rw [hnil] at hin
      cases hin
    refine ⟨_,(c.range_perm _).mem_iff.mpr ((mem_bySubject c).mpr ⟨rfl,hne⟩),?_⟩
    exact mem_outcomesUnder.mpr ⟨parse_subjectKey hfree hvalid,hpolicy ▸ hp,hpolicy,hsf⟩

/-- What is listed for a policy is what its subjects list of it, each once. -/
theorem outcomes_exact (reports : List (Option Object)) (policy : String) :
    let outcomes := (replace c reports).outcomesForPolicy policy
    (outcomes.map fun o => (o.subject,o.finding)).Nodup ∧
    (∀ o, o ∈ outcomes ↔ o.subject.Free ∧ o.subject.valid ∧ policy ≠ "" ∧
      o.finding.policy = policy ∧ o ∈ (replace c reports).sourcedFindingsFor o.subject) ∧
    outcomes.Pairwise fun a b => compareOutcomes a b ≠ .gt := by
  refine ⟨outcomes_nodup c policy,fun o => mem_outcomes c,?_⟩
  unfold Index.outcomesForPolicy
  split_ifs
  · exact List.Pairwise.nil
  · exact c.sortOutcomes.sorted _

end Exact

section Order

variable (c c' : Choices) {reports reports' : List (Option Object)}

theorem mem_findingsUnder_congr (h : ∀ r, r ∈ reports ↔ r ∈ reports') (key : String)
    (sf : SourcedFinding) : sf ∈ findingsUnder reports key ↔ sf ∈ findingsUnder reports' key := by
  rw [mem_findingsUnder, mem_findingsUnder]
  exact exists_congr fun s => exists_congr fun g => and_congr_right' (and_congr_right'
    (exists_congr fun report => and_congr_left' (h _)))

theorem dedupe_congr (h : ∀ r, r ∈ reports ↔ r ∈ reports') (key : String) :
    dedupeFindings c (findingsUnder reports key) = dedupeFindings c' (findingsUnder reports' key) :=
  (dedupe_collapsed c (findingsUnder_strict _ _)).eq_of_sorted
    (dedupe_collapsed c' (findingsUnder_strict _ _))
    (dedupe_sorted c _) (dedupe_sorted c' _) (mem_findingsUnder_congr h key)

/-- The order of the reports and of the map, a report that comes twice and how a sort treats ties
show in no subject's findings, and in a policy's outcomes only as the order of some. -/
theorem replace_order_free (h : ∀ r, r ∈ reports ↔ r ∈ reports') :
    (∀ s, (replace c reports).sourcedFindingsFor s = (replace c' reports').sourcedFindingsFor s) ∧
    ∀ policy, ((replace c reports).outcomesForPolicy policy).Perm
      ((replace c' reports').outcomesForPolicy policy) := by
  have hsourced : ∀ s,
      (replace c reports).sourcedFindingsFor s = (replace c' reports').sourcedFindingsFor s := by
    intro s
    unfold Index.sourcedFindingsFor
    rw [lookup_bySubject, lookup_bySubject, dedupe_congr c c' h]
  refine ⟨hsourced,fun policy => ?_⟩
  rw [List.perm_ext_iff_of_nodup (outcomes_nodup c policy).of_map (outcomes_nodup c' policy).of_map]
  intro o
  rw [mem_outcomes, mem_outcomes, hsourced]

/-- The families may be read the other way round. -/
theorem replace_order_free_migrated :
    (replace inOrder [migrated "wgpolicyk8s.io",migrated "openreports.io"]).sourcedFindingsFor
        ⟨"","Pod","web","api"⟩ =
      (replace inOrder [migrated "openreports.io",migrated "wgpolicyk8s.io"]).sourcedFindingsFor
        ⟨"","Pod","web","api"⟩ :=
  (replace_order_free inOrder inOrder fun r => (List.Perm.swap _ _ []).mem_iff).1 _

end Order

end Radar.PolicyFindings
