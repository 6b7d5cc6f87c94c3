import Radar.Base.LastWrite
import Radar.Netpol.Cilium

/-!
# When the answer about a Cilium policy can be trusted

The completed labels of a pod say what Radar cannot know. An answer is right
for all of them, unless a selector names one label in two ways and names two
values for it: of these one is kept, and which one the order of a map decides.
-/

set_option autoImplicit false

namespace Radar.Cilium
open Radar.Netpol

section Semantics

inductive Requirement where
  | label (key value : String)
  | expression (r : LabelSelectorRequirement)

def requirements (sel : LabelSelector) : List Requirement :=
  (sel.matchLabels.map fun p => .label p.1 p.2)++sel.matchExpressions.map .expression

/-- Which requirements are well formed, and what they ask of a set of labels. -/
structure Meaning where
  valid : Requirement → Prop
  holds : Requirement → Labels → Prop

/-- The selector of the library is the conjunction of its requirements. -/
structure Lawful (lib : Lib) (means : Meaning) : Prop where
  accepts : ∀ sel, (∃ m, lib.asSelector sel = .ok m) ↔ ∀ r ∈ requirements sel, means.valid r
  matching : ∀ sel m, lib.asSelector sel = .ok m →
    ∀ l, m l = true ↔ ∀ r ∈ requirements sel, means.holds r l
  label : ∀ key value l, means.holds (.label key value) l ↔ l key = some value
  expression : ∀ r (l l' : Labels), l r.key = l' r.key →
    means.holds (.expression r) l → means.holds (.expression r) l'

/-- What Radar does not know about a pod: labels of other sources, the cluster, and the labels of
a namespace it could not read. -/
structure Completion (id : CiliumIdentity) where
  labels : Labels
  others : String → Labels
  agrees : ∀ key, known id key = true → labels key = id.set key

variable {id : CiliumIdentity}

def Completion.of (c : Completion id) (source : Option String) : Labels :=
  if isPodSource source then c.labels else c.others (source.getD "")

variable (lib : Lib) (means : Meaning)

def labelHolds (c : Completion id) (entry : String × Value) : Prop :=
  ∃ s, entry.2 = .str s ∧
    means.holds (.label (cutSource entry.1).2 s) (c.of (cutSource entry.1).1)

def expressionHolds (c : Completion id) (raw : Value) : Prop :=
  ∃ e, raw = .obj e ∧
    means.holds (.expression (requirementOf lib (cutSource (lib.text (e.lookup "key"))).2 e))
      (c.of (cutSource (lib.text (e.lookup "key"))).1)

/-- All requirements of the selector hold. -/
def Holds (c : Completion id) (selMap : Fields) : Prop :=
  (∀ entry ∈ labelsOf selMap, labelHolds means c entry) ∧
    ∀ raw ∈ expressionsOf selMap, expressionHolds lib means c raw

/-- The endpoint selector of a spec that covers the direction. -/
def selectorOf (covers : Fields → Bool) (spec : Fields) : Option Fields :=
  if covers spec then nestedMap spec "endpointSelector" else none

def selectorsOf (obj : Fields) (covers : Fields → Bool) : List Fields :=
  (specsOf obj).filterMap (selectorOf covers)

def Selects (c : Completion id) (obj : Fields) (covers : Fields → Bool) : Prop :=
  ∃ selMap ∈ selectorsOf obj covers, Holds lib means c selMap

end Semantics

section Keys

variable {id : CiliumIdentity}

theorem selectorKey_ok {raw key : String} :
    ciliumSelectorKey raw id = .ok key ↔
      isPodSource (cutSource raw).1 = true ∧ known id key = true ∧ (cutSource raw).2 = key := by
  unfold ciliumSelectorKey known
  simp only
  split_ifs with hsource hcluster hns
  · simp only [false_iff, not_and]
    intro h
    simp [h] at hsource
  · simp only [false_iff, not_and]
    rintro _ hknown rfl
    simp [hcluster] at hknown
  · simp only [false_iff, not_and]
    rintro _ hknown rfl
    simp [hns.1, hns.2] at hknown
  · rw [Except.ok.injEq]
    constructor
    · rintro rfl
      refine ⟨by simpa using hsource,?_,rfl⟩
      by_cases hp : namespaceLabelPrefix.toList <+: (cutSource raw).2.toList
      · have hknown : id.nsKnown = true := by simpa [hp] using hns
        simp [hcluster, hknown]
      · simp [hcluster, hp]
    · exact fun h => h.2.2

theorem selectorKey_error {raw why : String} (h : ciliumSelectorKey raw id = .error why) :
    why ≠ "" := by
  unfold ciliumSelectorKey at h
  simp only at h
  split_ifs at h
  · cases h
    intro hempty
    simpa using congrArg String.toList hempty
  · cases h
    decide
  · cases h
    decide

end Keys

section Loops

variable {lib : Lib} {id : CiliumIdentity}

/-- The labels that Radar can answer for, under their own keys. -/
def answered (id : CiliumIdentity) (entries : Fields) : List (String × String) :=
  entries.filterMap fun entry =>
    match entry.2, ciliumSelectorKey entry.1 id with
    | .str s, .ok key => some (key,s)
    | _, _ => none

theorem mem_answered {entries : Fields} {p : String × String} :
    p ∈ answered id entries ↔
      ∃ entry ∈ entries, entry.2 = .str p.2 ∧ ciliumSelectorKey entry.1 id = .ok p.1 := by
  unfold answered
  rw [List.mem_filterMap]
  constructor
  · rintro ⟨entry,hentry,h⟩
    split at h
    · next s key hs hkey =>
      obtain rfl := Option.some.inj h
      exact ⟨entry,hentry,hs,hkey⟩
    · nomatch h
  · rintro ⟨entry,hentry,hs,hkey⟩
    refine ⟨entry,hentry,?_⟩
    rw [hs, hkey]

theorem leaveOpen_sel (r : Reading) (why : String) : (r.leaveOpen why).sel = r.sel := by
  unfold Reading.leaveOpen
  split_ifs <;> rfl

theorem leaveOpen_why (r : Reading) {why : String} (h : why ≠ "") :
    (r.leaveOpen why).openWhy ≠ "" := by
  unfold Reading.leaveOpen
  split_ifs with hr
  · exact h
  · exact hr

theorem last_self {l : List (String × String)} {p : String × String} (h : p ∈ l) :
    ∃ s, LastWrite.last Prod.fst p.1 l = some (p.1,s) := by
  have hexists : ∃ q, LastWrite.last Prod.fst p.1 l = some q := LastWrite.exists_last h
  obtain ⟨q,hlast⟩ := hexists
  exact ⟨q.2,by rw [hlast, ← (LastWrite.last_mem hlast).2]⟩

/-- What the first loop has read: of the values under one key the last one. -/
structure LabelsRead (id : CiliumIdentity) (entries : Fields) (r r' : Reading) : Prop where
  texts : ∀ entry ∈ entries, ∃ s, entry.2 = .str s
  expressions : r'.sel.matchExpressions = r.sel.matchExpressions
  labels : ∀ p, p ∈ r'.sel.matchLabels ↔
    LastWrite.last Prod.fst p.1 (answered id entries) = some p ∨
      LastWrite.last Prod.fst p.1 (answered id entries) = none ∧ p ∈ r.sel.matchLabels
  decided : r'.openWhy = "" ↔
    r.openWhy = "" ∧ ∀ entry ∈ entries, ∃ key, ciliumSelectorKey entry.1 id = .ok key

theorem answered_cons_ok {entry : String × Value} {entries : Fields} {s key : String}
    (hs : entry.2 = .str s) (hkey : ciliumSelectorKey entry.1 id = .ok key) :
    answered id (entry::entries) = (key,s)::answered id entries := by
  rw [answered, List.filterMap_cons, hs, hkey]
  rfl

theorem answered_cons_error {entry : String × Value} {entries : Fields} {why : String}
    (hkey : ciliumSelectorKey entry.1 id = .error why) :
    answered id (entry::entries) = answered id entries := by
  rw [answered, List.filterMap_cons, hkey]
  cases entry.2 <;> rfl

theorem readLabels_spec {entries : Fields} {r r' : Reading}
    (h : entries.foldlM (readLabel id) r = some r') : LabelsRead id entries r r' := by
  induction entries generalizing r with
  | nil =>
    obtain rfl := Option.some.inj h
    exact ⟨by simp,rfl,by simp [answered],by simp⟩
  | cons entry entries ih =>
    rw [List.foldlM_cons] at h
    obtain ⟨r₁,hread,hrest⟩ := Option.bind_eq_some_iff.mp h
    obtain ⟨htexts,hexpr,hlabels,hdecided⟩ := ih hrest
    unfold readLabel at hread
    split at hread
    · next s hs =>
      have htexts' : ∀ e ∈ entry::entries, ∃ s, e.2 = .str s := by
        intro e he
        obtain rfl | he := List.mem_cons.mp he
        · exact ⟨s,hs⟩
        · exact htexts e he
      split at hread
      · next key hkey =>
        obtain rfl := Option.some.inj hread
        refine ⟨htexts',hexpr,fun p => ?_,?_⟩
        · rw [hlabels, answered_cons_ok hs hkey, LastWrite.last_cons]
          have hin : p ∈ insertLabel key s r.sel.matchLabels ↔ p = (key,s) ∨
              p ∈ r.sel.matchLabels ∧ p.1 ≠ key := mem_insertLabel r.sel.keys_sorted
          cases hlast : LastWrite.last Prod.fst p.1 (answered id entries) with
          | some q => simp
          | none =>
            by_cases hp : key = p.1
            · subst hp
              simp [withLabel, hin, eq_comm]
            · have hne : p ≠ (key,s) := fun heq => hp (by rw [heq])
              simp [withLabel, hin, hp, hne, Ne.symm hp]
        · rw [hdecided]
          simp [hkey]
      · next why hkey =>
        obtain rfl := Option.some.inj hread
        refine ⟨htexts',by rw [hexpr, leaveOpen_sel],fun p => ?_,?_⟩
        · rw [hlabels, answered_cons_error hkey, leaveOpen_sel]
        · rw [hdecided]
          have hopen := leaveOpen_why r (selectorKey_error hkey)
          simp [hopen, hkey]
    · cases hread

theorem readLabels_some {entries : Fields} (r : Reading)
    (h : ∀ entry ∈ entries, ∃ s, entry.2 = .str s) :
    ∃ r', entries.foldlM (readLabel id) r = some r' := by
  induction entries generalizing r with
  | nil => exact ⟨r,rfl⟩
  | cons entry entries ih =>
    obtain ⟨s,hs⟩ := h entry List.mem_cons_self
    rw [List.foldlM_cons]
    have hread : ∃ r₁, readLabel id r entry = some r₁ := by
      unfold readLabel
      rw [hs]
      simp only
      split
      · exact ⟨_,rfl⟩
      · exact ⟨_,rfl⟩
    obtain ⟨r₁,hread⟩ := hread
    rw [hread]
    exact ih r₁ fun e he => h e (List.mem_cons_of_mem entry he)

/-- The expressions that Radar can answer for. -/
def answeredExpressions (lib : Lib) (id : CiliumIdentity) (raws : List Value) :
    List LabelSelectorRequirement :=
  raws.filterMap fun raw =>
    match asFields raw with
    | some e =>
      match ciliumSelectorKey (lib.text (e.lookup "key")) id with
      | .ok key => some (requirementOf lib key e)
      | .error _ => none
    | none => none

structure ExpressionsRead (lib : Lib) (id : CiliumIdentity) (raws : List Value) (r r' : Reading) :
    Prop where
  maps : ∀ raw ∈ raws, ∃ e, raw = .obj e
  labels : r'.sel.matchLabels = r.sel.matchLabels
  expressions : r'.sel.matchExpressions =
    r.sel.matchExpressions++answeredExpressions lib id raws
  decided : r'.openWhy = "" ↔ r.openWhy = "" ∧ ∀ e, .obj e ∈ raws →
    ∃ key, ciliumSelectorKey (lib.text (e.lookup "key")) id = .ok key

theorem readExpressions_spec {raws : List Value} {r r' : Reading}
    (h : raws.foldlM (readExpression lib id) r = some r') : ExpressionsRead lib id raws r r' := by
  induction raws generalizing r with
  | nil =>
    obtain rfl := Option.some.inj h
    exact ⟨by simp,rfl,by simp [answeredExpressions],by simp⟩
  | cons raw raws ih =>
    rw [List.foldlM_cons] at h
    obtain ⟨r₁,hread,hrest⟩ := Option.bind_eq_some_iff.mp h
    obtain ⟨hmaps,hlabels,hexpr,hdecided⟩ := ih hrest
    unfold readExpression at hread
    split at hread
    · next e =>
      have hmaps' : ∀ v ∈ Value.obj e::raws, ∃ e, v = .obj e := by
        intro v hv
        obtain rfl | hv := List.mem_cons.mp hv
        · exact ⟨e,rfl⟩
        · exact hmaps v hv
      split at hread
      · next key hkey =>
        obtain rfl := Option.some.inj hread
        refine ⟨hmaps',hlabels,?_,?_⟩
        · rw [hexpr]
          simp [answeredExpressions, asFields, hkey, withExpression]
        · rw [hdecided]
          simp [hkey]
      · next why hkey =>
        obtain rfl := Option.some.inj hread
        refine ⟨hmaps',by rw [hlabels, leaveOpen_sel],?_,?_⟩
        · rw [hexpr, leaveOpen_sel]
          simp [answeredExpressions, asFields, hkey]
        · rw [hdecided]
          have hopen := leaveOpen_why r (selectorKey_error hkey)
          simp [hopen, hkey]
    · cases hread

theorem readExpressions_some {raws : List Value} (r : Reading)
    (h : ∀ raw ∈ raws, ∃ e, raw = .obj e) :
    ∃ r', raws.foldlM (readExpression lib id) r = some r' := by
  induction raws generalizing r with
  | nil => exact ⟨r,rfl⟩
  | cons raw raws ih =>
    obtain ⟨e,rfl⟩ := h raw List.mem_cons_self
    rw [List.foldlM_cons]
    have hread : ∃ r₁, readExpression lib id r (.obj e) = some r₁ := by
      unfold readExpression
      simp only
      split
      · exact ⟨_,rfl⟩
      · exact ⟨_,rfl⟩
    obtain ⟨r₁,hread⟩ := hread
    rw [hread]
    exact ih r₁ fun v hv => h v (List.mem_cons_of_mem _ hv)

end Loops

section Selector

variable {lib : Lib} {means : Meaning} {id : CiliumIdentity} {range : Range} {selMap : Fields}

/-- The selector passes when of each label the last value counts. -/
structure Passes (lib : Lib) (means : Meaning) (range : Range) (id : CiliumIdentity)
    (selMap : Fields) : Prop where
  labels : ∀ entry ∈ labelsOf selMap, ∃ s key, entry.2 = .str s ∧
    ciliumSelectorKey entry.1 id = .ok key
  values : ∀ key s, LastWrite.last Prod.fst key (answered id (range.run (labelsOf selMap))) =
    some (key,s) → means.valid (.label key s) ∧ id.set key = some s
  maps : ∀ raw ∈ expressionsOf selMap, ∃ e key, raw = .obj e ∧
    ciliumSelectorKey (lib.text (e.lookup "key")) id = .ok key
  expressions : ∀ r ∈ answeredExpressions lib id (expressionsOf selMap),
    means.valid (.expression r) ∧ means.holds (.expression r) id.set

/-- A requirement that Radar can answer for is not met. -/
def Misses (lib : Lib) (means : Meaning) (id : CiliumIdentity) (selMap : Fields) : Prop :=
  (∃ p ∈ answered id (labelsOf selMap), id.set p.1 ≠ some p.2) ∨
    ∃ r ∈ answeredExpressions lib id (expressionsOf selMap), ¬ means.holds (.expression r) id.set

/-- How the answer about one selector comes about. -/
structure Judged (lib : Lib) (means : Meaning) (range : Range) (id : CiliumIdentity)
    (selMap : Fields) (answer : Answer) : Prop where
  selects : answer.decided = true ∧ answer.selects = true ↔ Passes lib means range id selMap
  misses : answer.decided = true → answer.selects = false → Misses lib means id selMap
  why : answer.decided = false → answer.why ≠ ""

theorem judged_undecided {why : String} (h : why ≠ "")
    (hno : ¬ Passes lib means range id selMap) :
    Judged lib means range id selMap (undecided why) where
  selects := by simp [undecided, hno]
  misses := fun hd => by cases hd
  why := fun _ => h

/-- What both loops have read. -/
structure Read (lib : Lib) (range : Range) (id : CiliumIdentity) (selMap : Fields) (r : Reading) :
    Prop where
  texts : ∀ entry ∈ labelsOf selMap, ∃ s, entry.2 = .str s
  maps : ∀ raw ∈ expressionsOf selMap, ∃ e, raw = .obj e
  labels : ∀ p, p ∈ r.sel.matchLabels ↔
    LastWrite.last Prod.fst p.1 (answered id (range.run (labelsOf selMap))) = some p
  expressions : r.sel.matchExpressions = answeredExpressions lib id (expressionsOf selMap)
  decided : r.openWhy = "" ↔
    (∀ entry ∈ labelsOf selMap, ∃ key, ciliumSelectorKey entry.1 id = .ok key) ∧
      ∀ e, .obj e ∈ expressionsOf selMap →
        ∃ key, ciliumSelectorKey (lib.text (e.lookup "key")) id = .ok key

theorem read_of_loops {r r' : Reading}
    (hr : (range.run (labelsOf selMap)).foldlM (readLabel id) {} = some r)
    (hr' : (expressionsOf selMap).foldlM (readExpression lib id) r = some r') :
    Read lib range id selMap r' := by
  have hperm := range.perm (labelsOf selMap)
  have hlabels := readLabels_spec hr
  have hexprs := readExpressions_spec hr'
  constructor
  · intro entry hentry
    exact hlabels.texts entry (hperm.mem_iff.mpr hentry)
  · exact hexprs.maps
  · intro p
    rw [hexprs.labels, hlabels.labels]
    simp
  · rw [hexprs.expressions, hlabels.expressions]
    rfl
  · rw [hexprs.decided, hlabels.decided]
    simp only [true_and]
    constructor
    · rintro ⟨hall,he⟩
      exact ⟨fun entry hentry => hall entry (hperm.mem_iff.mpr hentry),he⟩
    · rintro ⟨hall,he⟩
      exact ⟨fun entry hentry => hall entry (hperm.mem_iff.mp hentry),he⟩

theorem mem_requirements {sel : LabelSelector} {q : Requirement} :
    q ∈ requirements sel ↔ (∃ p ∈ sel.matchLabels, q = .label p.1 p.2) ∨
      ∃ r ∈ sel.matchExpressions, q = .expression r := by
  simp [requirements, eq_comm]

theorem passes_iff (hl : Lawful lib means) {r : Reading} (h : Read lib range id selMap r) :
    Passes lib means range id selMap ↔ r.openWhy = "" ∧
      (∀ q ∈ requirements r.sel, means.valid q) ∧ ∀ q ∈ requirements r.sel, means.holds q id.set := by
  have hparts : (∀ q ∈ requirements r.sel, means.valid q ∧ means.holds q id.set) ↔
      (∀ key s, LastWrite.last Prod.fst key (answered id (range.run (labelsOf selMap))) =
        some (key,s) → means.valid (.label key s) ∧ id.set key = some s) ∧
      ∀ e ∈ answeredExpressions lib id (expressionsOf selMap),
        means.valid (.expression e) ∧ means.holds (.expression e) id.set := by
    constructor
    · intro hall
      constructor
      · intro key s hlast
        have hq := hall (.label key s) (mem_requirements.mpr (.inl ⟨(key,s),(h.labels _).mpr hlast,rfl⟩))
        exact ⟨hq.1,(hl.label key s id.set).mp hq.2⟩
      · intro e he
        exact hall (.expression e) (mem_requirements.mpr (.inr ⟨e,h.expressions ▸ he,rfl⟩))
    · rintro ⟨hvalues,hexprs⟩ q hq
      obtain ⟨p,hp,rfl⟩ | ⟨e,he,rfl⟩ := mem_requirements.mp hq
      · have hp := hvalues p.1 p.2 ((h.labels p).mp hp)
        exact ⟨hp.1,(hl.label p.1 p.2 id.set).mpr hp.2⟩
      · exact hexprs e (h.expressions ▸ he)
  rw [← forall₂_and, hparts, h.decided]
  constructor
  · intro hp
    refine ⟨⟨fun entry hentry => ?_,fun e he => ?_⟩,hp.values,hp.expressions⟩
    · obtain ⟨s,key,-,hkey⟩ := hp.labels entry hentry
      exact ⟨key,hkey⟩
    · obtain ⟨e',key,heq,hkey⟩ := hp.maps (.obj e) he
      cases heq
      exact ⟨key,hkey⟩
  · rintro ⟨⟨hlabels,hexprs⟩,hvalues,hholds⟩
    refine ⟨fun entry hentry => ?_,hvalues,fun raw hraw => ?_,hholds⟩
    · obtain ⟨s,hs⟩ := h.texts entry hentry
      obtain ⟨key,hkey⟩ := hlabels entry hentry
      exact ⟨s,key,hs,hkey⟩
    · obtain ⟨e,rfl⟩ := h.maps raw hraw
      obtain ⟨key,hkey⟩ := hexprs e hraw
      exact ⟨e,key,rfl,hkey⟩

theorem mem_answered_range {p : String × String} :
    p ∈ answered id (range.run (labelsOf selMap)) ↔ p ∈ answered id (labelsOf selMap) := by
  simp only [mem_answered, (range.perm (labelsOf selMap)).mem_iff]

theorem misses_of (hl : Lawful lib means) {r : Reading} (h : Read lib range id selMap r)
    {q : Requirement} (hq : q ∈ requirements r.sel) (hno : ¬ means.holds q id.set) :
    Misses lib means id selMap := by
  obtain ⟨p,hp,rfl⟩ | ⟨e,he,rfl⟩ := mem_requirements.mp hq
  · left
    have hlast := (LastWrite.last_mem ((h.labels p).mp hp)).1
    exact ⟨p,mem_answered_range.mp hlast,fun hset => hno ((hl.label p.1 p.2 id.set).mpr hset)⟩
  · right
    exact ⟨e,h.expressions ▸ he,hno⟩

theorem ciliumSelectorMatches_judged (hl : Lawful lib means) :
    Judged lib means range id selMap (ciliumSelectorMatches lib range id selMap) := by
  have hperm := range.perm (labelsOf selMap)
  unfold ciliumSelectorMatches
  split
  · next hnone =>
    apply judged_undecided (by decide)
    intro hpass
    have htexts : ∀ entry ∈ range.run (labelsOf selMap), ∃ s, entry.2 = .str s := by
      intro entry hentry
      obtain ⟨s,key,hs,-⟩ := hpass.labels entry (hperm.mem_iff.mp hentry)
      exact ⟨s,hs⟩
    have hsome : ∃ r', (range.run (labelsOf selMap)).foldlM (readLabel id) {} = some r' :=
      readLabels_some {} htexts
    obtain ⟨r',hr'⟩ := hsome
    rw [hnone] at hr'
    cases hr'
  · next r hr =>
    split
    · next hnone =>
      apply judged_undecided (by decide)
      intro hpass
      have hmaps : ∀ raw ∈ expressionsOf selMap, ∃ e, raw = .obj e := by
        intro raw hraw
        obtain ⟨e,key,he,-⟩ := hpass.maps raw hraw
        exact ⟨e,he⟩
      have hsome : ∃ r', (expressionsOf selMap).foldlM (readExpression lib id) r = some r' :=
        readExpressions_some r hmaps
      obtain ⟨r',hr'⟩ := hsome
      rw [hnone] at hr'
      cases hr'
    · next r' hr' =>
      have hread := read_of_loops hr hr'
      have hpass := passes_iff hl hread
      split
      · next err herr =>
        apply judged_undecided (by decide)
        intro hp
        obtain ⟨m,hm⟩ := (hl.accepts r'.sel).mpr (hpass.mp hp).2.1
        rw [herr] at hm
        cases hm
      · next parsed hparsed =>
        have hvalid := (hl.accepts r'.sel).mp ⟨parsed,hparsed⟩
        have hmatch := hl.matching r'.sel parsed hparsed id.set
        by_cases hm : parsed id.set = true
        · by_cases hopen : r'.openWhy = ""
          · rw [hm, hopen]
            have hp := hpass.mpr ⟨hopen,hvalid,hmatch.mp hm⟩
            exact ⟨by simp [decidedAs, hp],fun _ hs => (by cases hs),fun hd => by cases hd⟩
          · rw [hm, if_neg (by decide), if_pos hopen]
            exact judged_undecided hopen fun hp => hopen (hpass.mp hp).1
        · have hno : ¬ Passes lib means range id selMap :=
            fun hp => hm (hmatch.mpr (hpass.mp hp).2.2)
          simp only [Bool.not_eq_true] at hm
          rw [hm]
          refine ⟨by simp [decidedAs, hno],fun _ _ => ?_,fun hd => by cases hd⟩
          have hfail : ¬ ∀ q ∈ requirements r'.sel, means.holds q id.set := by
            rw [← hmatch, hm]
            decide
          push Not at hfail
          obtain ⟨q,hq,hno⟩ := hfail
          exact misses_of hl hread hq hno

end Selector

section Specs

variable {lib : Lib} {means : Meaning} {id : CiliumIdentity} {range : Range}
variable {covers : Fields → Bool}

theorem selectsFrom_skip {spec : Fields} {specs : List Fields} {openWhy : String}
    (h : selectorOf covers spec = none) :
    selectsFrom lib range id covers (spec::specs) openWhy =
      selectsFrom lib range id covers specs openWhy := by
  unfold selectorOf at h
  rw [selectsFrom]
  split_ifs at h with hc
  · rw [h]
  · cases nestedMap spec "endpointSelector" with
    | none => rfl
    | some selMap => simp [hc]

theorem selectsFrom_judge {spec selMap : Fields} {specs : List Fields} {openWhy : String}
    (h : selectorOf covers spec = some selMap) :
    selectsFrom lib range id covers (spec::specs) openWhy =
      let answer := ciliumSelectorMatches lib range id selMap
      if answer.decided && answer.selects then decidedAs true
      else if !answer.decided && openWhy = "" then selectsFrom lib range id covers specs answer.why
      else selectsFrom lib range id covers specs openWhy := by
  unfold selectorOf at h
  split_ifs at h with hc
  rw [selectsFrom, h]
  simp [hc]

/-- The policy selects the pod when one of its selectors passes. -/
theorem selectsFrom_selects (hl : Lawful lib means) (specs : List Fields) (openWhy : String) :
    (selectsFrom lib range id covers specs openWhy).decided = true ∧
        (selectsFrom lib range id covers specs openWhy).selects = true ↔
      ∃ selMap ∈ specs.filterMap (selectorOf covers), Passes lib means range id selMap := by
  induction specs generalizing openWhy with
  | nil =>
    rw [selectsFrom]
    split_ifs <;> simp [undecided, decidedAs]
  | cons spec specs ih =>
    cases hsel : selectorOf covers spec with
    | none => rw [selectsFrom_skip hsel, ih, List.filterMap_cons_none hsel]
    | some selMap =>
      have hj : Judged lib means range id selMap (ciliumSelectorMatches lib range id selMap) :=
        ciliumSelectorMatches_judged hl
      rw [selectsFrom_judge hsel, List.filterMap_cons_some hsel]
      simp only [List.mem_cons, exists_eq_or_imp, ← hj.selects]
      generalize ciliumSelectorMatches lib range id selMap = answer at hj
      by_cases hpass : answer.decided = true ∧ answer.selects = true
      · simp [hpass, decidedAs]
      · have hfirst : (answer.decided && answer.selects) = false := by
          rw [← Bool.not_eq_true, Bool.and_eq_true]
          exact hpass
        rw [hfirst, if_neg (by decide)]
        split_ifs
        · rw [ih]
          simp [hpass]
        · rw [ih]
          simp [hpass]

/-- Where the answer is no, every selector misses. -/
theorem selectsFrom_misses (hl : Lawful lib means) {specs : List Fields} {openWhy : String}
    (hd : (selectsFrom lib range id covers specs openWhy).decided = true)
    (hs : (selectsFrom lib range id covers specs openWhy).selects = false) :
    openWhy = "" ∧ ∀ selMap ∈ specs.filterMap (selectorOf covers), Misses lib means id selMap := by
  induction specs generalizing openWhy with
  | nil =>
    rw [selectsFrom] at hd
    by_cases hopen : openWhy = ""
    · exact ⟨hopen,(by simp)⟩
    · rw [if_pos hopen] at hd
      cases hd
  | cons spec specs ih =>
    cases hsel : selectorOf covers spec with
    | none =>
      rw [selectsFrom_skip hsel] at hd hs
      rw [List.filterMap_cons_none hsel]
      exact ih hd hs
    | some selMap =>
      have hj : Judged lib means range id selMap (ciliumSelectorMatches lib range id selMap) :=
        ciliumSelectorMatches_judged hl
      rw [selectsFrom_judge hsel] at hd hs
      rw [List.filterMap_cons_some hsel]
      generalize ciliumSelectorMatches lib range id selMap = answer at hj hd hs
      simp only at hd hs
      have hfirst : (answer.decided && answer.selects) ≠ true := by
        intro hpass
        rw [if_pos hpass] at hs
        cases hs
      rw [if_neg hfirst] at hd hs
      by_cases hdecided : answer.decided = true
      · simp only [hdecided, Bool.not_true, Bool.false_and, Bool.false_eq_true, if_false] at hd hs
        obtain ⟨hwhy,hall⟩ := ih hd hs
        refine ⟨hwhy,fun m hm => ?_⟩
        obtain rfl | hm := List.mem_cons.mp hm
        · apply hj.misses hdecided
          simpa [hdecided] using hfirst
        · exact hall m hm
      · have hwhy := hj.why (Bool.not_eq_true _ ▸ hdecided)
        by_cases hopen : openWhy = ""
        · rw [if_pos (by simp [hdecided, hopen])] at hd hs
          exact absurd (ih hd hs).1 hwhy
        · rw [if_neg (by simp [hopen])] at hd hs
          exact absurd (ih hd hs).1 hopen

end Specs

section Soundness

variable {lib : Lib} {means : Meaning} {id : CiliumIdentity} {range : Range} {selMap : Fields}

/-- One label is named in two ways, with different values. -/
def Contradicts (id : CiliumIdentity) (selMap : Fields) : Prop :=
  ∃ p ∈ answered id (labelsOf selMap), ∃ q ∈ answered id (labelsOf selMap), p.1 = q.1 ∧ p.2 ≠ q.2

/-- Radar can answer for the whole selector, and the pod has of each label one of the values that
the selector names. -/
structure MayPass (lib : Lib) (means : Meaning) (id : CiliumIdentity) (selMap : Fields) : Prop where
  labels : ∀ entry ∈ labelsOf selMap, ∃ s key, entry.2 = .str s ∧
    ciliumSelectorKey entry.1 id = .ok key
  values : ∀ p ∈ answered id (labelsOf selMap), ∃ q ∈ answered id (labelsOf selMap),
    q.1 = p.1 ∧ means.valid (.label q.1 q.2) ∧ id.set q.1 = some q.2
  maps : ∀ raw ∈ expressionsOf selMap, ∃ e key, raw = .obj e ∧
    ciliumSelectorKey (lib.text (e.lookup "key")) id = .ok key
  expressions : ∀ r ∈ answeredExpressions lib id (expressionsOf selMap),
    means.valid (.expression r) ∧ means.holds (.expression r) id.set

theorem mayPass_of_passes (h : Passes lib means range id selMap) : MayPass lib means id selMap where
  labels := h.labels
  values := by
    intro p hp
    have hrun : p ∈ answered id (range.run (labelsOf selMap)) := mem_answered_range.mpr hp
    obtain ⟨s,hlast⟩ := last_self hrun
    have hq := h.values p.1 s hlast
    exact ⟨(p.1,s),mem_answered_range.mp (LastWrite.last_mem hlast).1,rfl,hq.1,hq.2⟩
  maps := h.maps
  expressions := h.expressions

theorem answered_append (l m : Fields) : answered id (l++m) = answered id l++answered id m :=
  List.filterMap_append

/-- Entries that the pod meets come last. -/
noncomputable def rangeLast (good : String × Value → Prop) : Range where
  run m := open Classical in (m.filter fun entry => !decide (good entry))++m.filter fun entry => good entry
  perm m := by
    classical
    have h := List.filter_append_perm (fun entry => decide (good entry)) m
    exact (List.perm_append_comm).trans h

theorem exists_passes (h : MayPass lib means id selMap) :
    ∃ range, Passes lib means range id selMap := by
  classical
  let good : String × Value → Prop := fun entry => ∃ s key, entry.2 = .str s ∧
    ciliumSelectorKey entry.1 id = .ok key ∧ means.valid (.label key s) ∧ id.set key = some s
  refine ⟨rangeLast good,h.labels,fun key s hlast => ?_,h.maps,h.expressions⟩
  have hin := mem_answered_range.mp (LastWrite.last_mem hlast).1
  obtain ⟨q,hq,hkey,hvalid,hset⟩ := h.values (key,s) hin
  obtain ⟨entry,hentry,hs,hok⟩ := mem_answered.mp hq
  have hgood : q ∈ answered id ((labelsOf selMap).filter fun entry => decide (good entry)) := by
    refine mem_answered.mpr ⟨entry,List.mem_filter.mpr ⟨hentry,?_⟩,hs,hok⟩
    exact decide_eq_true ⟨q.2,q.1,hs,hok,hvalid,hset⟩
  obtain ⟨s',hlast'⟩ := last_self hgood
  rw [hkey] at hlast'
  have hsame : LastWrite.last Prod.fst key (answered id ((rangeLast good).run (labelsOf selMap))) =
      some (key,s') := by
    rw [rangeLast, answered_append, LastWrite.last_append, hlast']
    rfl
  rw [hlast] at hsame
  obtain rfl := (Prod.mk.inj (Option.some.inj hsame)).2
  obtain ⟨entry',hentry',hs',hok'⟩ := mem_answered.mp (LastWrite.last_mem hlast').1
  obtain ⟨t,k,ht,hk,hv,hset'⟩ := of_decide_eq_true (List.mem_filter.mp hentry').2
  rw [hs'] at ht
  rw [hok'] at hk
  cases ht
  cases hk
  exact ⟨hv,hset'⟩

theorem of_podSource (c : Completion id) {source : Option String} (h : isPodSource source = true) :
    c.of source = c.labels := if_pos h

/-- A selector that passes without contradiction holds whatever Radar does not know. -/
theorem passes_holds (hl : Lawful lib means) (h : Passes lib means range id selMap)
    (hno : ¬ Contradicts id selMap) (c : Completion id) : Holds lib means c selMap := by
  constructor
  · intro entry hentry
    obtain ⟨s,key,hs,hkey⟩ := h.labels entry hentry
    have hin : (key,s) ∈ answered id (labelsOf selMap) := mem_answered.mpr ⟨entry,hentry,hs,hkey⟩
    have hrun : (key,s) ∈ answered id (range.run (labelsOf selMap)) := mem_answered_range.mpr hin
    obtain ⟨s',hlast⟩ := last_self hrun
    have hin' := mem_answered_range.mp (LastWrite.last_mem hlast).1
    have hsame : s = s' := by
      by_contra hne
      exact hno ⟨(key,s),hin,(key,s'),hin',rfl,hne⟩
    obtain ⟨hsource,hknown,rfl⟩ := selectorKey_ok.mp hkey
    refine ⟨s,hs,(hl.label _ s _).mpr ?_⟩
    rw [of_podSource c hsource, c.agrees _ hknown, hsame]
    exact (h.values _ s' hlast).2
  · intro raw hraw
    obtain ⟨e,key,rfl,hkey⟩ := h.maps raw hraw
    have hin : requirementOf lib key e ∈ answeredExpressions lib id (expressionsOf selMap) := by
      refine List.mem_filterMap.mpr ⟨.obj e,hraw,?_⟩
      simp [asFields, hkey]
    obtain ⟨hsource,hknown,rfl⟩ := selectorKey_ok.mp hkey
    refine ⟨e,rfl,?_⟩
    rw [of_podSource c hsource]
    exact hl.expression _ id.set c.labels (c.agrees _ hknown).symm (h.expressions _ hin).2

/-- A selector that misses fails whatever Radar does not know. -/
theorem misses_not_holds (hl : Lawful lib means) (h : Misses lib means id selMap)
    (c : Completion id) : ¬ Holds lib means c selMap := by
  rintro ⟨hlabels,hexprs⟩
  obtain ⟨p,hp,hno⟩ | ⟨r,hr,hno⟩ := h
  · obtain ⟨entry,hentry,hs,hkey⟩ := mem_answered.mp hp
    obtain ⟨hsource,hknown,hcut⟩ := selectorKey_ok.mp hkey
    obtain ⟨s,hs',hholds⟩ := hlabels entry hentry
    rw [hs] at hs'
    cases hs'
    rw [of_podSource c hsource, hl.label, hcut, c.agrees _ hknown] at hholds
    exact hno hholds
  · obtain ⟨raw,hraw,hreq⟩ := List.mem_filterMap.mp hr
    obtain ⟨e,rfl,hholds⟩ := hexprs raw hraw
    simp only [asFields] at hreq
    cases hkey : ciliumSelectorKey (lib.text (e.lookup "key")) id with
    | error why =>
      rw [hkey] at hreq
      nomatch hreq
    | ok key =>
      rw [hkey] at hreq
      obtain ⟨hsource,hknown,rfl⟩ := selectorKey_ok.mp hkey
      rw [of_podSource c hsource] at hholds
      rw [← Option.some.inj hreq] at hno
      exact hno (hl.expression _ c.labels id.set (c.agrees _ hknown) hholds)

/-- A decided answer is the one that the completed labels give. -/
def Sound (id : CiliumIdentity) (answer : Range → Answer) (selects : Completion id → Prop) : Prop :=
  ∀ range c, (answer range).decided = true → ((answer range).selects = true ↔ selects c)

/-- A selector that contradicts itself and may pass is backed by one that holds. -/
def Backed (lib : Lib) (means : Meaning) (id : CiliumIdentity) (obj : Fields)
    (covers : Fields → Bool) : Prop :=
  ∀ selMap ∈ selectorsOf obj covers, MayPass lib means id selMap → Contradicts id selMap →
    ∀ c : Completion id, Selects lib means c obj covers

theorem ciliumSelects_sound_iff (hl : Lawful lib means) (obj : Fields) (covers : Fields → Bool) :
    Sound id (fun range => ciliumSelects lib range id obj covers)
      (fun c => Selects lib means c obj covers) ↔ Backed lib means id obj covers := by
  constructor
  · intro hsound selMap hsel hmay _ c
    obtain ⟨range,hpass⟩ := exists_passes hmay
    have hyes : (ciliumSelects lib range id obj covers).decided = true ∧
        (ciliumSelects lib range id obj covers).selects = true :=
      (selectsFrom_selects hl (specsOf obj) "").mpr ⟨selMap,hsel,hpass⟩
    exact (hsound range c hyes.1).mp hyes.2
  · intro hbacked range c hd
    constructor
    · intro hs
      obtain ⟨selMap,hsel,hpass⟩ := (selectsFrom_selects hl (specsOf obj) "").mp ⟨hd,hs⟩
      by_cases hcontra : Contradicts id selMap
      · exact hbacked selMap hsel (mayPass_of_passes hpass) hcontra c
      · exact ⟨selMap,hsel,passes_holds hl hpass hcontra c⟩
    · rintro ⟨selMap,hsel,hholds⟩
      by_contra hs
      have hmisses := (selectsFrom_misses hl hd (Bool.not_eq_true _ ▸ hs)).2 selMap hsel
      exact misses_not_holds hl hmisses c hholds

/-- Decided answers can be trusted exactly where contradicting selectors are backed. -/
theorem cilium_selection_sound (lib : Lib) (means : Meaning) (hl : Lawful lib means)
    (id : CiliumIdentity) (obj : Fields) (dir : Direction) :
    (Sound id (fun range => ciliumGoverns lib range id obj dir)
      (fun c => Selects lib means c obj (ciliumSpecCovers dir)) ↔
        Backed lib means id obj (ciliumSpecCovers dir)) ∧
    (Sound id (fun range => ciliumMayAllow lib range id obj dir)
      (fun c => Selects lib means c obj (ciliumSpecMayAllow dir)) ↔
        Backed lib means id obj (ciliumSpecMayAllow dir)) :=
  ⟨ciliumSelects_sound_iff hl obj _,ciliumSelects_sound_iff hl obj _⟩

end Soundness

section Contradiction

/-- An operator with the values it takes. -/
def wellFormed : Requirement → Bool
  | .label _ _ => true
  | .expression r =>
    if r.operator = "In" ∨ r.operator = "NotIn" then !r.values.isEmpty
    else (r.operator = "Exists" ∨ r.operator = "DoesNotExist") && r.values.isEmpty

def meets (l : Labels) : Requirement → Bool
  | .label key value => l key = some value
  | .expression r =>
    if r.operator = "In" then (l r.key).any (· ∈ r.values)
    else if r.operator = "NotIn" then !(l r.key).any (· ∈ r.values)
    else if r.operator = "Exists" then (l r.key).isSome
    else (l r.key).isNone

def plainLib : Lib where
  asSelector sel :=
    if (requirements sel).all wellFormed then .ok fun l => (requirements sel).all (meets l)
    else .error "invalid"
  sprint := fun _ => ""

def plainMeaning : Meaning where
  valid r := wellFormed r = true
  holds r l := meets l r = true

theorem plain_lawful : Lawful plainLib plainMeaning where
  accepts sel := by
    unfold plainLib plainMeaning
    by_cases h : (requirements sel).all wellFormed = true
    · simp only [if_pos h]
      exact ⟨fun _ => List.all_eq_true.mp h,fun _ => ⟨_,rfl⟩⟩
    · simp only [if_neg h]
      constructor
      · rintro ⟨m,hm⟩
        nomatch hm
      · exact fun hall => absurd (List.all_eq_true.mpr hall) h
  matching sel m hm l := by
    unfold plainLib at hm
    simp only at hm
    split_ifs at hm
    obtain rfl := Except.ok.inj hm
    exact List.all_eq_true
  label key value l := decide_eq_true_iff
  expression r l l' heq hholds := by
    have hmeets : meets l (.expression r) = true := hholds
    show meets l' (.expression r) = true
    simpa only [meets, heq] using hmeets

def policyOn (labels : Fields) : Fields :=
  [("spec",.obj [("endpointSelector",.obj [("matchLabels",.obj labels)]),("ingress",.arr [])])]

theorem selectorsOf_policyOn (labels : Fields) :
    selectorsOf (policyOn labels) (ciliumSpecCovers .ingress) = [[("matchLabels",.obj labels)]] := by
  rfl

def dbPod : CiliumIdentity :=
  ciliumIdentityFor { ns := "prod", name := "db-0", labels := fun key =>
    if key = "app" then some "db" else none } "" none

def inOrder : Range where
  run m := m
  perm m := List.Perm.refl m

def nothingMore : Completion dbPod where
  labels := dbPod.set
  others := fun _ _ => none
  agrees := fun _ _ => rfl

/-- Of two values for one label the one that comes last decides. -/
theorem contradiction_selects : ¬ ∀ (lib : Lib) (means : Meaning), Lawful lib means →
    ∀ (id : CiliumIdentity) (obj : Fields) (dir : Direction),
      Sound id (fun range => ciliumGoverns lib range id obj dir)
        (fun c => Selects lib means c obj (ciliumSpecCovers dir)) := by
  intro h
  have hsound := h plainLib plainMeaning plain_lawful dbPod
    (policyOn [("k8s:app",.str "web"),("any:app",.str "db")]) .ingress
  have hselects := (hsound inOrder nothingMore (by decide +kernel)).mp (by decide +kernel)
  obtain ⟨selMap,hsel,hholds⟩ := hselects
  rw [selectorsOf_policyOn, List.mem_singleton] at hsel
  rw [hsel] at hholds
  obtain ⟨s,hs,hweb⟩ := hholds.1 ("k8s:app",.str "web") List.mem_cons_self
  cases hs
  have hmeets : meets (nothingMore.of (cutSource "k8s:app").1)
      (.label (cutSource "k8s:app").2 "web") = true := hweb
  exact absurd hmeets (by decide +kernel)

theorem cilium_selection_sound_db :
    Sound dbPod (fun range => ciliumGoverns plainLib range dbPod (policyOn [("k8s:app",.str "db")])
      .ingress) (fun c => Selects plainLib plainMeaning c (policyOn [("k8s:app",.str "db")])
        (ciliumSpecCovers .ingress)) := by
  apply (cilium_selection_sound plainLib plainMeaning plain_lawful dbPod
    (policyOn [("k8s:app",.str "db")]) .ingress).1.mpr
  intro selMap hsel _ hcontra
  rw [selectorsOf_policyOn, List.mem_singleton] at hsel
  have hone : answered dbPod (labelsOf selMap) = [("app","db")] := by
    rw [hsel]
    decide +kernel
  obtain ⟨p,hp,q,hq,-,hne⟩ := hcontra
  rw [hone, List.mem_singleton] at hp hq
  exact absurd (by rw [hp, hq]) hne

end Contradiction

end Radar.Cilium
