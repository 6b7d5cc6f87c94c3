import Radar.Base.Decimal
import Radar.Base.Join
import Radar.Base.Names

/-!
# Build options and their memo key

The options a topology is built with, the namespace predicate they carry and
the text they are cached under. Two options with one text need not mean the
same: a missing namespace list, an empty one and the list of one empty name
are written alike.
-/

set_option autoImplicit false

namespace Radar.Topology

structure BuildOptions where
  /-- Nil is no filter. -/
  namespaces : Option (List String) := none
  viewMode : String := "resources"
  maxIndividualPods : ℤ := 5
  includeSecrets : Bool := false
  includeConfigMaps : Bool := false
  includePVCs : Bool := false
  includeReplicaSets : Bool := false
  includeGenericCRDs : Bool := false
  forRelationshipCache : Bool := false
  showPolicyEffect : Bool := false
  summaryMode : Bool := false
  deriving DecidableEq, Repr

def defaultBuildOptions : BuildOptions where
  maxIndividualPods := 5
  includeConfigMaps := true
  includePVCs := true
  includeGenericCRDs := true

def matchesNamespace (namespaces : Option (List String)) (ns : String) : Bool :=
  match namespaces with
  | none => true
  | some l => decide (ns ∈ l)

/-- The namespaces as the key lists them; nil and the empty list are alike. -/
def sortedNamespaces (opts : BuildOptions) : List String := Names.sorted (opts.namespaces.getD [])

def flags (opts : BuildOptions) : List Bool :=
  [opts.includeSecrets,opts.includeConfigMaps,opts.includePVCs,opts.includeReplicaSets,
    opts.includeGenericCRDs,opts.forRelationshipCache,opts.showPolicyEffect]

def memoKey (opts : BuildOptions) : String :=
  (String.singleton '|').intercalate ([opts.viewMode,
    (String.singleton ',').intercalate (sortedNamespaces opts),toString opts.maxIndividualPods]++
    (flags opts).map toString)

def scopedKey (scope : ℕ) (opts : BuildOptions) : String :=
  toString scope ++ String.singleton '#' ++ memoKey opts

/-- The options mean the same to a build. -/
structure Equivalent (o p : BuildOptions) : Prop where
  viewMode : o.viewMode = p.viewMode
  maxIndividualPods : o.maxIndividualPods = p.maxIndividualPods
  flags : flags o = flags p
  summaryMode : o.summaryMode = p.summaryMode
  namespaces : ∀ ns, matchesNamespace o.namespaces ns = matchesNamespace p.namespaces ns

theorem hash_not_mem (n : ℕ) : '#' ∉ (toString n).toList :=
  fun h => absurd (Decimal.nat_text_digit h) (by decide)

theorem scopedKey_inj {scope scope' : ℕ} {o p : BuildOptions}
    (h : scopedKey scope o = scopedKey scope' p) : scope = scope' ∧ memoKey o = memoKey p := by
  have hparts := Join.part_inj (hash_not_mem scope) (hash_not_mem scope') h
  exact ⟨Decimal.nat_text_inj hparts.1,hparts.2⟩

section Plain

/-- No separator of the key occurs in the options; so it is for names of a cluster. -/
structure Plain (opts : BuildOptions) : Prop where
  viewMode : '|' ∉ opts.viewMode.toList
  bars : Join.Free '|' (opts.namespaces.getD [])
  commas : Join.Free ',' (opts.namespaces.getD [])

theorem sorted_free {sep : Char} {opts : BuildOptions}
    (h : Join.Free sep (opts.namespaces.getD [])) : Join.Free sep (sortedNamespaces opts) :=
  fun s hs => h s (Names.mem_sorted.mp hs)

theorem bool_text_inj {a b : Bool} (h : toString a = toString b) : a = b := by
  cases a <;> cases b <;> first | rfl | exact absurd h (by decide)

theorem key_parts_free {opts : BuildOptions} (h : Plain opts) :
    Join.Free '|' ([opts.viewMode,(String.singleton ',').intercalate (sortedNamespaces opts),
      toString opts.maxIndividualPods]++(flags opts).map toString) := by
  have hns : '|' ∉ ((String.singleton ',').intercalate (sortedNamespaces opts)).toList := by
    intro hm
    obtain hsep | ⟨s,hs,hc⟩ := Join.mem_joined hm
    · exact absurd hsep (by decide)
    · exact sorted_free h.bars s hs hc
  have hmax : '|' ∉ (toString opts.maxIndividualPods).toList :=
    fun hm => (Decimal.int_text_char hm).elim (fun hd => absurd hd (by decide))
      (fun hd => absurd hd (by decide))
  have hbool : ∀ b : Bool, '|' ∉ (toString b).toList := by decide
  intro s hs
  rcases List.mem_append.mp hs with hs | hs
  · simp only [List.mem_cons, List.not_mem_nil, or_false] at hs
    rcases hs with rfl | rfl | rfl
    · exact h.viewMode
    · exact hns
    · exact hmax
  · obtain ⟨b,-,rfl⟩ := List.mem_map.mp hs
    exact hbool b

/-- Everything but the namespaces is the same. -/
structure SameRest (o p : BuildOptions) : Prop where
  viewMode : o.viewMode = p.viewMode
  maxIndividualPods : o.maxIndividualPods = p.maxIndividualPods
  flags : flags o = flags p

theorem memoKey_eq_iff {o p : BuildOptions} (ho : Plain o) (hp : Plain p) :
    memoKey o = memoKey p ↔ SameRest o p ∧
      (String.singleton ',').intercalate (sortedNamespaces o) =
        (String.singleton ',').intercalate (sortedNamespaces p) := by
  constructor
  · intro h
    have hparts := Join.joined_inj (by simp) (by simp) (key_parts_free ho) (key_parts_free hp) h
    simp only [List.cons_append, List.nil_append, List.cons.injEq] at hparts
    have hflags := List.map_injective_iff.mpr (fun _ _ => bool_text_inj) hparts.2.2.2
    exact ⟨⟨hparts.1,Decimal.int_text_inj hparts.2.2.1,hflags⟩,hparts.2.1⟩
  · intro h
    rw [memoKey, memoKey, h.1.viewMode, h.1.maxIndividualPods, h.1.flags, h.2]

/-- Nil, the empty list and the list of one empty name. -/
def Blank (opts : BuildOptions) : Prop :=
  opts.namespaces = none ∨ opts.namespaces = some [] ∨ opts.namespaces = some [""]

/-- What the key writes for the namespaces. -/
def namespaceText (opts : BuildOptions) : String :=
  (String.singleton ',').intercalate (sortedNamespaces opts)

theorem sorted_eq_single {l : List String} {s : String} (h : Names.sorted l = [s]) : l = [s] := by
  have hperm : l.Perm [s] := h ▸ (List.perm_insertionSort _ l).symm
  exact List.perm_singleton.mp hperm

theorem sorted_eq_nil {l : List String} (h : Names.sorted l = []) : l = [] := by
  have hperm : l.Perm [] := h ▸ (List.perm_insertionSort _ l).symm
  exact List.perm_nil.mp hperm

theorem namespaceText_eq_empty {opts : BuildOptions} (hp : Plain opts) :
    namespaceText opts = "" ↔ Blank opts := by
  constructor
  · intro h
    by_cases hnil : sortedNamespaces opts = []
    · have hget := sorted_eq_nil hnil
      cases hn : opts.namespaces with
      | none => exact .inl hn
      | some l => exact .inr (.inl (by rw [hn, show l = [] by simpa [hn] using hget]))
    · have hone : sortedNamespaces opts = [""] := by
        apply Join.joined_inj hnil (List.cons_ne_nil _ _) (sorted_free hp.commas)
        · simp [Join.Free]
        · rw [String.intercalate_singleton]
          exact h
      have hget := sorted_eq_single hone
      cases hn : opts.namespaces with
      | none => simp [hn] at hget
      | some l => exact .inr (.inr (by rw [hn, show l = [""] by simpa [hn] using hget]))
  · intro h
    rcases h with h | h | h <;> rw [namespaceText, sortedNamespaces, h] <;> rfl

theorem equivalent_of_namespaces {o p : BuildOptions} (hr : SameRest o p)
    (hs : o.summaryMode = p.summaryMode) (hn : o.namespaces = p.namespaces) : Equivalent o p :=
  ⟨hr.viewMode,hr.maxIndividualPods,hr.flags,hs,fun ns => by rw [hn]⟩

/-- Unless it is empty, the text determines the namespaces. -/
theorem equivalent_of_text {o p : BuildOptions} (ho : Plain o) (hp : Plain p) (hr : SameRest o p)
    (hs : o.summaryMode = p.summaryMode) (ht : namespaceText o = namespaceText p)
    (hne : namespaceText o ≠ "") : Equivalent o p := by
  have hon : sortedNamespaces o ≠ [] := fun h => hne (by rw [namespaceText, h]; rfl)
  have hpn : sortedNamespaces p ≠ [] := fun h => hne (by rw [ht, namespaceText, h]; rfl)
  have hsorted := Join.joined_inj hon hpn (sorted_free ho.commas) (sorted_free hp.commas) ht
  refine ⟨hr.viewMode,hr.maxIndividualPods,hr.flags,hs,fun ns => ?_⟩
  have hmem : ns ∈ sortedNamespaces o ↔ ns ∈ sortedNamespaces p := by rw [hsorted]
  rw [sortedNamespaces, sortedNamespaces, Names.mem_sorted, Names.mem_sorted] at hmem
  cases hno : o.namespaces with
  | none => exact absurd (by rw [sortedNamespaces, hno]; rfl) hon
  | some l =>
    cases hnp : p.namespaces with
    | none => exact absurd (by rw [sortedNamespaces, hnp]; rfl) hpn
    | some m => simpa [matchesNamespace, hno, hnp] using hmem

theorem blank_distinguished {o p : BuildOptions} (ho : Blank o) (hp : Blank p)
    (h : Equivalent o p) : o.namespaces = p.namespaces := by
  have hempty := h.namespaces ""
  have hother := h.namespaces "a"
  rcases ho with ho | ho | ho <;> rcases hp with hp | hp | hp <;>
    simp_all [matchesNamespace]

/-- Plain options are confused exactly when both lists are blank and not the same. -/
theorem collision_iff {o p : BuildOptions} (ho : Plain o) (hp : Plain p)
    (hs : o.summaryMode = p.summaryMode) :
    memoKey o = memoKey p ∧ ¬Equivalent o p ↔
      SameRest o p ∧ Blank o ∧ Blank p ∧ o.namespaces ≠ p.namespaces := by
  rw [memoKey_eq_iff ho hp]
  constructor
  · intro h
    obtain ⟨⟨hr,ht⟩,hne⟩ := h
    by_cases hempty : namespaceText o = ""
    · have hempty' : namespaceText p = "" := by rw [← hempty]; exact ht.symm
      exact ⟨hr,(namespaceText_eq_empty ho).mp hempty,(namespaceText_eq_empty hp).mp hempty',
        fun hn => hne (equivalent_of_namespaces hr hs hn)⟩
    · exact absurd (equivalent_of_text ho hp hr hs ht hempty) hne
  · intro h
    obtain ⟨hr,hbo,hbp,hne⟩ := h
    refine ⟨⟨hr,?_⟩,fun he => hne (blank_distinguished hbo hbp he)⟩
    exact ((namespaceText_eq_empty ho).mpr hbo).trans ((namespaceText_eq_empty hp).mpr hbp).symm

end Plain

end Radar.Topology
