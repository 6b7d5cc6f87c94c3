import Mathlib.Data.List.DropRight
import Radar.Rbac.EffectiveRules

/-!
# What the flattened rules of a subject tell

Flattening keeps the first rule of each signature, up to the cap. The flat
rules grant what the bound ones grant, and truncation is told as it is, exactly
where signatures tell the rules of the subject apart and the cap is not just
met.
-/

set_option autoImplicit false

namespace Radar.RbacIndex

section Requests

/-- What is asked for; the subresource may be empty. -/
inductive Request where
  | resource (verb group resource subresource name : String)
  | url (verb path : String)
  deriving DecidableEq, Repr

def anyOr (asked pattern : String) : Bool := pattern = "*" || pattern = asked

def resourceMatches (resource subresource pattern : String) : Bool :=
  anyOr (if subresource = "" then resource else resource ++ "/" ++ subresource) pattern ||
    subresource ≠ "" && pattern = "*/" ++ subresource

/-- A pattern that ends in asterisks stands for what begins as it does. -/
def urlMatches (path pattern : String) : Bool :=
  anyOr path pattern || pattern.toList.getLast? = some '*' &&
    (pattern.toList.rdropWhile (· = '*')).isPrefixOf path.toList

/-- The rules of the API: without resource names every name is meant. -/
def PolicyRule.grants (r : PolicyRule) : Request → Bool
  | .resource verb group resource subresource name =>
    r.verbs.any (anyOr verb) && r.apiGroups.any (anyOr group) &&
      r.resources.any (resourceMatches resource subresource) &&
      (r.resourceNames.isEmpty || r.resourceNames.any (· = name))
  | .url verb path => r.verbs.any (anyOr verb) && r.nonResourceURLs.any (urlMatches path)

/-- A rule up to the order in its lists. -/
def PolicyRule.normal (r : PolicyRule) : PolicyRule where
  verbs := Names.sorted r.verbs
  apiGroups := Names.sorted r.apiGroups
  resources := Names.sorted r.resources
  resourceNames := Names.sorted r.resourceNames
  nonResourceURLs := Names.sorted r.nonResourceURLs

theorem any_sorted (l : List String) (p : String → Bool) : (Names.sorted l).any p = l.any p :=
  (List.perm_insertionSort _ l).any_eq

theorem sorted_eq_nil {l : List String} : Names.sorted l = [] ↔ l = [] := by
  rw [← List.length_eq_zero_iff, ← List.length_eq_zero_iff]
  exact Eq.congr_left (List.perm_insertionSort _ l).length_eq

theorem normal_grants (r : PolicyRule) (q : Request) : r.normal.grants q = r.grants q := by
  have hempty : (Names.sorted r.resourceNames).isEmpty = r.resourceNames.isEmpty := by
    rw [Bool.eq_iff_iff, List.isEmpty_iff, List.isEmpty_iff, sorted_eq_nil]
  cases q with
  | resource verb group resource subresource name =>
    simp only [PolicyRule.grants, PolicyRule.normal, any_sorted, hempty]
  | url verb path => simp only [PolicyRule.grants, PolicyRule.normal, any_sorted]

theorem writeSorted_sorted (l : List String) : writeSorted (Names.sorted l) = writeSorted l := by
  have hsorted : Names.sorted (Names.sorted l) = Names.sorted l :=
    (Names.sorted_pairwise l).insertionSort_eq
  unfold writeSorted
  simp only [sorted_eq_nil, hsorted]

theorem normal_signature (r : PolicyRule) : ruleSignature r.normal = ruleSignature r := by
  simp only [ruleSignature, PolicyRule.normal, writeSorted_sorted]

theorem signature_of_normal (r s : PolicyRule) (h : r.normal = s.normal) :
    ruleSignature r = ruleSignature s := by
  rw [← normal_signature r, h, normal_signature]

end Requests

section Flatten

variable {limit : ℕ} {seen : List String} {out rules : List PolicyRule}

theorem flattenFrom_spec (h : out.length < limit) : flattenFrom limit seen out rules =
    if (out++Firsts.firstsFrom ruleSignature seen rules).length < limit then
      (out++Firsts.firstsFrom ruleSignature seen rules,false)
    else ((out++Firsts.firstsFrom ruleSignature seen rules).take limit,true) := by
  induction rules generalizing seen out with
  | nil => rw [Firsts.firstsFrom, List.append_nil, if_pos h, flattenFrom]
  | cons r rules ih =>
    unfold flattenFrom Firsts.firstsFrom
    by_cases hseen : ruleSignature r ∈ seen
    · rw [if_pos hseen, if_pos hseen]
      exact ih h
    · rw [if_neg hseen, if_neg hseen, List.append_cons out r (Firsts.firstsFrom _ _ rules)]
      by_cases hfull : limit ≤ (out++[r]).length
      · have hlength : (out++[r]).length = limit := by
          rw [List.length_append, List.length_singleton] at *
          omega
        rw [if_pos hfull, if_neg, List.take_append_of_le_length hfull, ← hlength, List.take_length]
        rw [List.length_append, hlength]
        omega
      · rw [if_neg hfull]
        exact ih (Nat.lt_of_not_le hfull)

theorem flatten_spec {via : List BindingRules} (h : 0 < limit) : flatten via limit =
    if (Firsts.firsts ruleSignature (via.flatMap BindingRules.rules)).length < limit then
      (Firsts.firsts ruleSignature (via.flatMap BindingRules.rules),false)
    else ((Firsts.firsts ruleSignature (via.flatMap BindingRules.rules)).take limit,true) :=
  flattenFrom_spec h

end Flatten

section Faithful

/-- The flat rules grant what the bound ones do, unless they are truncated, and they are said to be
truncated where a rule is missing from them. -/
structure EffectiveRules.Faithful (e : EffectiveRules) : Prop where
  grants : e.truncated = false → ∀ q, (∃ r ∈ e.flat, r.grants q = true) ↔
    ∃ b ∈ e.viaBindings, ∃ r ∈ b.rules, r.grants q = true
  truncated : e.truncated = true ↔
    ∃ b ∈ e.viaBindings, ∃ r ∈ b.rules, ∀ f ∈ e.flat, f.normal ≠ r.normal

def forms (rules : List PolicyRule) : ℕ := (rules.map PolicyRule.normal).toFinset.card

def signatures (rules : List PolicyRule) : ℕ := (rules.map ruleSignature).toFinset.card

/-- Below the cap no two rules that differ share a signature; from there on the rules that differ
are not exactly as many as the cap. -/
def ToldApart (rules : List PolicyRule) : Prop :=
  if signatures rules < maxFlatRules then forms rules = signatures rules
  else forms rules ≠ maxFlatRules

instance (rules : List PolicyRule) : Decidable (ToldApart rules) :=
  inferInstanceAs (Decidable (if signatures rules < maxFlatRules then forms rules = signatures rules
    else forms rules ≠ maxFlatRules))

/-- The rules that the bindings of a subject refer to. -/
def Index.boundRules (i : Index) (s : Subject) : List PolicyRule :=
  (i.bindingsOf s).flatMap fun p => i.roleRules p.1

variable {i : Index} {s : Subject}

theorem via_rules : (i.effectiveRules s).viaBindings.flatMap BindingRules.rules = i.boundRules s :=
  List.flatMap_map _ _ (i.bindingsOf s)

theorem exists_via (p : PolicyRule → Prop) :
    (∃ b ∈ (i.effectiveRules s).viaBindings, ∃ r ∈ b.rules, p r) ↔ ∃ r ∈ i.boundRules s, p r := by
  rw [← via_rules]
  simp only [List.mem_flatMap]
  constructor
  · rintro ⟨b,hb,r,hr,hp⟩
    exact ⟨r,⟨b,hb,hr⟩,hp⟩
  · rintro ⟨r,⟨b,hb,hr⟩,hp⟩
    exact ⟨b,hb,r,hr,hp⟩

theorem flat_below (h : signatures (i.boundRules s) < maxFlatRules) :
    (i.effectiveRules s).flat = Firsts.firsts ruleSignature (i.boundRules s) ∧
      (i.effectiveRules s).truncated = false := by
  have hspec := @flatten_spec maxFlatRules (i.effectiveRules s).viaBindings (by decide)
  rw [via_rules, Firsts.length_firsts, ← signatures, if_pos h] at hspec
  exact ⟨congrArg Prod.fst hspec,congrArg Prod.snd hspec⟩

theorem flat_full (h : maxFlatRules ≤ signatures (i.boundRules s)) :
    (i.effectiveRules s).flat =
        (Firsts.firsts ruleSignature (i.boundRules s)).take maxFlatRules ∧
      (i.effectiveRules s).truncated = true := by
  have hspec := @flatten_spec maxFlatRules (i.effectiveRules s).viaBindings (by decide)
  rw [via_rules, Firsts.length_firsts, ← signatures, if_neg (Nat.not_lt.mpr h)] at hspec
  exact ⟨congrArg Prod.fst hspec,congrArg Prod.snd hspec⟩

/-- Rules of one form grant the same. -/
theorem grants_of_normal {r f : PolicyRule} (h : f.normal = r.normal) (q : Request) :
    f.grants q = r.grants q := by
  rw [← normal_grants f, h, normal_grants]

theorem faithful_below (h : signatures (i.boundRules s) < maxFlatRules) :
    (i.effectiveRules s).Faithful ↔ forms (i.boundRules s) = signatures (i.boundRules s) := by
  obtain ⟨hflat,hlive⟩ := flat_below h
  unfold forms signatures
  rw [← Firsts.forms_kept_iff signature_of_normal, ← hflat]
  constructor
  · intro hall r hr
    by_contra hmissing
    have hcut := hall.truncated.mpr ((exists_via _).mpr
      ⟨r,hr,fun f hf heq => hmissing ⟨f,hf,heq⟩⟩)
    rw [hlive] at hcut
    cases hcut
  · intro hkept
    refine ⟨fun _ q => ?_,?_⟩
    · rw [exists_via fun r => r.grants q = true]
      constructor
      · rintro ⟨f,hf,hq⟩
        rw [hflat] at hf
        exact ⟨f,Firsts.firsts_sublist.subset hf,hq⟩
      · rintro ⟨r,hr,hq⟩
        obtain ⟨f,hf,heq⟩ := hkept r hr
        exact ⟨f,hf,(grants_of_normal heq q).trans hq⟩
    · rw [hlive, exists_via fun r => ∀ f ∈ (i.effectiveRules s).flat, f.normal ≠ r.normal]
      refine ⟨(by simp),?_⟩
      rintro ⟨r,hr,hmissing⟩
      obtain ⟨f,hf,heq⟩ := hkept r hr
      exact absurd heq (hmissing f hf)

theorem faithful_full (h : maxFlatRules ≤ signatures (i.boundRules s)) :
    (i.effectiveRules s).Faithful ↔ forms (i.boundRules s) ≠ maxFlatRules := by
  obtain ⟨hflat,hcut⟩ := flat_full h
  have hmore : maxFlatRules ≤ forms (i.boundRules s) :=
    h.trans (Firsts.keys_le_forms signature_of_normal)
  have hlength : maxFlatRules ≤ (Firsts.firsts ruleSignature (i.boundRules s)).length :=
    h.trans_eq Firsts.length_firsts.symm
  have hmissing := Firsts.form_missing_iff signature_of_normal hlength
  rw [← hflat] at hmissing
  have hne : forms (i.boundRules s) ≠ maxFlatRules ↔ maxFlatRules < forms (i.boundRules s) :=
    ⟨fun h => lt_of_le_of_ne hmore h.symm,ne_of_gt⟩
  rw [hne, forms, ← hmissing]
  constructor
  · intro hall
    exact (exists_via _).mp (hall.truncated.mp hcut)
  · intro hexists
    refine ⟨fun hlive => ?_,?_⟩
    · rw [hcut] at hlive
      cases hlive
    · exact ⟨fun _ => (exists_via _).mpr hexists,fun _ => hcut⟩

/-- The flattened view of a subject is faithful exactly where its rules are told apart. -/
theorem flat_faithful (roles clusterRoles : List (Option Role))
    (roleBindings clusterRoleBindings : List (Option Binding)) (s : Subject) :
    ((buildIndex roles clusterRoles roleBindings clusterRoleBindings).effectiveRules s).Faithful ↔
      ToldApart ((buildIndex roles clusterRoles roleBindings clusterRoleBindings).boundRules s) := by
  unfold ToldApart
  split_ifs with h
  · exact faithful_below h
  · exact faithful_full (Nat.le_of_not_lt h)

section Lost

/-- One rule is for the pod without a name, the other one for every pod. -/
def podReader : Role where
  ns := "prod"
  name := "reader"
  rules := [⟨["get"],[""],["pods"],[""],[]⟩,⟨["get"],[""],["pods"],[],[]⟩]

def podReaders : Binding where
  ns := "prod"
  name := "readers"
  roleKind := "Role"
  roleName := "reader"
  subjects := [⟨"User","","ada"⟩]

/-- No names and the empty name are signed alike, and the rule that grants more is lost. -/
theorem flat_not_faithful : ¬∀ (roles clusterRoles : List (Option Role))
    (roleBindings clusterRoleBindings : List (Option Binding)) (s : Subject),
    ((buildIndex roles clusterRoles roleBindings clusterRoleBindings).effectiveRules s).Faithful := by
  intro hall
  have hfaithful := hall [some podReader] [] [some podReaders] [] ⟨"User","","ada"⟩
  have hgrants := (hfaithful.grants (by decide +kernel) (.resource "get" "" "pods" "" "db")).mpr
    (by decide +kernel)
  exact absurd hgrants (by decide +kernel)

end Lost

end Faithful

end Radar.RbacIndex
