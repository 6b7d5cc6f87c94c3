import Radar.EnvResolve.Resolver

/-!
# References in a value

Kubernetes scans a value once. A reference that is not closed is two
characters there and the scan goes on behind them; here it ends the scan. The
two agree on every value with no escape behind the first unclosed reference.
-/

set_option autoImplicit false

namespace Radar.EnvResolve

section Reference

/-- The expansion of container values in Kubernetes. -/
def kubeExpand (value : String → Option String) : List Char → List Char
  | [] => []
  | '$' :: '$' :: s => '$' :: kubeExpand value s
  | '$' :: '(' :: s =>
    match _h : Join.cut ')' s with
    | none => '$' :: '(' :: kubeExpand value s
    | some (name,rest) =>
      (match value (String.ofList name) with
        | some v => v.toList
        | none => '$' :: '(' :: (name++[')']))++kubeExpand value rest
  | c::s => c::kubeExpand value s
termination_by s => s.length
decreasing_by
  · simp only [List.length_cons]
    omega
  · simp only [List.length_cons]
    omega
  · obtain ⟨rfl,-⟩ := Join.cut_eq_some _h
    simp only [List.length_cons, List.length_append]
    omega
  · simp only [List.length_cons]
    omega

/-- What stands behind the first reference that is not closed. -/
def unclosed : List Char → Option (List Char)
  | [] => none
  | '$' :: '$' :: s => unclosed s
  | '$' :: '(' :: s =>
    match _h : Join.cut ')' s with
    | none => some s
    | some (_,rest) => unclosed rest
  | _::s => unclosed s
termination_by s => s.length
decreasing_by
  · simp only [List.length_cons]
    omega
  · obtain ⟨rfl,-⟩ := Join.cut_eq_some _h
    simp only [List.length_cons, List.length_append]
    omega
  · simp only [List.length_cons]
    omega

def Escaped (s : List Char) : Prop := ['$','$'] <:+: s

end Reference

section Rest

variable {value : String → Option String}

theorem escaped_cons {c : Char} {s : List Char} :
    Escaped (c::s) ↔ ['$','$'] <+: c::s ∨ Escaped s := List.infix_cons_iff

theorem kubeExpand_length {s : List Char} (h : ')' ∉ s) :
    (kubeExpand value s).length ≤ s.length := by
  induction s using kubeExpand.induct with
  | case1 => simp [kubeExpand]
  | case2 s ih =>
    rw [kubeExpand]
    have := ih fun hin => h (by simp [hin])
    simp only [List.length_cons]
    omega
  | case3 s hcut ih =>
    rw [kubeExpand, hcut]
    have := ih fun hin => h (by simp [hin])
    simp only [List.length_cons]
    omega
  | case4 s name rest hcut ih =>
    obtain ⟨rfl,-⟩ := Join.cut_eq_some hcut
    simp at h
  | case5 c s _ _ ih =>
    rw [kubeExpand] <;> try assumption
    have := ih fun hin => h (by simp [hin])
    simp only [List.length_cons]
    omega

/-- Behind an unclosed reference nothing but an escape is read differently. -/
theorem kubeExpand_eq_iff {s : List Char} (h : ')' ∉ s) :
    kubeExpand value s = s ↔ ¬ Escaped s := by
  induction s using kubeExpand.induct with
  | case1 => simp [kubeExpand, Escaped]
  | case2 s ih =>
    have hs : ')' ∉ s := fun hin => h (by simp [hin])
    have hshort : (kubeExpand value s).length ≤ s.length := kubeExpand_length hs
    constructor
    · intro heq
      rw [kubeExpand] at heq
      have hlen := congrArg List.length heq
      simp only [List.length_cons] at hlen
      omega
    · intro hno
      exact absurd ⟨[],s,rfl⟩ hno
  | case3 s hcut ih =>
    have ih := ih fun hin => h (by simp [hin])
    rw [kubeExpand, hcut, escaped_cons, escaped_cons]
    simpa using ih
  | case4 s name rest hcut ih =>
    obtain ⟨rfl,-⟩ := Join.cut_eq_some hcut
    simp at h
  | case5 c s hesc href ih =>
    have ih := ih fun hin => h (by simp [hin])
    rw [kubeExpand, escaped_cons, List.cons.injEq, ih] <;> try assumption
    have hstart : ¬ ['$','$'] <+: c::s := by
      rintro ⟨t,ht⟩
      obtain ⟨hc,ht⟩ := List.cons.inj ht
      exact hesc t hc.symm ht.symm
    simp [hstart]

end Rest

section Agreement

/-- The value of the binding is known, though it may be masked. -/
def Binding.Settled (b : Binding) : Prop :=
  (b.row.state = .resolved ∨ b.row.state = .masked) ∧ b.available = true

def Settled (bindings : Bindings) : Prop :=
  ∀ name b, bindings.lookup name = some b → b.Settled

def valueOf (bindings : Bindings) (name : String) : Option String :=
  (bindings.lookup name).map Binding.value

variable {bindings : Bindings}

@[simp] theorem write_out (e : Expansion) (text : List Char) : (e.write text).out = e.out++text :=
  rfl

theorem refer_out (h : Settled bindings) (e : Expansion) (name raw : List Char) :
    (e.refer bindings name raw).out =
      e.out++match valueOf bindings (String.ofList name) with
        | some v => v.toList
        | none => raw := by
  unfold Expansion.refer valueOf
  cases hdep : bindings.lookup (String.ofList name) with
  | none => rfl
  | some dep =>
    have hstate : ¬ (dep.row.state = .missing ∧ dep.row.optional = true) := by
      rintro ⟨hmissing,-⟩
      have hset := (h _ dep hdep).1
      rw [hmissing] at hset
      simp at hset
    simp only [if_neg hstate]
    rfl

theorem expandFrom_out_iff (h : Settled bindings) (e : Expansion) (s : List Char) :
    (expandFrom bindings e s).out = e.out++kubeExpand (valueOf bindings) s ↔
      ∀ rest, unclosed s = some rest → ¬ Escaped rest := by
  induction s using kubeExpand.induct generalizing e with
  | case1 => simp [expandFrom, kubeExpand, unclosed]
  | case2 s ih =>
    rw [expandFrom, kubeExpand, unclosed, ← ih (e.write ['$'])]
    simp
  | case3 s hcut ih =>
    have hfree := Join.cut_eq_none.mp hcut
    rw [expandFrom, kubeExpand, unclosed, hcut]
    simp only [write_out, List.append_cancel_left_eq, List.cons.injEq, true_and, Option.some.injEq,
      forall_eq']
    rw [eq_comm, kubeExpand_eq_iff hfree]
  | case4 s name rest hcut ih =>
    rw [expandFrom, kubeExpand, unclosed, hcut]
    simp only
    rw [← ih (e.refer bindings name ('$' :: '(' :: (name++[')']))), refer_out h, List.append_assoc]
  | case5 c s hesc href ih =>
    rw [expandFrom, kubeExpand, unclosed, ← ih (e.write [c])] <;> try assumption
    simp

theorem expand_agrees_iff (input : String) (bindings : Bindings) (h : Settled bindings) :
    (expand input bindings).out = kubeExpand (valueOf bindings) input.toList ↔
      ∀ rest, unclosed input.toList = some rest → ¬ Escaped rest := by
  have hout := expandFrom_out_iff h {} input.toList
  rw [List.nil_append] at hout
  exact hout

end Agreement

section Examples

/-- An escape behind an unclosed reference. -/
theorem expand_differs :
    ¬ ∀ (input : String) (bindings : Bindings), Settled bindings →
      (expand input bindings).out = kubeExpand (valueOf bindings) input.toList := by
  intro h
  have hsame := h "$($$" ∅ fun name b hb => by simp at hb
  simp [expand, expandFrom, kubeExpand, Join.cut] at hsame

def hostBindings : Bindings :=
  (∅ : Bindings).insert "HOST" {
    row := { name := "HOST", state := .resolved, source := { kind := "Direct" } }
    value := "db"
    available := true }

theorem hostBindings_settled : Settled hostBindings := by
  intro name b hb
  by_cases hname : name = "HOST"
  · rw [hname, hostBindings, AList.lookup_insert] at hb
    cases hb
    exact ⟨.inl rfl,rfl⟩
  · rw [hostBindings, AList.lookup_insert_ne hname, AList.lookup_empty] at hb
    cases hb

theorem expand_agrees_host :
    (expand "$$(HOST) $(HOST):$(PORT)" hostBindings).out =
      kubeExpand (valueOf hostBindings) "$$(HOST) $(HOST):$(PORT)".toList := by
  apply (expand_agrees_iff "$$(HOST) $(HOST):$(PORT)" hostBindings hostBindings_settled).mpr
  simp [unclosed, Join.cut]

end Examples

end Radar.EnvResolve
