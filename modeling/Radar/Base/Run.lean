import Mathlib.Data.List.Basic

/-!
# Runs of a labelled step function

A step function is partial and deterministic; every choice of a schedule
(which party moves, what the environment answers) is part of the action.
A run takes a finite list of actions. Invariants are stated once for a
single action and carried to whole runs here.
-/

set_option autoImplicit false

namespace Radar.Run

variable {σ α : Type*} (step : σ → α → Option σ)

/-- The state a list of actions leads to, if every one of them is enabled. -/
def run (s : σ) (as : List α) : Option σ := as.foldlM step s

@[simp] theorem run_nil (s : σ) : run step s [] = some s := rfl

@[simp] theorem run_cons (s : σ) (a : α) (as : List α) :
    run step s (a::as) = (step s a).bind (fun t => run step t as) := by
  simp only [run, List.foldlM_cons]
  rfl

theorem run_cons_some {s u : σ} {a : α} {as : List α} (h : run step s (a::as) = some u) :
    ∃ t, step s a = some t ∧ run step t as = some u := by
  rw [run_cons] at h
  exact Option.bind_eq_some_iff.mp h

theorem run_append (s : σ) (as bs : List α) :
    run step s (as++bs) = (run step s as).bind (fun t => run step t bs) := by
  simp only [run, List.foldlM_append]
  rfl

theorem run_append_some {s u : σ} {as bs : List α} (h : run step s (as++bs) = some u) :
    ∃ t, run step s as = some t ∧ run step t bs = some u := by
  rw [run_append] at h
  exact Option.bind_eq_some_iff.mp h

/-- Every action of the schedule meets `ok` in the state it is taken in. -/
def Meets (ok : σ → α → Prop) : σ → List α → Prop
  | _, [] => True
  | s, a::as => ok s a ∧ ∀ t, step s a = some t → Meets ok t as

/-- A concrete schedule can be checked. -/
instance decidableMeets {ok : σ → α → Prop} [∀ s a, Decidable (ok s a)] :
    ∀ (s : σ) (as : List α), Decidable (Meets step ok s as)
  | _, [] => inferInstanceAs (Decidable True)
  | s, a::as =>
    match h : step s a with
    | none => decidable_of_iff (ok s a) (by simp [Meets, h])
    | some t =>
      have : Decidable (Meets step ok t as) := decidableMeets t as
      decidable_of_iff (ok s a ∧ Meets step ok t as) (by simp [Meets, h])

variable {step} in
theorem meets_cons {ok : σ → α → Prop} {s t : σ} {a : α} {as : List α} (hok : ok s a)
    (ht : step s a = some t) (hm : Meets step ok t as) : Meets step ok s (a::as) :=
  ⟨hok,fun _ hu => Option.some.inj (ht.symm.trans hu) ▸ hm⟩

theorem meets_append {ok : σ → α → Prop} {s t : σ} {as bs : List α}
    (h : Meets step ok s (as++bs)) (hr : run step s as = some t) : Meets step ok t bs := by
  induction as generalizing s with
  | nil =>
    obtain rfl : s = t := by simpa using hr
    exact h
  | cons a as ih =>
    obtain ⟨u, hu, hr⟩ := run_cons_some step hr
    exact ih (h.2 u hu) hr

variable {step}

/-- A condition on the actions alone can be met along with any other. -/
theorem meets_and {ok : σ → α → Prop} {p : α → Prop} {s : σ} {as : List α} (hp : ∀ a ∈ as, p a)
    (hm : Meets step ok s as) : Meets step (fun s a => p a ∧ ok s a) s as := by
  induction as generalizing s with
  | nil => trivial
  | cons a as ih =>
    exact ⟨⟨hp a List.mem_cons_self,hm.1⟩,
      fun t ht => ih (fun b hb => hp b (List.mem_cons_of_mem a hb)) (hm.2 t ht)⟩

/-- What one action keeps, provided it meets `ok`, a whole run of such actions keeps. -/
theorem meets_invariant {ok : σ → α → Prop} {I : σ → Prop}
    (hstep : ∀ s a t, I s → ok s a → step s a = some t → I t)
    {s u : σ} {as : List α} (hs : I s) (hm : Meets step ok s as)
    (hr : run step s as = some u) : I u := by
  induction as generalizing s with
  | nil =>
    obtain rfl : s = u := by simpa using hr
    exact hs
  | cons a as ih =>
    obtain ⟨t, ht, hr⟩ := run_cons_some step hr
    exact ih (hstep s a t hs hm.1 ht) (hm.2 t ht) hr

/-- What every action keeps, every run keeps. -/
theorem run_invariant {I : σ → Prop}
    (hstep : ∀ s a t, I s → step s a = some t → I t)
    {s u : σ} {as : List α} (hs : I s) (hr : run step s as = some u) : I u := by
  induction as generalizing s with
  | nil =>
    obtain rfl : s = u := by simpa using hr
    exact hs
  | cons a as ih =>
    obtain ⟨t, ht, hr⟩ := run_cons_some step hr
    exact ih (hstep s a t hs ht) hr

end Radar.Run
