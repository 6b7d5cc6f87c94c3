import Mathlib.Data.List.Basic
import Mathlib.Data.Nat.Notation

/-!
# The runs of one character in a text

A text is cut at its maximal runs of a character. Every text is either free of
the character or a free text, a run and a text that does not start with it.
-/

set_option autoImplicit false

namespace Radar.CharRuns

variable {α : Type*} [DecidableEq α]

/-- Each run with the text before it, and the text after the last. -/
def splitRuns (c : α) : List α → List (List α × ℕ) × List α
  | [] => ([],[])
  | a::s =>
    match splitRuns c s with
    | ([],tail) => if a = c then ([([],1)],tail) else ([],a::tail)
    | ((before,n)::runs,tail) =>
      if a = c then
        if before = [] then (([],n+1)::runs,tail) else (([],1)::(before,n)::runs,tail)
      else ((a::before,n)::runs,tail)

variable {c : α}

theorem splitRuns_cons (a : α) (s : List α) : splitRuns c (a::s) =
    match splitRuns c s with
    | ([],tail) => if a = c then ([([],1)],tail) else ([],a::tail)
    | ((before,n)::runs,tail) =>
      if a = c then
        if before = [] then (([],n+1)::runs,tail) else (([],1)::(before,n)::runs,tail)
      else ((a::before,n)::runs,tail) := rfl

theorem splitRuns_free {s : List α} (h : c ∉ s) : splitRuns c s = ([],s) := by
  induction s with
  | nil => rfl
  | cons a s ih =>
    have hs := ih fun hc => h (List.mem_cons_of_mem a hc)
    have ha : a ≠ c := fun hac => h (by simp [hac])
    simp only [splitRuns_cons, hs, if_neg ha]

/-- What comes before the first run, if there is one. -/
theorem splitRuns_before {s : List α} {before : List α} {n : ℕ} {runs : List (List α × ℕ)}
    {tail : List α} (h : splitRuns c s = ((before,n)::runs,tail)) (hs : s.head? ≠ some c) :
    before ≠ [] := by
  cases s with
  | nil => nomatch h
  | cons a s =>
    have ha : a ≠ c := fun hac => hs (by simp [hac])
    simp only [splitRuns_cons, if_neg ha] at h
    split at h
    · nomatch h
    · obtain ⟨rfl,_⟩ := Prod.mk.inj (List.cons.inj (Prod.mk.inj h).1).1
      exact List.cons_ne_nil _ _

theorem splitRuns_run {before rest : List α} (n : ℕ) (hbefore : c ∉ before)
    (hrest : rest.head? ≠ some c) :
    splitRuns c (before ++ (List.replicate (n+1) c ++ rest)) =
      ((before,n+1)::(splitRuns c rest).1,(splitRuns c rest).2) := by
  have hrun : ∀ n, splitRuns c (List.replicate (n+1) c ++ rest) =
      (([],n+1)::(splitRuns c rest).1,(splitRuns c rest).2) := by
    intro n
    induction n with
    | zero =>
      show splitRuns c (c::rest) = _
      cases hsplit : splitRuns c rest with
      | mk runs tail =>
        cases runs with
        | nil => simp only [splitRuns_cons, hsplit, if_true]
        | cons run runs =>
          have hne := splitRuns_before hsplit hrest
          simp only [splitRuns_cons, hsplit, if_true, if_neg hne]
    | succ n ih =>
      rw [List.replicate_succ, List.cons_append]
      simp only [splitRuns_cons, ih, if_true]
  induction before with
  | nil => exact hrun n
  | cons a before ih =>
    have hb := ih fun hc => hbefore (List.mem_cons_of_mem a hc)
    have ha : a ≠ c := fun hac => hbefore (by simp [hac])
    rw [List.cons_append]
    simp only [splitRuns_cons, hb, if_neg ha]

omit [DecidableEq α] in
theorem exists_leading_run (c : α) (s : List α) :
    ∃ n rest, s = List.replicate n c ++ rest ∧ rest.head? ≠ some c := by
  induction s with
  | nil => exact ⟨0,[],rfl,nofun⟩
  | cons a s ih =>
    by_cases ha : a = c
    · obtain ⟨n,rest,rfl,hrest⟩ := ih
      exact ⟨n+1,rest,by rw [ha, List.replicate_succ, List.cons_append],hrest⟩
    · exact ⟨0,a::s,rfl,fun h => ha (Option.some.inj h)⟩

omit [DecidableEq α] in
theorem exists_run {s : List α} (h : c ∈ s) : ∃ before n rest,
    s = before ++ (List.replicate (n+1) c ++ rest) ∧ c ∉ before ∧ rest.head? ≠ some c := by
  induction s with
  | nil => cases h
  | cons a s ih =>
    by_cases ha : a = c
    · obtain ⟨n,rest,rfl,hrest⟩ := exists_leading_run c s
      refine ⟨[],n,rest,?_,List.not_mem_nil,hrest⟩
      rw [ha, List.replicate_succ, List.cons_append, List.nil_append]
    · obtain ⟨before,n,rest,rfl,hbefore,hrest⟩ := ih ((List.mem_cons.mp h).resolve_left (Ne.symm ha))
      refine ⟨a::before,n,rest,rfl,?_,hrest⟩
      exact fun hc => (List.mem_cons.mp hc).elim (Ne.symm ha) hbefore

omit [DecidableEq α] in
/-- By the runs of a text. -/
theorem runs_induction (c : α) {motive : List α → Prop} (free : ∀ s, c ∉ s → motive s)
    (run : ∀ before n rest, c ∉ before → rest.head? ≠ some c → motive rest →
      motive (before ++ (List.replicate (n+1) c ++ rest))) (s : List α) : motive s := by
  induction hn : s.length using Nat.strongRecOn generalizing s with
  | _ k ih =>
    by_cases hc : c ∈ s
    · obtain ⟨before,n,rest,rfl,hbefore,hrest⟩ := exists_run hc
      refine run before n rest hbefore hrest (ih rest.length ?_ rest rfl)
      rw [← hn]
      simp only [List.length_append, List.length_replicate]
      omega
    · exact free s hc

end Radar.CharRuns
