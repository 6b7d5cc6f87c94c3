import Mathlib.Data.List.Pairwise
import Mathlib.Data.Nat.Notation
import Mathlib.Order.MinMax
import Mathlib.Tactic.SplitIfs

/-!
# The widest gap of a cycle

A sorted list of places is repeated every `n` places. The widest gap is taken
over its neighbours and over the wrap from the last to the first: from any
place the next is no farther, and somewhere it is as far.
-/

set_option autoImplicit false

namespace Radar.CyclicGap

/-- The widest of the wrap and the gaps between neighbours. -/
def widest (wrap : ℕ) (l : List ℕ) : ℕ :=
  (l.zip l.tail).foldl (fun gap p => max gap (p.2-p.1)) wrap

section Fold

variable (pairs : List (ℕ × ℕ)) (wrap : ℕ)

theorem wrap_le_fold : wrap ≤ pairs.foldl (fun gap p => max gap (p.2-p.1)) wrap := by
  induction pairs generalizing wrap with
  | nil => exact le_refl wrap
  | cons p pairs ih => exact (le_max_left _ _).trans (ih _)

theorem gap_le_fold {p : ℕ × ℕ} (h : p ∈ pairs) :
    p.2-p.1 ≤ pairs.foldl (fun gap p => max gap (p.2-p.1)) wrap := by
  induction pairs generalizing wrap with
  | nil => nomatch h
  | cons q pairs ih =>
    rcases List.mem_cons.mp h with rfl | h
    · exact (le_max_right _ _).trans (wrap_le_fold pairs _)
    · exact ih _ h

theorem fold_cases : pairs.foldl (fun gap p => max gap (p.2-p.1)) wrap = wrap ∨
    ∃ p ∈ pairs, pairs.foldl (fun gap p => max gap (p.2-p.1)) wrap = p.2-p.1 := by
  induction pairs generalizing wrap with
  | nil => exact .inl rfl
  | cons q pairs ih =>
    obtain h | ⟨p,hp,h⟩ := ih (max wrap (q.2-q.1))
    · rw [List.foldl_cons, h]
      rcases max_choice wrap (q.2-q.1) with hmax | hmax
      · exact .inl hmax
      · exact .inr ⟨q,List.mem_cons_self,hmax⟩
    · exact .inr ⟨p,List.mem_cons_of_mem q hp,h⟩

end Fold

section Neighbours

variable {l : List ℕ} (hl : l.Pairwise (· < ·))

include hl

/-- Neighbours are members, and none is between them. -/
theorem neighbours {p : ℕ × ℕ} (h : p ∈ l.zip l.tail) :
    p.1 ∈ l ∧ p.2 ∈ l ∧ p.1 < p.2 ∧ ∀ r ∈ l, r ≤ p.1 ∨ p.2 ≤ r := by
  induction l with
  | nil => nomatch h
  | cons a l ih =>
    cases l with
    | nil => nomatch h
    | cons b l =>
      obtain ⟨ha,hrest⟩ := List.pairwise_cons.mp hl
      have hb := (List.pairwise_cons.mp hrest).1
      rw [List.tail_cons, List.zip_cons_cons] at h
      rcases List.mem_cons.mp h with rfl | h
      · refine ⟨.head _,.tail _ (.head _),ha b (.head _),fun r hr => ?_⟩
        rcases List.mem_cons.mp hr with rfl | hr
        · exact .inl (le_refl _)
        · rcases List.mem_cons.mp hr with rfl | hr
          · exact .inr (le_refl _)
          · exact .inr (hb r hr).le
      · obtain ⟨hp,hq,hlt,hnone⟩ := ih hrest h
        refine ⟨.tail _ hp,.tail _ hq,hlt,fun r hr => ?_⟩
        rcases List.mem_cons.mp hr with rfl | hr
        · exact .inl (ha p.1 hp).le
        · exact hnone r hr

/-- A place between two members is between two neighbours. -/
theorem exists_neighbours {a b x : ℕ} (ha : a ∈ l) (hb : b ∈ l) (hax : a ≤ x) (hxb : x < b) :
    ∃ p ∈ l.zip l.tail, p.1 ≤ x ∧ x < p.2 := by
  induction l generalizing a with
  | nil => cases ha
  | cons c l ih =>
    obtain ⟨hc,hrest⟩ := List.pairwise_cons.mp hl
    have hcx : c ≤ x := by
      rcases List.mem_cons.mp ha with rfl | ha
      · exact hax
      · exact (hc a ha).le.trans hax
    have hbl : b ∈ l := (List.mem_cons.mp hb).resolve_left (by omega)
    cases l with
    | nil => cases hbl
    | cons d l =>
      by_cases hxd : x < d
      · exact ⟨(c,d),.head _,hcx,hxd⟩
      · obtain ⟨p,hp,hbounds⟩ := ih hrest (.head _) hbl (Nat.le_of_not_lt hxd)
        exact ⟨p,.tail _ hp,hbounds⟩

theorem le_getLast (hne : l ≠ []) {r : ℕ} (hr : r ∈ l) : r ≤ l.getLast hne := by
  rw [← List.dropLast_concat_getLast hne] at hl hr
  rcases List.mem_append.mp hr with hr | hr
  · exact ((List.pairwise_append.mp hl).2.2 r hr _ (.head _)).le
  · exact (List.mem_singleton.mp hr).le

theorem head_le (hne : l ≠ []) {r : ℕ} (hr : r ∈ l) : l.head hne ≤ r := by
  cases l with
  | nil => exact absurd rfl hne
  | cons a l =>
    rcases List.mem_cons.mp hr with rfl | hr
    · exact le_refl _
    · exact ((List.pairwise_cons.mp hl).1 r hr).le

variable {n : ℕ} (hne : l ≠ [])

/-- From any place the next member is within the widest gap, in this turn of the
cycle or in the next. -/
theorem next_within (x : ℕ) :
    (∃ r ∈ l, x < r ∧ r ≤ x+widest (n-l.getLast hne+l.head hne) l) ∨
      (∀ r ∈ l, r ≤ x) ∧ n+l.head hne ≤ x+widest (n-l.getLast hne+l.head hne) l := by
  have hwrap := wrap_le_fold (l.zip l.tail) (n-l.getLast hne+l.head hne)
  rw [← widest] at hwrap
  by_cases hlater : ∃ r ∈ l, x < r
  · obtain ⟨r,hr,hxr⟩ := hlater
    refine .inl ?_
    by_cases hearlier : l.head hne ≤ x
    · obtain ⟨p,hp,hpx,hxp⟩ := exists_neighbours hl (List.head_mem hne) hr hearlier hxr
      have hgap := gap_le_fold (l.zip l.tail) (n-l.getLast hne+l.head hne) hp
      rw [← widest] at hgap
      exact ⟨p.2,(neighbours hl hp).2.1,hxp,by omega⟩
    · exact ⟨l.head hne,List.head_mem hne,by omega,by omega⟩
  · have hall : ∀ r ∈ l, r ≤ x := fun r hr => Nat.le_of_not_lt fun h => hlater ⟨r,hr,h⟩
    have hlast := hall _ (List.getLast_mem hne)
    exact .inr ⟨hall,by omega⟩

/-- After some member the next is as far as the widest gap. -/
theorem widest_attained :
    (∃ a ∈ l, ∃ b ∈ l, a < b ∧ (∀ r ∈ l, r ≤ a ∨ b ≤ r) ∧
        widest (n-l.getLast hne+l.head hne) l = b-a) ∨
      widest (n-l.getLast hne+l.head hne) l = n-l.getLast hne+l.head hne := by
  obtain h | ⟨p,hp,h⟩ := fold_cases (l.zip l.tail) (n-l.getLast hne+l.head hne)
  · exact .inr h
  · obtain ⟨ha,hb,hlt,hnone⟩ := neighbours hl hp
    exact .inl ⟨p.1,ha,p.2,hb,hlt,hnone,h⟩

end Neighbours

end Radar.CyclicGap
