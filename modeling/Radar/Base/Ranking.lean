import Mathlib.Data.List.Sort
import Mathlib.Data.Prod.Lex

/-!
# Choosing and sorting by a comparator

A comparator that says whether one key is below another one, for keys in a
linear order: the element a scan settles on has a largest key, and a sort of
elements with distinct keys depends on the elements only.
-/

set_option autoImplicit false

namespace Radar.Ranking

variable {α κ : Type*} [LinearOrder κ]

/-- `less a b` says that the key of `a` is below the key of `b`. -/
def Ranks (less : α → α → Bool) (key : α → κ) : Prop :=
  ∀ a b, less a b = true ↔ key a < key b

/-- `sort.SliceStable(xs, less)` -/
def sorted (less : α → α → Bool) (xs : List α) : List α :=
  xs.insertionSort fun a b => less b a = false

/-- `best := xs[0]; for x in xs[1:] { if better(x, best) { best = x } }` -/
def best (better : α → α → Bool) (first : α) (rest : List α) : α :=
  rest.foldl (fun b x => if better x b then x else b) first

section Keys

variable {μ : Type*} [LinearOrder μ]

/-- `if x != y { return x < y }; return rest` -/
theorem then_less {p : Prop} [Decidable p] {q : Prop} [Decidable q] {x y : κ} {u v : μ} {r : Bool}
    (hp : p ↔ x ≠ y) (hq : q ↔ x < y) (h : r = true ↔ u < v) :
    (if p then decide q else r) = true ↔ toLex (x, u) < toLex (y, v) := by
  rw [Prod.Lex.toLex_lt_toLex]
  by_cases hne : p
  · rw [if_pos hne, decide_eq_true_iff, hq]
    have hxy : x ≠ y := hp.mp hne
    exact ⟨.inl,fun hlt => hlt.resolve_right fun heq => hxy heq.1⟩
  · rw [if_neg hne, h]
    have hxy : x = y := not_not.mp fun hxy => hne (hp.mpr hxy)
    exact ⟨fun hlt => .inr ⟨hxy,hlt⟩,fun hlt => (hlt.resolve_left (hxy ▸ lt_irrefl x)).2⟩

end Keys

section Sorted

variable {less : α → α → Bool} {key : α → κ}

theorem sorted_perm (xs : List α) : (sorted less xs).Perm xs := List.perm_insertionSort _ xs

theorem sorted_ascending (h : Ranks less key) (xs : List α) :
    (sorted less xs).Pairwise fun a b => key a ≤ key b := by
  have hle : ∀ a b, less b a = false ↔ key a ≤ key b := by
    intro a b
    rw [← not_lt, ← h b a, Bool.not_eq_true]
  have htotal : Std.Total (fun a b : α => less b a = false) := by
    constructor
    intro a b
    rw [hle, hle]
    exact le_total (key a) (key b)
  have htrans : IsTrans α (fun a b => less b a = false) := by
    constructor
    intro a b c hab hbc
    rw [hle] at hab hbc ⊢
    exact hab.trans hbc
  exact (List.pairwise_insertionSort _ xs).imp fun hab => (hle _ _).mp hab

/-- Two orders of the same elements sort to the same list when no two share a key. -/
theorem sorted_eq (h : Ranks less key) {xs ys : List α} (hp : xs.Perm ys)
    (hinj : ∀ a ∈ xs, ∀ b ∈ xs, key a = key b → a = b) : sorted less xs = sorted less ys := by
  have hperm : (sorted less xs).Perm (sorted less ys) :=
    (sorted_perm xs).trans (hp.trans (sorted_perm ys).symm)
  apply List.Perm.eq_of_pairwise _ (sorted_ascending h xs) (sorted_ascending h ys) hperm
  intro a b ha hb hab hba
  have hax := (sorted_perm xs).mem_iff.mp ha
  have hbx := hp.mem_iff.mpr ((sorted_perm ys).mem_iff.mp hb)
  exact hinj a hax b hbx (le_antisymm hab hba)

end Sorted

section Best

variable {better : α → α → Bool} {key : α → κ}

variable (better) in
theorem best_mem (first : α) (rest : List α) : best better first rest ∈ first::rest := by
  induction rest generalizing first with
  | nil => exact List.mem_singleton_self first
  | cons x xs ih =>
    have hstep := ih (if better x first then x else first)
    rw [best, List.foldl_cons]
    rw [List.mem_cons] at hstep ⊢
    cases hstep with
    | inl heq =>
      by_cases hx : better x first = true
      · rw [if_pos hx] at heq ⊢
        exact .inr (List.mem_cons.mpr (.inl heq))
      · rw [if_neg hx] at heq ⊢
        exact .inl heq
    | inr hm => exact .inr (List.mem_cons_of_mem x hm)

theorem best_max (h : Ranks (fun a b => better b a) key) (first : α) (rest : List α) :
    ∀ x ∈ first::rest, key x ≤ key (best better first rest) := by
  induction rest generalizing first with
  | nil =>
    intro x hx
    rw [List.mem_singleton.mp hx]
    exact le_rfl
  | cons y ys ih =>
    have hstep := ih (if better y first then y else first)
    have hnext : key (if better y first then y else first) ≤
        key (best better first (y::ys)) := hstep _ List.mem_cons_self
    intro x hx
    rw [List.mem_cons, List.mem_cons] at hx
    by_cases hy : better y first = true
    · have hlt : key first < key y := (h first y).mp hy
      rw [if_pos hy] at hnext
      obtain rfl | rfl | hm := hx
      · exact hlt.le.trans hnext
      · exact hnext
      · exact hstep x (List.mem_cons_of_mem _ hm)
    · have hle : key y ≤ key first := not_lt.mp fun hlt => hy ((h first y).mpr hlt)
      rw [if_neg hy] at hnext
      obtain rfl | rfl | hm := hx
      · exact hnext
      · exact hle.trans hnext
      · exact hstep x (List.mem_cons_of_mem _ hm)

/-- A first element that nothing exceeds is kept. -/
theorem best_first (h : Ranks (fun a b => better b a) key) (first : α) (rest : List α)
    (hmax : ∀ x ∈ rest, key x ≤ key first) : best better first rest = first := by
  induction rest with
  | nil => rfl
  | cons y ys ih =>
    have hy : ¬better y first = true := fun hb =>
      absurd ((h first y).mp hb) (not_lt.mpr (hmax y List.mem_cons_self))
    rw [best, List.foldl_cons, if_neg hy]
    exact ih fun x hx => hmax x (List.mem_cons_of_mem y hx)

end Best

end Radar.Ranking
