import Mathlib.Data.List.Sort
import Mathlib.Order.Defs.LinearOrder

/-!
# Sorting

A sort puts out what came in, in the order of a comparator, and is free to
order elements that compare equal as it likes. Where no two elements do, the
result depends on the elements only; where two do, there are sorts that
disagree. With distinct numeric keys a sort commutes with filtering, puts a new
largest element last, and moves a replaced element to the end when its new key
is the largest.
-/

set_option autoImplicit false

namespace Radar

/-- A sort by a comparator; like `slices.SortFunc` it need not be stable. -/
structure SortFunc {α : Type*} (cmp : α → α → Ordering) where
  run : List α → List α
  perm : ∀ l, (run l).Perm l
  sorted : ∀ l, (run l).Pairwise fun a b => cmp a b ≠ .gt

namespace SortFunc

variable {α : Type*} {cmp : α → α → Ordering}

@[simp] theorem mem_run (s : SortFunc cmp) {l : List α} {a : α} : a ∈ s.run l ↔ a ∈ l :=
  (s.perm l).mem_iff

section Oriented

variable [Std.OrientedCmp cmp]

theorem eq_of_le_of_le {a b : α} (h : cmp a b ≠ .gt) (h' : cmp b a ≠ .gt) : cmp a b = .eq := by
  rw [@Std.OrientedCmp.eq_swap α cmp] at h'
  cases hab : cmp a b with
  | lt => rw [hab] at h'; exact absurd rfl h'
  | eq => rfl
  | gt => exact absurd hab h

/-- Sorts agree on elements of which no two compare equal. -/
theorem run_eq (s t : SortFunc cmp) {l m : List α} (hp : l.Perm m)
    (h : ∀ a ∈ l, ∀ b ∈ l, cmp a b = .eq → a = b) : s.run l = t.run m := by
  have hperm : (s.run l).Perm (t.run m) := (s.perm l).trans (hp.trans (t.perm m).symm)
  apply List.Perm.eq_of_pairwise _ (s.sorted l) (t.sorted m) hperm
  intro a b ha hb hab hba
  have hb : b ∈ l := hp.mem_iff.mpr ((t.mem_run).mp hb)
  exact h a (s.mem_run.mp ha) b hb (eq_of_le_of_le hab hba)

end Oriented

section Total

/-- Insertion puts equal elements in the order they come in. -/
def stable (cmp : α → α → Ordering) [Std.TransCmp cmp] : SortFunc cmp where
  run := List.insertionSort fun a b => cmp a b ≠ .gt
  perm := List.perm_insertionSort _
  sorted l := by
    have : Std.Total fun a b => cmp a b ≠ .gt := by
      constructor
      intro a b
      by_contra h
      rw [not_or, not_not, not_not] at h
      have hswap := @Std.OrientedCmp.eq_swap α cmp _ a b
      rw [h.1, h.2] at hswap
      nomatch hswap
    have : IsTrans α fun a b => cmp a b ≠ .gt := by
      constructor
      intro a b c hab hbc
      exact Ordering.isLE_iff_ne_gt.mp (Std.TransCmp.isLE_trans (Ordering.isLE_iff_ne_gt.mpr hab)
        (Ordering.isLE_iff_ne_gt.mpr hbc))
    exact List.pairwise_insertionSort _ l

variable [DecidableEq α]

/-- The order of `cmp`, and among equals `x` before the others. -/
def first (cmp : α → α → Ordering) (x : α) : α → α → Ordering :=
  compareLex cmp (compareOn fun a => decide (a ≠ x))

instance [Std.TransCmp cmp] (x : α) : Std.TransCmp (first cmp x) :=
  inferInstanceAs (Std.TransCmp (compareLex cmp (compareOn fun a => decide (a ≠ x))))

theorem first_le {x a b : α} (h : first cmp x a b ≠ .gt) : cmp a b ≠ .gt := by
  intro hgt
  apply h
  rw [first, compareLex, hgt]
  rfl

theorem first_gt {x y : α} (hne : x ≠ y) (h : cmp y x = .eq) : first cmp x y x = .gt := by
  rw [first, compareLex, h, compareOn, decide_eq_true (Ne.symm hne),
    decide_eq_false (not_not.mpr rfl)]
  rfl

def preferring (cmp : α → α → Ordering) [Std.TransCmp cmp] (x : α) : SortFunc cmp where
  run := (stable (first cmp x)).run
  perm := (stable (first cmp x)).perm
  sorted l := ((stable (first cmp x)).sorted l).imp first_le

/-- Where two elements compare equal, the sorts that prefer them disagree. -/
theorem preferring_ne [Std.TransCmp cmp] {l : List α} {x y : α} (hx : x ∈ l) (hy : y ∈ l)
    (hne : x ≠ y) (h : cmp x y = .eq) : (preferring cmp x).run l ≠ (preferring cmp y).run l := by
  intro heq
  have hboth : ((preferring cmp x).run l).Pairwise fun a b =>
      first cmp x a b ≠ .gt ∧ first cmp y a b ≠ .gt :=
    ((stable (first cmp x)).sorted l).and (heq ▸ (stable (first cmp y)).sorted l)
  have hyx : cmp y x = .eq := by
    rw [@Std.OrientedCmp.eq_swap α cmp, h]
    rfl
  have hx := (preferring cmp x).mem_run.mpr hx
  have hy := (preferring cmp x).mem_run.mpr hy
  obtain ⟨a,b,hab⟩ := List.append_of_mem hx
  rw [hab, List.pairwise_append, List.pairwise_cons] at hboth
  rw [hab, List.mem_append, List.mem_cons] at hy
  obtain hy | heq | hy := hy
  · exact (hboth.2.2 y hy x List.mem_cons_self).1 (first_gt hne hyx)
  · exact hne heq.symm
  · exact (hboth.2.1.1 y hy).2 (first_gt (Ne.symm hne) h)

end Total

end SortFunc

end Radar

namespace Radar.SortBy

variable {α : Type*} (k : α → ℕ)

def ascending (l : List α) : List α := l.insertionSort (fun a b => k a ≤ k b)

def descending (l : List α) : List α := l.insertionSort (fun a b => k b ≤ k a)

variable {k}

theorem ascending_perm (l : List α) : (ascending k l).Perm l := List.perm_insertionSort _ l

theorem descending_perm (l : List α) : (descending k l).Perm l := List.perm_insertionSort _ l

@[simp] theorem mem_ascending {l : List α} {a : α} : a ∈ ascending k l ↔ a ∈ l :=
  (ascending_perm l).mem_iff

theorem ascending_sorted (l : List α) :
    (ascending k l).Pairwise (fun a b => k a ≤ k b) := by
  have : Std.Total (fun a b : α => k a ≤ k b) := ⟨fun a b => Nat.le_total (k a) (k b)⟩
  have : IsTrans α (fun a b => k a ≤ k b) := ⟨fun _ _ _ => Nat.le_trans⟩
  exact List.pairwise_insertionSort _ l

theorem descending_sorted (l : List α) :
    (descending k l).Pairwise (fun a b => k b ≤ k a) := by
  have : Std.Total (fun a b : α => k b ≤ k a) := ⟨fun a b => Nat.le_total (k b) (k a)⟩
  have : IsTrans α (fun a b => k b ≤ k a) := ⟨fun _ _ _ h h' => Nat.le_trans h' h⟩
  exact List.pairwise_insertionSort _ l

theorem eq_of_key_eq {l : List α} (hs : l.Pairwise (fun a b => k a < k b)) {a b : α}
    (ha : a ∈ l) (hb : b ∈ l) (h : k a = k b) : a = b := by
  have hnodup : (l.map k).Nodup := by
    rw [List.Nodup, List.pairwise_map]
    exact hs.imp fun hlt => Nat.ne_of_lt hlt
  exact List.inj_on_of_nodup_map hnodup ha hb h

/-- A strictly sorted rearrangement is the sort. -/
theorem ascending_eq {l l' : List α} (hp : l.Perm l')
    (hs : l'.Pairwise (fun a b => k a < k b)) : ascending k l = l' := by
  have hperm := (ascending_perm (k := k) l).trans hp
  apply List.Perm.eq_of_pairwise _ (ascending_sorted l) (hs.imp Nat.le_of_lt) hperm
  intro a b ha hb hab hba
  exact eq_of_key_eq hs (hperm.mem_iff.mp ha) hb (Nat.le_antisymm hab hba)

theorem ascending_strict {l : List α} (h : (l.map k).Nodup) :
    (ascending k l).Pairwise (fun a b => k a < k b) := by
  have hnodup : ((ascending k l).map k).Nodup := ((ascending_perm l).map k).nodup_iff.mpr h
  rw [List.Nodup, List.pairwise_map] at hnodup
  exact ((ascending_sorted l).and hnodup).imp fun h => Nat.lt_of_le_of_ne h.1 h.2

theorem descending_eq_reverse {l : List α} (h : (l.map k).Nodup) :
    descending k l = (ascending k l).reverse := by
  have hs := ascending_strict h
  have hperm : (descending k l).Perm (ascending k l).reverse :=
    (descending_perm l).trans ((ascending_perm l).symm.trans (List.reverse_perm _).symm)
  refine List.Perm.eq_of_pairwise ?_ (descending_sorted l) ?_ hperm
  · intro a b ha hb hab hba
    exact eq_of_key_eq hs (List.mem_reverse.mp (hperm.mem_iff.mp ha)) (List.mem_reverse.mp hb)
      (Nat.le_antisymm hba hab)
  · rw [List.pairwise_reverse]
    exact hs.imp Nat.le_of_lt

theorem ascending_filter {l : List α} (p : α → Bool) (h : (l.map k).Nodup) :
    ascending k (l.filter p) = (ascending k l).filter p :=
  ascending_eq ((ascending_perm l).symm.filter p) ((ascending_strict h).filter p)

theorem ascending_append {l : List α} {a : α} (h : (l.map k).Nodup)
    (hmax : ∀ b ∈ l, k b < k a) : ascending k (l++[a]) = ascending k l++[a] := by
  apply ascending_eq ((ascending_perm l).symm.append_right [a])
  rw [List.pairwise_append]
  refine ⟨ascending_strict h, List.pairwise_singleton _ _, ?_⟩
  intro b hb c hc
  rw [List.mem_singleton.mp hc]
  exact hmax b (mem_ascending.mp hb)

/-- Replacing the one element that satisfies `p`, by one with a new largest key. -/
theorem ascending_replace {l : List α} {p : α → Bool} {g : α → α} {a : α}
    (h : (l.map k).Nodup) (ha : a ∈ l) (hpa : p a = true) (honly : ∀ b ∈ l, p b = true → b = a)
    (hmax : ∀ b ∈ l, k b < k (g a)) :
    ascending k (l.map (fun b => if p b then g b else b)) =
      (ascending k l).filter (fun b => !p b)++[g a] := by
  classical
  have hnodup : l.Nodup := List.Nodup.of_map k h
  have hrest : ∀ b ∈ l.erase a, p b = false := by
    intro b hb
    cases hpb : p b with
    | false => rfl
    | true =>
      have := (hnodup.mem_erase_iff.mp hb).1
      exact absurd (honly b (List.mem_of_mem_erase hb) hpb) this
  have hmap : (l.erase a).map (fun b => if p b then g b else b) = l.erase a := by
    rw [List.map_congr_left (g := id) (fun b hb => by simp [hrest b hb]), List.map_id]
  have hfilter : (l.erase a).filter (fun b => !p b) = l.erase a :=
    List.filter_eq_self.mpr fun b hb => by simp [hrest b hb]
  have hperm := List.perm_cons_erase ha
  have hleft : (l.map (fun b => if p b then g b else b)).Perm (l.erase a++[g a]) := by
    have := hperm.map (fun b => if p b then g b else b)
    rw [List.map_cons, hmap, if_pos hpa] at this
    exact this.trans (List.perm_append_singleton _ _).symm
  have hright : ((ascending k l).filter (fun b => !p b)).Perm (l.erase a) := by
    have := ((ascending_perm (k := k) l).trans hperm).filter (fun b => !p b)
    rw [List.filter_cons_of_neg (by simp [hpa]), hfilter] at this
    exact this
  apply ascending_eq (hleft.trans (hright.symm.append_right _))
  rw [List.pairwise_append]
  refine ⟨(ascending_strict h).filter _, List.pairwise_singleton _ _, ?_⟩
  intro b hb c hc
  rw [List.mem_singleton.mp hc]
  exact hmax b (mem_ascending.mp (List.mem_of_mem_filter hb))

end Radar.SortBy
