import Mathlib.Data.List.Infix
import Mathlib.Data.List.Sort
import Mathlib.Data.String.Basic

/-!
# Sets listed as text

A set of names is listed by skipping the ones already seen and sorting the
rest. The listing has the members of the list it came from, is strictly
sorted, and depends on the members only.
-/

set_option autoImplicit false

namespace Radar.Names

section Distinct

variable {α : Type*} [DecidableEq α]

/-- The first occurrence of every element that is not in `seen`. -/
def distinctFrom (seen : List α) : List α → List α
  | [] => []
  | a::as => if a ∈ seen then distinctFrom seen as else a::distinctFrom (a::seen) as

theorem mem_distinctFrom {seen as : List α} {x : α} :
    x ∈ distinctFrom seen as ↔ x ∈ as ∧ x ∉ seen := by
  induction as generalizing seen with
  | nil => simp [distinctFrom]
  | cons a as ih =>
    by_cases ha : a ∈ seen
    · rw [distinctFrom, if_pos ha, ih, List.mem_cons]
      by_cases hx : x = a
      · simp [hx, ha]
      · simp [hx]
    · rw [distinctFrom, if_neg ha, List.mem_cons, ih, List.mem_cons, List.mem_cons]
      by_cases hx : x = a
      · simp [hx, ha]
      · simp [hx]

theorem distinctFrom_nodup (seen as : List α) : (distinctFrom seen as).Nodup := by
  induction as generalizing seen with
  | nil => exact List.nodup_nil
  | cons a as ih =>
    by_cases ha : a ∈ seen
    · rw [distinctFrom, if_pos ha]
      exact ih seen
    · rw [distinctFrom, if_neg ha, List.nodup_cons]
      exact ⟨fun h => (mem_distinctFrom.mp h).2 List.mem_cons_self,ih (a::seen)⟩

theorem distinctFrom_eq_filter (seen as : List α) :
    distinctFrom seen as = (distinctFrom [] as).filter (fun x => x ∉ seen) := by
  induction as generalizing seen with
  | nil => rfl
  | cons a as ih =>
    have hempty : distinctFrom [] (a::as) =
        a::(distinctFrom [] as).filter (fun x => x ∉ [a]) := by
      rw [distinctFrom, if_neg List.not_mem_nil, ih [a]]
    rw [hempty]
    by_cases ha : a ∈ seen
    · rw [distinctFrom, if_pos ha, ih seen, List.filter_cons_of_neg (by simpa using ha),
        List.filter_filter]
      apply List.filter_congr
      intro x _
      by_cases hx : x = a
      · simp [hx, ha]
      · simp [hx]
    · rw [distinctFrom, if_neg ha, ih (a::seen), List.filter_cons_of_pos (by simpa using ha),
        List.filter_filter]
      congr 1
      apply List.filter_congr
      intro x _
      by_cases hx : x = a
      · simp [hx]
      · simp [hx]

theorem distinctFrom_seen_congr {seen seen' : List α} (h : ∀ x, x ∈ seen ↔ x ∈ seen')
    (as : List α) : distinctFrom seen as = distinctFrom seen' as := by
  rw [distinctFrom_eq_filter seen, distinctFrom_eq_filter seen']
  apply List.filter_congr
  intro x _
  exact decide_eq_decide.mpr (not_congr (h x))

theorem distinctFrom_append (seen as bs : List α) :
    distinctFrom seen (as++bs) = distinctFrom seen as++distinctFrom (as++seen) bs := by
  induction as generalizing seen with
  | nil => rfl
  | cons a as ih =>
    rw [List.cons_append]
    by_cases ha : a ∈ seen
    · have hsame : ∀ x, x ∈ as++seen ↔ x ∈ a::(as++seen) := by
        intro x
        rw [List.mem_cons]
        refine ⟨.inr,fun h => h.elim (fun hx => ?_) id⟩
        exact List.mem_append_right as (hx ▸ ha)
      rw [distinctFrom, if_pos ha, distinctFrom, if_pos ha, ih seen, List.cons_append,
        distinctFrom_seen_congr hsame]
    · have hsame : ∀ x, x ∈ as++a::seen ↔ x ∈ a::(as++seen) := by
        intro x
        exact List.perm_middle.mem_iff
      rw [distinctFrom, if_neg ha, distinctFrom, if_neg ha, ih (a::seen), List.cons_append,
        List.cons_append, distinctFrom_seen_congr hsame]

/-- Where one listing begins another one, the longer one is the listing of both. -/
theorem distinct_append_longer {as bs : List α}
    (h : distinctFrom [] as <+: distinctFrom [] bs) :
    distinctFrom [] (as++bs) = distinctFrom [] bs := by
  rw [distinctFrom_append, List.append_nil, distinctFrom_eq_filter as]
  obtain ⟨t,ht⟩ := h
  have hnodup := distinctFrom_nodup [] bs
  rw [← ht, List.nodup_append] at hnodup
  have hleft : (distinctFrom [] as).filter (fun x => x ∉ as) = [] := by
    rw [List.filter_eq_nil_iff]
    intro x hx
    simpa using (mem_distinctFrom.mp hx).1
  have hright : t.filter (fun x => x ∉ as) = t := by
    rw [List.filter_eq_self]
    intro x hx
    have hne : x ∉ distinctFrom [] as := fun hm => hnodup.2.2 x hm x hx rfl
    rw [mem_distinctFrom] at hne
    simpa using hne
  rw [← ht, List.filter_append, hleft, hright, List.nil_append]

theorem distinct_append_shorter {as bs : List α}
    (h : distinctFrom [] bs <+: distinctFrom [] as) :
    distinctFrom [] (as++bs) = distinctFrom [] as := by
  have hnone : (distinctFrom [] bs).filter (fun x => x ∉ as) = [] := by
    rw [List.filter_eq_nil_iff]
    intro x hx
    simpa using (mem_distinctFrom.mp (h.subset hx)).1
  rw [distinctFrom_append, List.append_nil, distinctFrom_eq_filter as, hnone, List.append_nil]

/-- Lists whose listings begin one another are listed together as the longest of them. -/
theorem distinct_chain {β : Type*} (f : β → List α) (b : β) (bs : List β)
    (h : ∀ x ∈ b::bs, ∀ y ∈ b::bs, distinctFrom [] (f x) <+: distinctFrom [] (f y) ∨
      distinctFrom [] (f y) <+: distinctFrom [] (f x)) :
    ∃ m ∈ b::bs, distinctFrom [] ((b::bs).flatMap f) = distinctFrom [] (f m) ∧
      ∀ x ∈ b::bs, distinctFrom [] (f x) <+: distinctFrom [] (f m) := by
  induction bs generalizing b with
  | nil =>
    refine ⟨b,List.mem_singleton_self b,by simp,fun x hx => ?_⟩
    rw [List.mem_singleton.mp hx]
  | cons c cs ih =>
    obtain ⟨m,hm,heq,hall⟩ := ih c fun x hx y hy =>
      h x (List.mem_cons_of_mem b hx) y (List.mem_cons_of_mem b hy)
    have hcut : distinctFrom [] ((b::c::cs).flatMap f) = distinctFrom [] (f b++f m) := by
      rw [List.flatMap_cons, distinctFrom_append, distinctFrom_append, List.append_nil,
        distinctFrom_eq_filter (f b), distinctFrom_eq_filter (f b) (f m), heq]
    rw [hcut]
    cases h b List.mem_cons_self m (List.mem_cons_of_mem b hm) with
    | inl hle =>
      refine ⟨m,List.mem_cons_of_mem b hm,distinct_append_longer hle,fun x hx => ?_⟩
      cases List.mem_cons.mp hx with
      | inl hxb => exact hxb ▸ hle
      | inr hx => exact hall x hx
    | inr hle =>
      refine ⟨b,List.mem_cons_self,distinct_append_shorter hle,fun x hx => ?_⟩
      cases List.mem_cons.mp hx with
      | inl hxb => exact hxb ▸ List.prefix_refl _
      | inr hx => exact (hall x hx).trans hle

end Distinct

section Sorted

variable {α : Type*} [LinearOrder α]

def sorted (as : List α) : List α := as.insertionSort (· ≤ ·)

@[simp] theorem mem_sorted {as : List α} {x : α} : x ∈ sorted as ↔ x ∈ as :=
  (List.perm_insertionSort _ as).mem_iff

theorem sorted_pairwise (as : List α) : (sorted as).Pairwise (· ≤ ·) :=
  List.pairwise_insertionSort _ as

theorem sorted_strict {as : List α} (h : as.Nodup) : (sorted as).Pairwise (· < ·) := by
  have hnodup : (sorted as).Nodup := (List.perm_insertionSort _ as).nodup_iff.mpr h
  exact ((sorted_pairwise as).and hnodup).imp fun h => lt_of_le_of_ne h.1 h.2

/-- A listing without repetitions depends on its members only. -/
theorem sorted_eq {as bs : List α} (ha : as.Nodup) (hb : bs.Nodup) (h : ∀ x, x ∈ as ↔ x ∈ bs) :
    sorted as = sorted bs := by
  apply (sorted_strict ha).eq_of_mem_iff (sorted_strict hb)
  intro x
  rw [mem_sorted, mem_sorted, h x]

theorem sorted_congr {seen as bs : List α}
    (h : ∀ x, x ∈ distinctFrom seen as ↔ x ∈ distinctFrom seen bs) :
    sorted (distinctFrom seen as) = sorted (distinctFrom seen bs) :=
  sorted_eq (distinctFrom_nodup seen as) (distinctFrom_nodup seen bs) h

/-- Each element that differs from the one before it. -/
def compact : List α → List α
  | [] => []
  | [a] => [a]
  | a::b::as => if b = a then compact (b::as) else a::compact (b::as)

theorem mem_compact {as : List α} {x : α} : x ∈ compact as ↔ x ∈ as := by
  induction as with
  | nil => rfl
  | cons a as ih =>
    cases as with
    | nil => rfl
    | cons b as =>
      by_cases hb : b = a
      · rw [compact, if_pos hb, ih, hb]
        simp
      · rw [compact, if_neg hb, List.mem_cons, ih, List.mem_cons (a := x) (b := a)]

theorem compact_strict {as : List α} (h : as.Pairwise (· ≤ ·)) :
    (compact as).Pairwise (· < ·) := by
  induction as with
  | nil => exact List.Pairwise.nil
  | cons a as ih =>
    cases as with
    | nil => exact List.pairwise_singleton _ a
    | cons b as =>
      rw [List.pairwise_cons] at h
      have hrest := ih h.2
      by_cases hb : b = a
      · rw [compact, if_pos hb]
        exact hrest
      · rw [compact, if_neg hb, List.pairwise_cons]
        refine ⟨fun x hx => ?_,hrest⟩
        have hab : a < b := lt_of_le_of_ne (h.1 b List.mem_cons_self) (Ne.symm hb)
        obtain rfl | hx := List.mem_cons.mp (mem_compact.mp hx)
        · exact hab
        · exact hab.trans_le ((List.pairwise_cons.mp h.2).1 x hx)

/-- A compacted sort lists the set of the elements. -/
theorem compact_sorted_eq_iff {as bs : List α} :
    compact (sorted as) = compact (sorted bs) ↔ ∀ x, x ∈ as ↔ x ∈ bs := by
  constructor
  · intro h x
    rw [← mem_sorted, ← mem_compact, h, mem_compact, mem_sorted]
  · intro h
    apply (compact_strict (sorted_pairwise as)).eq_of_mem_iff (compact_strict (sorted_pairwise bs))
    intro x
    rw [mem_compact, mem_sorted, mem_compact, mem_sorted, h x]

end Sorted

end Radar.Names
