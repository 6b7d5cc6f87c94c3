import Mathlib.Data.Finset.Card
import Mathlib.Data.List.Basic
import Mathlib.Data.List.Nodup

/-!
# The first element of each key

A pass that skips every element whose key it has seen puts out one element for
each key. Elements that share a key are lost, unless the key tells apart
whatever matters about them.
-/

set_option autoImplicit false

namespace Radar.Firsts

variable {α β : Type*} [DecidableEq β] (key : α → β)

/-- The first element of every key that is not in `seen`. -/
def firstsFrom (seen : List β) : List α → List α
  | [] => []
  | a::as => if key a ∈ seen then firstsFrom seen as else a::firstsFrom (key a::seen) as

def firsts (as : List α) : List α := firstsFrom key [] as

variable {key} {seen : List β} {as : List α} {a : α}

theorem firstsFrom_cons (a : α) (as : List α) : firstsFrom key seen (a::as) =
    if key a ∈ seen then firstsFrom key seen as else a::firstsFrom key (key a::seen) as := rfl

theorem firstsFrom_sublist : (firstsFrom key seen as).Sublist as := by
  induction as generalizing seen with
  | nil => exact List.Sublist.slnil
  | cons a as ih =>
    rw [firstsFrom_cons]
    split_ifs
    · exact ih.trans (List.sublist_cons_self a as)
    · exact ih.cons_cons a

theorem firstsFrom_new (h : a ∈ firstsFrom key seen as) : key a ∉ seen := by
  induction as generalizing seen with
  | nil => nomatch h
  | cons b as ih =>
    rw [firstsFrom_cons] at h
    split_ifs at h with hb
    · exact ih h
    · obtain rfl | h := List.mem_cons.mp h
      · exact hb
      · exact fun hin => ih h (List.mem_cons_of_mem _ hin)

theorem firstsFrom_nodup : ((firstsFrom key seen as).map key).Nodup := by
  induction as generalizing seen with
  | nil => exact List.nodup_nil
  | cons a as ih =>
    rw [firstsFrom_cons]
    split_ifs
    · exact ih
    · rw [List.map_cons, List.nodup_cons]
      refine ⟨fun hin => ?_,ih⟩
      obtain ⟨b,hb,heq⟩ := List.mem_map.mp hin
      exact firstsFrom_new hb (heq ▸ List.mem_cons_self)

theorem exists_firstsFrom (ha : a ∈ as) (hnew : key a ∉ seen) :
    ∃ b ∈ firstsFrom key seen as, key b = key a := by
  induction as generalizing seen with
  | nil => cases ha
  | cons c as ih =>
    rw [firstsFrom_cons]
    split_ifs with hc
    · obtain rfl | ha := List.mem_cons.mp ha
      · exact absurd hc hnew
      · exact ih ha hnew
    · by_cases heq : key a = key c
      · exact ⟨c,List.mem_cons_self,heq.symm⟩
      · have ha : a ∈ as := (List.mem_cons.mp ha).resolve_left fun h => heq (congrArg key h)
        obtain ⟨b,hb,hkey⟩ := ih ha fun hin => (List.mem_cons.mp hin).elim heq hnew
        exact ⟨b,List.mem_cons_of_mem c hb,hkey⟩

theorem firsts_sublist : (firsts key as).Sublist as := firstsFrom_sublist

theorem firsts_nodup : ((firsts key as).map key).Nodup := firstsFrom_nodup

theorem exists_firsts (ha : a ∈ as) : ∃ b ∈ firsts key as, key b = key a :=
  exists_firstsFrom ha List.not_mem_nil

/-- There are as many as there are keys. -/
theorem length_firsts : (firsts key as).length = (as.map key).toFinset.card := by
  have hsame : (as.map key).toFinset = ((firsts key as).map key).toFinset := by
    ext k
    simp only [List.mem_toFinset, List.mem_map]
    constructor
    · rintro ⟨a,ha,rfl⟩
      exact exists_firsts ha
    · rintro ⟨a,ha,rfl⟩
      exact ⟨a,firsts_sublist.subset ha,rfl⟩
  rw [hsame, List.toFinset_card_of_nodup firsts_nodup, List.length_map]

section Classes

variable {γ : Type*} {form : α → γ}

theorem firsts_forms_nodup (hkey : ∀ a b, form a = form b → key a = key b) :
    ((firsts key as).map form).Nodup := by
  rw [List.Nodup, List.pairwise_map]
  exact (List.pairwise_map.mp firsts_nodup).imp fun hab heq => hab (hkey _ _ heq)

variable [DecidableEq γ]

/-- Where the key follows from the form, there are at least as many forms as keys. -/
theorem keys_le_forms (hkey : ∀ a b, form a = form b → key a = key b) :
    (as.map key).toFinset.card ≤ (as.map form).toFinset.card := by
  rw [← length_firsts, ← List.length_map form, ← List.toFinset_card_of_nodup (firsts_forms_nodup hkey)]
  refine Finset.card_le_card fun k hk => ?_
  rw [List.mem_toFinset] at hk ⊢
  exact (firsts_sublist.map form).subset hk

/-- Every form is put out exactly where there are as many keys as forms. -/
theorem forms_kept_iff (hkey : ∀ a b, form a = form b → key a = key b) :
    (∀ a ∈ as, ∃ b ∈ firsts key as, form b = form a) ↔
      (as.map form).toFinset.card = (as.map key).toFinset.card := by
  have hsub : ((firsts key as).map form).toFinset ⊆ (as.map form).toFinset := by
    intro k hk
    rw [List.mem_toFinset] at hk ⊢
    exact (firsts_sublist.map form).subset hk
  have hcard : ((firsts key as).map form).toFinset.card = (as.map key).toFinset.card := by
    rw [List.toFinset_card_of_nodup (firsts_forms_nodup hkey), List.length_map, length_firsts]
  rw [← hcard]
  constructor
  · intro h
    congr 1
    refine (hsub.antisymm fun k hk => ?_).symm
    obtain ⟨a,ha,rfl⟩ := List.mem_map.mp (List.mem_toFinset.mp hk)
    obtain ⟨b,hb,heq⟩ := h a ha
    exact List.mem_toFinset.mpr (List.mem_map.mpr ⟨b,hb,heq⟩)
  · intro h a ha
    have hall := Finset.eq_of_subset_of_card_le hsub h.le
    have hin : form a ∈ ((firsts key as).map form).toFinset := by
      rw [hall]
      exact List.mem_toFinset.mpr (List.mem_map_of_mem ha)
    exact List.mem_map.mp (List.mem_toFinset.mp hin)

/-- The first ones miss a form exactly where there are more forms than those. -/
theorem form_missing_iff (hkey : ∀ a b, form a = form b → key a = key b) {n : ℕ}
    (hn : n ≤ (firsts key as).length) :
    (∃ a ∈ as, ∀ b ∈ (firsts key as).take n, form b ≠ form a) ↔
      n < (as.map form).toFinset.card := by
  have hsub : (((firsts key as).take n).map form).toFinset ⊆ (as.map form).toFinset := by
    intro k hk
    rw [List.mem_toFinset] at hk ⊢
    exact (((List.take_sublist n _).trans firsts_sublist).map form).subset hk
  have hcard : (((firsts key as).take n).map form).toFinset.card = n := by
    have hnodup : (((firsts key as).take n).map form).Nodup :=
      (firsts_forms_nodup hkey).sublist ((List.take_sublist n _).map form)
    rw [List.toFinset_card_of_nodup hnodup, List.length_map, List.length_take, Nat.min_eq_left hn]
  constructor
  · rintro ⟨a,ha,hmiss⟩
    rw [← hcard]
    refine Finset.card_lt_card ⟨hsub,fun hall => ?_⟩
    have hin := hall (List.mem_toFinset.mpr (List.mem_map_of_mem (f := form) ha))
    obtain ⟨b,hb,heq⟩ := List.mem_map.mp (List.mem_toFinset.mp hin)
    exact hmiss b hb heq
  · intro hlt
    rw [← hcard] at hlt
    obtain ⟨k,hk,hout⟩ := Finset.exists_mem_notMem_of_card_lt_card hlt
    obtain ⟨a,ha,rfl⟩ := List.mem_map.mp (List.mem_toFinset.mp hk)
    exact ⟨a,ha,fun b hb heq => hout (List.mem_toFinset.mpr (List.mem_map.mpr ⟨b,hb,heq⟩))⟩

end Classes

end Radar.Firsts
