import Mathlib.Data.List.Basic
import Mathlib.Tactic.Tauto

/-!
# Three-valued answers

An answer may be open. `fold` merges alternatives and `both` merges
requirements. A definite answer settles a proposition and an open one says
nothing, and this reading is kept by both connectives and by a fold over a
list of alternatives.
-/

set_option autoImplicit false

namespace Radar

inductive Tri where
  | unknown
  | yes
  | no
  deriving DecidableEq, Repr

namespace Tri

/-- Alternatives: yes as soon as one is, no only when both are. -/
def fold : Tri → Tri → Tri
  | yes, _ => yes
  | _, yes => yes
  | unknown, _ => unknown
  | _, unknown => unknown
  | no, no => no

/-- Requirements: no as soon as one is, yes only when both are. -/
def both : Tri → Tri → Tri
  | no, _ => no
  | _, no => no
  | unknown, _ => unknown
  | _, unknown => unknown
  | yes, yes => yes

@[simp] theorem fold_no_left (t : Tri) : fold no t = t := by cases t <;> rfl

@[simp] theorem fold_no_right (t : Tri) : fold t no = t := by cases t <;> rfl

@[simp] theorem fold_yes_left (t : Tri) : fold yes t = yes := rfl

@[simp] theorem fold_yes_right (t : Tri) : fold t yes = yes := by cases t <;> rfl

theorem fold_eq_yes {a b : Tri} : fold a b = yes ↔ a = yes ∨ b = yes := by
  cases a <;> cases b <;> simp [fold]

theorem fold_eq_no {a b : Tri} : fold a b = no ↔ a = no ∧ b = no := by
  cases a <;> cases b <;> simp [fold]

theorem both_eq_yes {a b : Tri} : both a b = yes ↔ a = yes ∧ b = yes := by
  cases a <;> cases b <;> simp [both]

theorem both_eq_no {a b : Tri} : both a b = no ↔ a = no ∨ b = no := by
  cases a <;> cases b <;> simp [both]

/-- A definite answer is right about `p`. -/
structure Settles (t : Tri) (p : Prop) : Prop where
  yes : t = yes → p
  no : t = no → ¬p

theorem settles_unknown (p : Prop) : Settles unknown p where
  yes h := nomatch h
  no h := nomatch h

theorem settles_yes {p : Prop} (h : p) : Settles yes p where
  yes _ := h
  no h := nomatch h

theorem settles_no {p : Prop} (h : ¬p) : Settles no p where
  yes h := nomatch h
  no _ := h

theorem Settles.congr {t : Tri} {p q : Prop} (h : Settles t p) (hpq : p ↔ q) : Settles t q where
  yes ht := hpq.mp (h.yes ht)
  no ht := fun hq => h.no ht (hpq.mpr hq)

theorem Settles.fold {a b : Tri} {p q : Prop} (ha : Settles a p) (hb : Settles b q) :
    Settles (fold a b) (p ∨ q) where
  yes h := by
    apply (fold_eq_yes.mp h).imp
    · exact ha.yes
    · exact hb.yes
  no h := by
    have ⟨hna,hnb⟩ := fold_eq_no.mp h
    exact not_or.mpr ⟨ha.no hna,hb.no hnb⟩

theorem Settles.both {a b : Tri} {p q : Prop} (ha : Settles a p) (hb : Settles b q) :
    Settles (both a b) (p ∧ q) where
  yes h := by
    have ⟨hya,hyb⟩ := both_eq_yes.mp h
    exact ⟨ha.yes hya,hb.yes hyb⟩
  no h := by
    intro hpq
    cases both_eq_no.mp h with
    | inl hna => exact ha.no hna hpq.1
    | inr hnb => exact hb.no hnb hpq.2

theorem exists_mem_cons {α : Type*} (p q : Prop) (P : α → Prop) (a : α) (as : List α)
    (hq : q ↔ p ∨ P a) : (q ∨ ∃ x ∈ as, P x) ↔ (p ∨ ∃ x ∈ a::as, P x) := by
  rw [hq, List.exists_mem_cons_iff, or_assoc]

/-- Folding the answers of a list of alternatives settles whether one holds. -/
theorem settles_foldl {α : Type*} {f : α → Tri} {P : α → Prop} (as : List α) {t : Tri} {p : Prop}
    (ht : Settles t p) (h : ∀ a ∈ as, Settles (f a) (P a)) :
    Settles (as.foldl (fun acc a => Tri.fold acc (f a)) t) (p ∨ ∃ a ∈ as, P a) := by
  induction as generalizing t p with
  | nil => simpa using ht
  | cons a as ih =>
    rw [List.foldl_cons]
    apply (ih (ht.fold (h a List.mem_cons_self)) _).congr
    · exact exists_mem_cons p _ P a as Iff.rfl
    · exact fun x hx => h x (List.mem_cons_of_mem a hx)

end Tri
end Radar
