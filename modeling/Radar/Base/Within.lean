import Mathlib.Data.Nat.Notation
import Mathlib.Data.Set.Defs

/-!
# Reachability in a number of steps

What a relation reaches from a root in at most so many steps. A set that has
one layer and, outside of a fringe, whatever its elements are related to, has
the next layer as soon as the fringe is new.
-/

set_option autoImplicit false

namespace Radar

variable {α : Type*} (r : α → α → Prop) (root : α)

inductive Within : ℕ → α → Prop where
  | root (k : ℕ) : Within k root
  | step {k : ℕ} {a b : α} (ha : Within k a) (hab : r a b) : Within (k+1) b

namespace Within

variable {r root} {k m : ℕ} {a b : α}

theorem zero_iff : Within r root 0 a ↔ a = root := by
  constructor
  · intro h
    cases h
    rfl
  · rintro rfl
    exact .root 0

theorem succ (h : Within r root k a) : Within r root (k+1) a := by
  induction h with
  | root k => exact .root (k+1)
  | step _ hab ih => exact .step ih hab

theorem mono (h : Within r root k a) (hkm : k ≤ m) : Within r root m a := by
  induction hkm with
  | refl => exact h
  | step _ ih => exact ih.succ

/-- Only what is reached from the root is reached. -/
theorem holds (p : α → Prop) (hroot : p root) (hstep : ∀ a b, r a b → p b)
    (h : Within r root k a) : p a := by
  cases h with
  | root _ => exact hroot
  | step _ hab => exact hstep _ _ hab

/-- Nothing is missing from a set that has a layer, if its elements of that layer have what they
are related to. -/
theorem next {s : α → Prop} (hlayer : ∀ a, Within r root k a → s a)
    (hclosed : ∀ a, Within r root k a → ∀ b, r a b → s b) (h : Within r root (k+1) a) : s a := by
  cases h with
  | root _ => exact hlayer root (.root k)
  | step ha hab => exact hclosed _ ha _ hab

/-- A set that has the root and what its elements are related to has every layer. -/
theorem closed {s : α → Prop} (hroot : s root) (hclosed : ∀ a, s a → ∀ b, r a b → s b)
    (h : Within r root k a) : s a := by
  induction h with
  | root _ => exact hroot
  | step _ hab ih => exact hclosed _ ih _ hab

end Within

end Radar
