import Mathlib.Data.Nat.Notation
import Mathlib.Logic.Function.Basic

/-!
# Stores of cells

Cells are allocated upward and written by address. A program that owns some
of the cells may write these and the ones it allocated; `Keeps` says that it
left every other cell of the store it started from as it was.
-/

set_option autoImplicit false

namespace Radar

/-- Cells below `next` are in use. -/
structure Store (V : Type*) where
  cell : ℕ → V
  next : ℕ

namespace Store

variable {V : Type*}

def alloc (s : Store V) (v : V) : ℕ × Store V :=
  (s.next,⟨Function.update s.cell s.next v,s.next+1⟩)

def write (s : Store V) (a : ℕ) (v : V) : Store V := ⟨Function.update s.cell a v,s.next⟩

@[simp] theorem write_next (s : Store V) (a : ℕ) (v : V) : (s.write a v).next = s.next := rfl

@[simp] theorem write_cell (s : Store V) (a : ℕ) (v : V) : (s.write a v).cell a = v := by
  simp [write]

theorem write_cell_ne (s : Store V) {a b : ℕ} (v : V) (h : b ≠ a) :
    (s.write a v).cell b = s.cell b := by simp [write, h]

@[simp] theorem alloc_addr (s : Store V) (v : V) : (s.alloc v).1 = s.next := rfl

@[simp] theorem alloc_next (s : Store V) (v : V) : (s.alloc v).2.next = s.next+1 := rfl

@[simp] theorem alloc_cell (s : Store V) (v : V) : (s.alloc v).2.cell s.next = v := by
  simp [alloc]

theorem alloc_cell_lt (s : Store V) (v : V) {a : ℕ} (h : a < s.next) :
    (s.alloc v).2.cell a = s.cell a := by simp [alloc, Nat.ne_of_lt h]

/-- Every cell in use that is not owned is as it was. -/
structure Keeps (own : ℕ → Prop) (s t : Store V) : Prop where
  next : s.next ≤ t.next
  cell : ∀ a, a < s.next → ¬own a → t.cell a = s.cell a

variable {own : ℕ → Prop} {s t u : Store V}

theorem keeps_refl (s : Store V) : Keeps own s s := ⟨Nat.le_refl _,fun _ _ _ => rfl⟩

theorem Keeps.trans (h : Keeps own s t) (h' : Keeps own t u) : Keeps own s u where
  next := Nat.le_trans h.next h'.next
  cell a ha ho := by
    rw [h'.cell a (Nat.lt_of_lt_of_le ha h.next) ho, h.cell a ha ho]

theorem Keeps.mono {own' : ℕ → Prop} (h : Keeps own s t) (ho : ∀ a, a < s.next → own a → own' a) :
    Keeps own' s t :=
  ⟨h.next,fun a ha hn => h.cell a ha fun hown => hn (ho a ha hown)⟩

theorem keeps_alloc (s : Store V) (v : V) : Keeps own s (s.alloc v).2 :=
  ⟨Nat.le_succ _,fun _ ha _ => alloc_cell_lt s v ha⟩

theorem Keeps.write_new (h : Keeps own s t) {a : ℕ} (ha : s.next ≤ a) (v : V) :
    Keeps own s (t.write a v) where
  next := h.next
  cell b hb ho := by
    rw [write_cell_ne t v (Nat.ne_of_lt (Nat.lt_of_lt_of_le hb ha)), h.cell b hb ho]

theorem keeps_write (s : Store V) {a : ℕ} (ha : own a) (v : V) : Keeps own s (s.write a v) where
  next := Nat.le_refl _
  cell _ _ ho := write_cell_ne s v fun hb => ho (hb ▸ ha)

end Store

end Radar
