import Mathlib.Data.List.Basic
import Mathlib.Logic.Function.Basic

/-!
# Windows of a ring of slots

Write number `w` (counted from zero) of a ring with `n` slots goes to slot
`w % n`. After `w` writes the ring shows its last `min w n` writes. The
window lists their slots oldest first.
-/

set_option autoImplicit false

namespace Radar.Ring

variable {α : Type*}

/-- The slots of the last `min w n` writes, oldest first. -/
def slots (n w : ℕ) : List ℕ :=
  (List.range (min w n)).map (fun i => (w-min w n+i) % n)

def window (n w : ℕ) (f : ℕ → α) : List α := (slots n w).map f

theorem mem_slots {n w j : ℕ} :
    j ∈ slots n w ↔ ∃ k, k < w ∧ w ≤ k+n ∧ k % n = j := by
  simp only [slots, List.mem_map, List.mem_range]
  constructor
  · rintro ⟨i, hi, rfl⟩
    exact ⟨w-min w n+i, by omega, by omega, rfl⟩
  · rintro ⟨k, hk, hk', rfl⟩
    refine ⟨k-(w-min w n), by omega, ?_⟩
    rw [show w-min w n+(k-(w-min w n)) = k by omega]

theorem slot_ne {n a b : ℕ} (hab : a < b) (hb : b < a+n) : a % n ≠ b % n := by
  intro h
  have hd : n ∣ b-a := Nat.dvd_of_mod_eq_zero (Nat.sub_mod_eq_zero_of_mod_eq h.symm)
  have := Nat.le_of_dvd (by omega) hd
  omega

theorem slot_inj {n lo a b : ℕ} (ha : lo ≤ a) (ha' : a < lo+n) (hb : lo ≤ b) (hb' : b < lo+n)
    (h : a % n = b % n) : a = b := by
  rcases Nat.lt_trichotomy a b with hlt | heq | hgt
  · exact absurd h (slot_ne hlt (by omega))
  · exact heq
  · exact absurd h.symm (slot_ne hgt (by omega))

/-- The head-and-count walk of a ring visits the same slot as the write number. -/
theorem head_walk {n w i : ℕ} (hi : i < min w n) :
    (w % n+n-min w n+i) % n = (w-min w n+i) % n := by
  have hn : 0 < n := by omega
  have hw := Nat.mod_add_div w n
  have hlt := Nat.mod_lt w hn
  rcases Nat.le_total w n with h | h
  · rcases Nat.lt_or_eq_of_le h with h | rfl
    · rw [Nat.mod_eq_of_lt h, Nat.min_eq_left (by omega)]
      rw [show w+n-w+i = (w-w+i)+n by omega, Nat.add_mod_right]
    · simp
  · rw [Nat.min_eq_right h]
    have h1 : w % n+n-n+i = w % n+i := by omega
    have h2 : (w-n) % n = w % n := by
      conv_rhs => rw [← Nat.sub_add_cancel h, Nat.add_mod_right]
    rw [h1, Nat.mod_add_mod, Nat.add_mod (w-n), h2, ← Nat.add_mod]

theorem slots_of_le {n w : ℕ} (h : w ≤ n) : slots n w = (List.range w).map (fun i => i % n) := by
  simp [slots, Nat.min_eq_left h]

/-- A full ring shows its oldest slot and then the rest of the window. -/
theorem slots_of_ge {n w : ℕ} (hn : 0 < n) (h : n ≤ w) :
    slots n w = ((w-n) % n) :: (List.range (n-1)).map (fun i => (w-n+1+i) % n) := by
  obtain ⟨k, rfl⟩ : ∃ k, n = k+1 := ⟨n-1, by omega⟩
  rw [slots, Nat.min_eq_right h, List.range_succ_eq_map, List.map_cons, List.map_map]
  congr 1
  apply List.map_congr_left
  intro i _
  simp only [Function.comp_apply]
  congr 1
  omega

theorem slots_succ (n w : ℕ) (hn : 0 < n) :
    slots n (w+1) = (if w < n then slots n w else (slots n w).tail) ++ [w % n] := by
  split
  · next h =>
    rw [slots_of_le (show w+1 ≤ n by omega), slots_of_le (Nat.le_of_lt h), List.range_succ,
      List.map_append]
    rfl
  · next h =>
    obtain ⟨k, rfl⟩ : ∃ k, n = k+1 := ⟨n-1, by omega⟩
    rw [slots_of_ge hn (show k+1 ≤ w by omega), List.tail_cons, slots,
      Nat.min_eq_right (show k+1 ≤ w+1 by omega), List.range_succ, List.map_append]
    rw [show w-(k+1)+1 = w+1-(k+1) by omega]
    congr 1
    simp only [List.map_cons, List.map_nil]
    rw [show w+1-(k+1)+k = w by omega]

/-- Walking back from the newest write visits the same slots in reverse. -/
theorem slots_reverse (n w : ℕ) :
    (slots n w).reverse = (List.range (min w n)).map (fun i => (w-1-i) % n) := by
  apply List.ext_getElem
  · simp [slots]
  · intro i h1 h2
    simp only [slots, List.length_reverse, List.length_map, List.length_range] at h1
    simp only [slots, List.getElem_reverse, List.getElem_map, List.getElem_range,
      List.length_map, List.length_range]
    rw [show w-min w n+(min w n-1-i) = w-1-i by omega]

theorem head_walk_back {n w i : ℕ} (hi : i < min w n) :
    (w % n+n-1-i) % n = (w-1-i) % n := by
  have hdiv := Nat.mod_add_div w n
  have hlt := Nat.mod_lt w (show 0 < n by omega)
  obtain ⟨q, hq⟩ : ∃ q, q = w/n := ⟨_, rfl⟩
  rw [← hq] at hdiv
  have hsum : w-1-i+n = w % n+n-1-i+n*q := by omega
  rw [← Nat.add_mod_right (w-1-i) n, hsum, Nat.add_mul_mod_self_left]

end Radar.Ring
