import Mathlib.Algebra.Group.Int.Defs
import Mathlib.Algebra.Group.Nat.Defs
import Mathlib.Data.Int.Notation
import Mathlib.Data.List.Basic
import Mathlib.Data.Nat.Notation

/-!
# Decimal texts of numbers

A number is determined by its decimal text, which holds digits and at most a
leading minus sign. `strconv.Atoi` reads a text of digits as its number.
Zero-padded fields of equal width compare as character lists exactly as their
numbers do, and a concatenation of such fields compares field by field.
-/

set_option autoImplicit false

namespace Radar.Decimal

theorem nat_text_digit {n : ℕ} {c : Char} (h : c ∈ (toString n).toList) : c.isDigit = true := by
  rw [Nat.toString_eq_repr, Nat.toList_repr] at h
  exact Nat.isDigit_of_mem_toDigits (by decide) (by decide) h

theorem nat_text_inj {m n : ℕ} (h : toString m = toString n) : m = n := by
  have hdigits : Nat.toDigits 10 m = Nat.toDigits 10 n := by
    rw [← Nat.toList_repr, ← Nat.toList_repr, ← Nat.toString_eq_repr, h, Nat.toString_eq_repr]
  rw [← Nat.ofDigitChars_ten_toDigits (n := m), hdigits, Nat.ofDigitChars_ten_toDigits]

theorem nat_text_ne_nil (n : ℕ) : (toString n).toList ≠ [] := by
  rw [Nat.toString_eq_repr, Nat.toList_repr]
  exact Nat.toDigits_ne_nil

/-- No leading zeros. -/
theorem nat_text_head {n : ℕ} (h : n ≠ 0) : (toString n).toList.head? ≠ some '0' := by
  rw [Nat.toString_eq_repr, Nat.toList_repr]
  induction n using Nat.strongRecOn with
  | _ n ih =>
    rw [Nat.toDigits_eq_if (by decide)]
    by_cases hn : n < 10
    · have hdigit : ∀ d < 10, d ≠ 0 → d.digitChar ≠ '0' := by decide
      rw [if_pos hn]
      exact fun h' => hdigit n hn h (Option.some.inj h')
    · have hhead := ih (n/10) (by omega) (by omega)
      have hne : (Nat.toDigits 10 (n/10)).head?.isSome = true := by
        simp [Nat.toDigits_ne_nil]
      rw [if_neg hn, List.head?_append, Option.or_of_isSome hne]
      exact hhead

theorem int_text_ofNat (n : ℕ) : toString (Int.ofNat n) = toString n := rfl

theorem int_text_negSucc (n : ℕ) : (toString (Int.negSucc n)).toList =
    '-'::(toString (n+1)).toList := by
  have h : toString (Int.negSucc n) = "-" ++ toString (n+1) := rfl
  rw [h, String.toList_append]
  rfl

theorem int_text_char {n : ℤ} {c : Char} (h : c ∈ (toString n).toList) :
    c.isDigit = true ∨ c = '-' := by
  cases n with
  | ofNat n => exact .inl (nat_text_digit h)
  | negSucc n =>
    rw [int_text_negSucc, List.mem_cons] at h
    exact h.symm.imp nat_text_digit id

theorem minus_not_mem (n : ℕ) : '-' ∉ (toString n).toList :=
  fun h => absurd (nat_text_digit h) (by decide)

theorem int_text_inj {m n : ℤ} (h : toString m = toString n) : m = n := by
  have hlist := congrArg String.toList h
  cases m with
  | ofNat m =>
    cases n with
    | ofNat n => rw [nat_text_inj h]
    | negSucc n =>
      rw [int_text_negSucc] at hlist
      exact absurd (hlist ▸ List.mem_cons_self) (minus_not_mem m)
  | negSucc m =>
    cases n with
    | ofNat n =>
      rw [int_text_negSucc] at hlist
      exact absurd (hlist.symm ▸ List.mem_cons_self) (minus_not_mem n)
    | negSucc n =>
      rw [int_text_negSucc, int_text_negSucc] at hlist
      have hsucc := nat_text_inj (String.ext (List.cons.inj hlist).2)
      rw [Nat.succ.inj hsucc]

section Reading

def parseDigits (s : List Char) : Option ℤ :=
  if s ≠ [] ∧ s.all Char.isDigit = true then some (Nat.ofDigitChars 10 s 0) else none

/-- An optional sign and digits, in range. -/
def atoi (s : List Char) : Option ℤ :=
  let n := match s with
    | '-'::s => (parseDigits s).map fun n => -n
    | '+'::s => parseDigits s
    | s => parseDigits s
  n.filter fun n => -2^63 ≤ n ∧ n < 2^63

theorem atoi_digits {s : List Char} (hne : s ≠ []) (hall : s.all Char.isDigit = true)
    (h : Nat.ofDigitChars 10 s 0 < 2^63) : atoi s = some (Nat.ofDigitChars 10 s 0 : ℤ) := by
  have hplain : atoi s = (parseDigits s).filter fun n => -2^63 ≤ n ∧ n < 2^63 := by
    unfold atoi
    split
    · exact absurd (List.all_eq_true.mp hall _ List.mem_cons_self) (by decide)
    · exact absurd (List.all_eq_true.mp hall _ List.mem_cons_self) (by decide)
    · rfl
  have hrange : (-2^63 : ℤ) ≤ (Nat.ofDigitChars 10 s 0 : ℤ) ∧
      (Nat.ofDigitChars 10 s 0 : ℤ) < 2^63 := by omega
  rw [hplain, parseDigits, if_pos ⟨hne,hall⟩, Option.filter_some, if_pos (decide_eq_true hrange)]

theorem atoi_text {n : ℕ} (h : n < 2^63) : atoi (toString n).toList = some (n : ℤ) := by
  have hvalue : Nat.ofDigitChars 10 (toString n).toList 0 = n := by
    rw [Nat.toString_eq_repr, Nat.toList_repr]
    exact Nat.ofDigitChars_ten_toDigits
  have hall : (toString n).toList.all Char.isDigit = true :=
    List.all_eq_true.mpr fun _ hc => nat_text_digit hc
  have hread := atoi_digits (nat_text_ne_nil n) hall (hvalue.symm ▸ h)
  rwa [hvalue] at hread

end Reading

end Radar.Decimal

namespace Radar.FixedWidth

/-- The `w` low decimal digits of `n`, most significant first. -/
def digits : ℕ → ℕ → List Char
  | 0, _ => []
  | w+1, n => digits w (n/10)++[Nat.digitChar (n % 10)]

@[simp] theorem length_digits (w n : ℕ) : (digits w n).length = w := by
  induction w generalizing n with
  | zero => rfl
  | succ w ih => simp [digits, ih]

theorem append_lt_append_iff {as bs as' bs' : List Char} (hlen : as.length = bs.length) :
    as++as' < bs++bs' ↔ as < bs ∨ as = bs ∧ as' < bs' := by
  induction as generalizing bs with
  | nil =>
    obtain rfl := List.eq_nil_of_length_eq_zero hlen.symm
    simp
  | cons a as ih =>
    cases bs with
    | nil => cases hlen
    | cons b bs =>
      rw [List.cons_append, List.cons_append, List.cons_lt_cons_iff, List.cons_lt_cons_iff,
        ih (by simpa using hlen), List.cons.injEq]
      constructor
      · rintro (hab | ⟨rfl, has | ⟨rfl, hlt⟩⟩)
        · exact Or.inl (Or.inl hab)
        · exact Or.inl (Or.inr ⟨rfl, has⟩)
        · exact Or.inr ⟨⟨rfl, rfl⟩, hlt⟩
      · rintro ((hab | ⟨rfl, has⟩) | ⟨⟨rfl, rfl⟩, hlt⟩)
        · exact Or.inl hab
        · exact Or.inr ⟨rfl, Or.inl has⟩
        · exact Or.inr ⟨rfl, Or.inr ⟨rfl, hlt⟩⟩

theorem cons_lt_cons_same {c : Char} {as bs : List Char} : c::as < c::bs ↔ as < bs := by
  rw [List.cons_lt_cons_iff]
  constructor
  · rintro (hlt | ⟨-, hlt⟩)
    · exact absurd hlt (Nat.lt_irrefl _)
    · exact hlt
  · exact fun hlt => Or.inr ⟨rfl, hlt⟩

theorem digit_char_lt_iff : ∀ a < 10, ∀ b < 10, (Nat.digitChar a < Nat.digitChar b ↔ a < b) := by
  decide

theorem digit_char_inj : ∀ a < 10, ∀ b < 10, Nat.digitChar a = Nat.digitChar b → a = b := by
  decide

theorem digits_inj {w m n : ℕ} (hm : m < 10^w) (hn : n < 10^w) (h : digits w m = digits w n) :
    m = n := by
  induction w generalizing m n with
  | zero => omega
  | succ w ih =>
    rw [Nat.pow_succ] at hm hn
    obtain ⟨hhigh, hlow⟩ := List.append_inj h (by simp)
    have hdiv := ih (m := m/10) (n := n/10) (by omega) (by omega) hhigh
    have hmod := digit_char_inj (m % 10) (by omega) (n % 10) (by omega) (List.cons.inj hlow).1
    omega

theorem digits_lt_iff {w m n : ℕ} (hm : m < 10^w) (hn : n < 10^w) :
    digits w m < digits w n ↔ m < n := by
  induction w generalizing m n with
  | zero =>
    simp only [digits, List.lt_irrefl, false_iff]
    omega
  | succ w ih =>
    rw [Nat.pow_succ] at hm hn
    have hlow : [Nat.digitChar (m % 10)] < [Nat.digitChar (n % 10)] ↔ m % 10 < n % 10 := by
      rw [List.cons_lt_cons_iff, digit_char_lt_iff _ (by omega) _ (by omega)]
      simp
    have hhigh : digits w (m/10) = digits w (n/10) ↔ m/10 = n/10 :=
      ⟨digits_inj (by omega) (by omega), fun h => by rw [h]⟩
    rw [digits, digits, append_lt_append_iff (by simp), ih (by omega) (by omega), hhigh, hlow]
    omega

/-- One field before the rest of the text. -/
theorem field_lt_iff {w m n : ℕ} {as bs : List Char} (hm : m < 10^w) (hn : n < 10^w) :
    digits w m++as < digits w n++bs ↔ m < n ∨ m = n ∧ as < bs := by
  have heq : digits w m = digits w n ↔ m = n := ⟨digits_inj hm hn, fun h => by rw [h]⟩
  rw [append_lt_append_iff (by simp), digits_lt_iff hm hn, heq]

/-- The value of a digit field, reading from the left. -/
def value (cs : List Char) : ℕ := cs.foldl (fun n c => 10*n+(c.toNat - '0'.toNat)) 0

theorem digit_char_value : ∀ a < 10, (Nat.digitChar a).toNat - '0'.toNat = a := by decide

theorem value_digits {w n : ℕ} (hn : n < 10^w) : value (digits w n) = n := by
  induction w generalizing n with
  | zero =>
    simp only [value, digits, List.foldl_nil]
    omega
  | succ w ih =>
    rw [Nat.pow_succ] at hn
    have hhigh := ih (n := n/10) (by omega)
    rw [value] at hhigh ⊢
    rw [digits, List.foldl_append, hhigh, List.foldl_cons, List.foldl_nil,
      digit_char_value _ (by omega)]
    omega

/-- Reads a field of `w` digits and the separator after it. -/
def readField (w : ℕ) (sep : Char) (cs : List Char) : Option (ℕ × List Char) :=
  match cs.drop w with
  | [] => none
  | c::rest =>
    if c = sep ∧ (cs.take w).all Char.isDigit then some (value (cs.take w), rest) else none

theorem digit_char_is_digit : ∀ a < 10, (Nat.digitChar a).isDigit = true := by decide

theorem digits_all_digit (w n : ℕ) : (digits w n).all Char.isDigit = true := by
  induction w generalizing n with
  | zero => rfl
  | succ w ih =>
    rw [digits, List.all_append, ih]
    simpa using digit_char_is_digit (n % 10) (by omega)

theorem read_field_digits {w n : ℕ} (sep : Char) (rest : List Char) (hn : n < 10^w) :
    readField w sep (digits w n++sep::rest) = some (n, rest) := by
  have htake : (digits w n++sep::rest).take w = digits w n := by
    rw [List.take_left' (length_digits w n)]
  have hdrop : (digits w n++sep::rest).drop w = sep::rest := by
    rw [List.drop_left' (length_digits w n)]
  simp only [readField, hdrop, htake, digits_all_digit, value_digits hn, and_self, if_true]

end Radar.FixedWidth
