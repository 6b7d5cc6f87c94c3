import Mathlib.Data.List.Find
import Radar.Base.Decimal
import Radar.Base.Doubles
import Radar.Base.Runes

/-!
# Usage texts and their two parsers

A quantity is a mantissa with a suffix, and it has an exact value. The
collection reads a CPU text as nanocores and a memory text as bytes with
parsers of its own, which know some of the suffixes. The CPU parser reads a
quantity with the suffix n, u or m, without a suffix and with an exponent that
is not negative; the memory parser one without a suffix and with the suffixes
of its table.
-/

set_option autoImplicit false

namespace Radar.MetricsHistory

open Radar.Runes Radar.Decimal Radar.Doubles

section Quantity

inductive Suffix where
  | n
  | u
  | m
  | none
  | k
  | M
  | G
  | T
  | P
  | E
  | Ki
  | Mi
  | Gi
  | Ti
  | Pi
  | Ei
  | exponent (e : ℤ)
  deriving DecidableEq, Repr

namespace Suffix

def symbol : Suffix → List Char
  | n => "n".toList
  | u => "u".toList
  | m => "m".toList
  | none => []
  | k => "k".toList
  | M => "M".toList
  | G => "G".toList
  | T => "T".toList
  | P => "P".toList
  | E => "E".toList
  | Ki => "Ki".toList
  | Mi => "Mi".toList
  | Gi => "Gi".toList
  | Ti => "Ti".toList
  | Pi => "Pi".toList
  | Ei => "Ei".toList
  | exponent e => 'e'::(toString e).toList

def multiplier : Suffix → ℚ
  | n => 1/10^9
  | u => 1/10^6
  | m => 1/10^3
  | none => 1
  | k => 10^3
  | M => 10^6
  | G => 10^9
  | T => 10^12
  | P => 10^15
  | E => 10^18
  | Ki => 2^10
  | Mi => 2^20
  | Gi => 2^30
  | Ti => 2^40
  | Pi => 2^50
  | Ei => 2^60
  | exponent e => 10^e

/-- The suffix is as large as it can be, in one of the formats of a quantity: the binary format
writes from 1024 on a number that is no multiple of 1024 without a suffix. -/
def Canonical (mantissa : ℕ) : Suffix → Prop
  | none => mantissa = 0 ∨ ¬1000 ∣ mantissa ∨ 1024 ≤ mantissa ∧ ¬1024 ∣ mantissa
  | Ki | Mi | Gi | Ti | Pi | Ei => ¬1024 ∣ mantissa
  | exponent e => e ≠ 0 ∧ 3 ∣ e ∧ ¬1000 ∣ mantissa
  | _ => ¬1000 ∣ mantissa

end Suffix

structure Quantity where
  mantissa : ℕ
  suffix : Suffix
  canonical : suffix.Canonical mantissa

namespace Quantity

def text (q : Quantity) : List Char := (toString q.mantissa).toList++q.suffix.symbol

def value (q : Quantity) : ℚ := q.mantissa*q.suffix.multiplier

end Quantity

/-- A quantity that is a whole number of a unit, below `2^53`. -/
structure Amount (unit : ℚ) where
  quantity : Quantity
  count : ℕ
  exact : quantity.value*unit = count
  small : count < 2^53

/-- Nanocores in a core. -/
def nanocores : ℚ := 10^9

def bytes : ℚ := 1

end Quantity

section Scanning

/-- A line's end is no space. -/
def skipSpace (s : List Char) : Option (List Char) :=
  let rest := s.dropWhile fun c => c ≠ '\n' && isSpace c
  if rest.head? = some '\n' then none else some rest

/-- An optional sign. -/
def signed : List Char → Bool × List Char
  | '-'::s => (true,s)
  | '+'::s => (false,s)
  | s => (false,s)

def FitsInt64 (n : ℤ) : Prop := -2^63 ≤ n ∧ n < 2^63

instance (n : ℤ) : Decidable (FitsInt64 n) := inferInstanceAs (Decidable (_ ∧ _))

def negateIf (negative : Bool) (n : ℤ) : ℤ := if negative then -n else n

/-- `fmt.Sscanf` with `%d`, which leaves alone what follows the digits. -/
def scanInt (s : List Char) : Option ℤ := do
  let rest ← skipSpace s
  let (negative,rest) := signed rest
  let n ← parseDigits (rest.takeWhile Char.isDigit)
  if FitsInt64 (negateIf negative n) then some (negateIf negative n) else none

/-- What follows the digits of a float: a letter of an exponent has to have digits, and a capital P,
which the scan takes for such a letter, is none. -/
def scanExponent : List Char → Option ℤ
  | [] => some 0
  | c::s =>
    if c = 'e' ∨ c = 'E' then
      let (negative,s) := signed s
      (parseDigits (s.takeWhile Char.isDigit)).map (negateIf negative)
    else if c = 'P' then none
    else some 0

/-- The digits after a point. -/
def fractionOf : List Char → List Char × List Char
  | '.'::s => (s.takeWhile Char.isDigit,s.dropWhile Char.isDigit)
  | s => ([],s)

/-- `fmt.Sscanf` with `%f`, on texts without an underscore, a small p, a hexadecimal number and the
names of what is no number. -/
def scanFloat (s : List Char) : Option ℚ := do
  let rest ← skipSpace s
  let (negative,rest) := signed rest
  let whole := rest.takeWhile Char.isDigit
  let rest := rest.dropWhile Char.isDigit
  let (fraction,rest) := fractionOf rest
  let digits ← parseDigits (whole++fraction)
  let exponent ← scanExponent rest
  let x := toDouble (negateIf negative digits*(10:ℚ)^(exponent-fraction.length))
  if InRange x then some x else none

end Scanning

section Parsers

def int64 (n : ℤ) : ℤ := n.bmod (2^64)

/-- The conversion of a float, with the result of the hardware where the float is out of range. -/
def float64ToInt64 (x : ℚ) : ℤ :=
  if FitsInt64 (truncate x) then truncate x else -2^63

/-- A proper suffix. -/
def fits (s suffix : List Char) : Bool := decide (suffix.length < s.length) && suffix.isSuffixOf s

def scaled (s suffix : List Char) (multiplier : ℤ) : ℤ :=
  match scanInt (s.take (s.length-suffix.length)) with
  | some n => int64 (n*multiplier)
  | none => 0

def parseCPU (s : List Char) : ℤ :=
  if s = [] then 0
  else if fits s "n".toList then scaled s "n".toList 1
  else if fits s "u".toList then scaled s "u".toList 1000
  else if fits s "m".toList then scaled s "m".toList 1000000
  else
    match scanFloat s with
    | some x => float64ToInt64 (toDouble (x*1000000000))
    | none => 0

def suffixes : List (List Char × ℤ) :=
  [("Ki".toList,1024),("Mi".toList,1024*1024),("Gi".toList,1024*1024*1024),
    ("Ti".toList,1024*1024*1024*1024),("K".toList,1000),("M".toList,1000*1000),
    ("G".toList,1000*1000*1000),("T".toList,1000*1000*1000*1000)]

/-- The suffixes are tried in some order. -/
def parseMemoryIn (order : List (List Char × ℤ)) (s : List Char) : ℤ :=
  if s = [] then 0
  else
    match order.find? fun p => fits s p.1 with
    | some p => scaled s p.1 p.2
    | none => (scanInt s).getD 0

def parseMemory (s : List Char) : ℤ := parseMemoryIn suffixes s

end Parsers

end Radar.MetricsHistory

namespace Radar.MetricsHistory

open Radar.Runes Radar.Decimal Radar.Doubles

section Digits

/-- The digits of a number. -/
structure Spells (digits : List Char) (n : ℕ) : Prop where
  ne_nil : digits ≠ []
  digit : ∀ c ∈ digits, c.isDigit = true
  value : Nat.ofDigitChars 10 digits 0 = n

/-- What follows the digits does not begin with one. -/
def Ends (tail : List Char) : Prop := ∀ c ∈ tail.head?, c.isDigit = false

variable {digits tail : List Char} {n : ℕ}

theorem spells_text (n : ℕ) : Spells (toString n).toList n where
  ne_nil := nat_text_ne_nil n
  digit := fun _ hc => nat_text_digit hc
  value := by
    rw [Nat.toString_eq_repr, Nat.toList_repr]
    exact Nat.ofDigitChars_ten_toDigits

theorem ends_nil : Ends [] := fun _ h => nomatch h

theorem ends_cons {c : Char} (h : c.isDigit = false) : Ends (c::tail) :=
  fun _ hc => Option.some.inj hc ▸ h

theorem parseDigits_spelled (h : Spells digits n) : parseDigits digits = some (n : ℤ) := by
  rw [parseDigits, if_pos ⟨h.ne_nil,List.all_eq_true.mpr h.digit⟩, h.value]

theorem takeWhile_spelled (h : Spells digits n) (htail : Ends tail) :
    (digits++tail).takeWhile Char.isDigit = digits := by
  rw [List.takeWhile_append_of_pos h.digit]
  cases tail with
  | nil => exact List.append_nil _
  | cons c tail => rw [List.takeWhile_cons_of_neg (by simp [htail c rfl]), List.append_nil]

theorem dropWhile_spelled (h : Spells digits n) (htail : Ends tail) :
    (digits++tail).dropWhile Char.isDigit = tail := by
  rw [List.dropWhile_append_of_pos h.digit]
  cases tail with
  | nil => rfl
  | cons c tail => rw [List.dropWhile_cons_of_neg (by simp [htail c rfl])]

theorem space_no_digit {c : Char} (h : isSpace c = true) : c.isDigit = false := by
  rcases Bool.or_eq_true_iff.mp h with hlisted | hrange
  · have hall : [ '\t', '\n', '\x0b', '\x0c', '\r', ' ', '\u0085', '\u00a0', '\u1680', '\u2028',
      '\u2029', '\u202f', '\u205f', '\u3000'].all (fun d => !d.isDigit) = true := by decide
    simpa using List.all_eq_true.mp hall c (of_decide_eq_true hlisted)
  · have hlow : '\u2000' ≤ c := of_decide_eq_true (Bool.and_eq_true_iff.mp hrange).1
    have hnot : ¬c ≤ '9' := fun hle => absurd (Char.le_trans hlow hle) (by decide)
    rw [Char.isDigit, Bool.and_eq_false_iff]
    exact .inr (decide_eq_false hnot)

/-- Digits have no space and no sign in front. -/
theorem skipSpace_spelled (h : Spells digits n) (tail : List Char) :
    skipSpace (digits++tail) = some (digits++tail) := by
  cases digits with
  | nil => exact absurd rfl h.ne_nil
  | cons c digits =>
    have hdigit := h.digit c List.mem_cons_self
    have hspace : isSpace c = false := by
      by_contra hne
      exact absurd (hdigit.symm.trans (space_no_digit (Bool.eq_true_of_not_eq_false hne))) (by decide)
    have hline : c ≠ '\n' := by
      rintro rfl
      exact absurd hdigit (by decide)
    rw [List.cons_append, skipSpace, List.dropWhile_cons_of_neg (by simp [hspace])]
    simp [hline]

theorem signed_spelled (h : Spells digits n) (tail : List Char) :
    signed (digits++tail) = (false,digits++tail) := by
  cases digits with
  | nil => exact absurd rfl h.ne_nil
  | cons c digits =>
    have hdigit := h.digit c List.mem_cons_self
    rw [List.cons_append, signed]
    · rintro s hs
      exact absurd ((List.cons.inj hs).1 ▸ hdigit) (by decide)
    · rintro s hs
      exact absurd ((List.cons.inj hs).1 ▸ hdigit) (by decide)

theorem negateIf_false (n : ℤ) : negateIf false n = n := rfl

theorem fitsInt64_natCast (h : n < 2^63) : FitsInt64 n := by
  rw [FitsInt64]
  omega

theorem scanInt_spelled (h : Spells digits n) (htail : Ends tail) (hn : n < 2^63) :
    scanInt (digits++tail) = some (n : ℤ) := by
  have hscan : scanInt (digits++tail) =
      (parseDigits ((signed (digits++tail)).2.takeWhile Char.isDigit)).bind fun n =>
        if FitsInt64 (negateIf (signed (digits++tail)).1 n) then
          some (negateIf (signed (digits++tail)).1 n)
        else none := by
    rw [scanInt, skipSpace_spelled h]
    rfl
  rw [hscan, signed_spelled h, takeWhile_spelled h htail, parseDigits_spelled h, Option.bind_some]
  exact if_pos (fitsInt64_natCast hn)

theorem fractionOf_none (h : tail.head? ≠ some '.') : fractionOf tail = ([],tail) := by
  unfold fractionOf
  split
  · exact absurd rfl h
  · rfl

/-- Digits without a point. -/
theorem scanFloat_spelled (h : Spells digits n) (htail : Ends tail) (hpoint : tail.head? ≠ some '.')
    {e : ℕ} (hexponent : scanExponent tail = some (e : ℤ)) (hsmall : n*10^e < 2^53) :
    scanFloat (digits++tail) = some (n*10^e : ℕ) := by
  have hvalue : toDouble (((n : ℤ) : ℚ)*(10:ℚ)^((e : ℤ)-(0 : ℕ))) = (n*10^e : ℕ) := by
    rw [← toDouble_natCast hsmall, Nat.cast_zero, sub_zero, zpow_natCast]
    push_cast
    rfl
  simp only [scanFloat, skipSpace_spelled h, signed_spelled h, takeWhile_spelled h htail,
    dropWhile_spelled h htail, fractionOf_none hpoint, List.append_nil, parseDigits_spelled h,
    negateIf_false, hexponent, List.length_nil, hvalue, Option.bind_eq_bind, Option.bind_some,
    if_pos (inRange_natCast hsmall)]
  rfl

end Digits

section Suffixes

/-- A suffix without digits is found at the end of a number with a symbol where it ends the
symbol. -/
theorem fits_text {n : ℕ} {symbol suffix : List Char}
    (hdigit : suffix.all (fun c => !c.isDigit) = true) :
    fits ((toString n).toList++symbol) suffix = suffix.isSuffixOf symbol := by
  rw [Bool.eq_iff_iff, fits, Bool.and_eq_true, decide_eq_true_eq, List.isSuffixOf_iff_suffix,
    List.isSuffixOf_iff_suffix]
  have hpos := List.length_pos_iff.mpr (nat_text_ne_nil n)
  constructor
  · rintro ⟨-,hfits⟩
    rcases List.suffix_or_suffix_of_suffix hfits (List.suffix_append _ symbol) with hin | ⟨t,ht⟩
    · exact hin
    · cases t with
      | nil => exact ⟨[],ht.symm⟩
      | cons c t =>
        obtain ⟨s,hs⟩ := hfits
        rw [← ht, ← List.append_assoc] at hs
        have hc : c ∈ (toString n).toList := by
          rw [← List.append_cancel_right hs]
          exact List.mem_append_right s List.mem_cons_self
        have hnot := List.all_eq_true.mp hdigit c (ht ▸ List.mem_cons_self)
        simp [nat_text_digit hc] at hnot
  · intro hin
    have hle := hin.length_le
    rw [List.length_append]
    exact ⟨by omega,hin.trans (List.suffix_append _ symbol)⟩

theorem scaled_text {n multiplier : ℕ} {suffix : List Char} (h : n*multiplier < 2^53)
    (hpos : 0 < multiplier) :
    scaled ((toString n).toList++suffix) suffix multiplier = (n*multiplier : ℕ) := by
  have hle : n ≤ n*multiplier := Nat.le_mul_of_pos_right n hpos
  have hscan := scanInt_spelled (spells_text n) ends_nil (by omega)
  rw [List.append_nil] at hscan
  have hcut : ((toString n).toList++suffix).take
      (((toString n).toList++suffix).length-suffix.length) = (toString n).toList := by
    rw [List.length_append, Nat.add_sub_cancel, List.take_left]
  rw [scaled, hcut, hscan]
  show (((n : ℤ)*(multiplier : ℤ)).bmod (2^64) : ℤ) = _
  rw [← Nat.cast_mul]
  exact Int.bmod_eq_of_le (by omega) (by omega)

/-- What ends in a digit ends in no suffix. -/
theorem fits_digits {n : ℕ} {before suffix : List Char} {c : Char} (hlast : suffix.getLast? = some c)
    (hdigit : c.isDigit = false) : fits (before++(toString n).toList) suffix = false := by
  by_contra hne
  have hfits := Bool.eq_true_of_not_eq_false hne
  rw [fits, Bool.and_eq_true, List.isSuffixOf_iff_suffix] at hfits
  obtain ⟨-,s,hs⟩ := hfits
  have hends := congrArg List.getLast? hs
  rw [List.getLast?_append, List.getLast?_append, hlast, Option.some_or] at hends
  have hc : (toString n).toList.getLast? = some c := by
    rw [List.getLast?_eq_some_getLast (nat_text_ne_nil n)] at hends ⊢
    exact hends.symm
  have hin := nat_text_digit (List.mem_of_getLast? hc)
  exact absurd (hin.symm.trans hdigit) (by decide)

end Suffixes

section CPU

/-- Suffixes that the CPU parser reads at their value. -/
def Suffix.inCPU : Suffix → Bool
  | n | u | m | none => true
  | exponent e => decide (0 ≤ e)
  | _ => false

theorem float64ToInt64_natCast {n : ℕ} (h : n < 2^53) : float64ToInt64 n = n := by
  rw [float64ToInt64, truncate_natCast, if_pos (fitsInt64_natCast (by omega))]

/-- A text without one of the three letters is read as a float. -/
theorem parseCPU_float {n e : ℕ} {tail : List Char} (htail : Ends tail)
    (hpoint : tail.head? ≠ some '.') (hexponent : scanExponent tail = some (e : ℤ))
    (hfits : ∀ c ∈ [ 'n', 'u', 'm'], fits ((toString n).toList++tail) [c] = false)
    (hsmall : n*10^e*10^9 < 2^53) : parseCPU ((toString n).toList++tail) = (n*10^e*10^9 : ℕ) := by
  have hle : n*10^e ≤ n*10^e*10^9 := Nat.le_mul_of_pos_right _ (by decide)
  have hscan := scanFloat_spelled (spells_text n) htail hpoint hexponent (by omega)
  have hne : (toString n).toList++tail ≠ [] :=
    List.append_ne_nil_of_left_ne_nil (nat_text_ne_nil n) tail
  have hproduct : ((n*10^e : ℕ) : ℚ)*1000000000 = (n*10^e*10^9 : ℕ) := by
    push_cast
    norm_num
  have hn := hfits 'n' (by simp)
  have hu := hfits 'u' (by simp)
  have hm := hfits 'm' (by simp)
  rw [parseCPU, if_neg hne, if_neg (by simpa using hn), if_neg (by simpa using hu),
    if_neg (by simpa using hm), hscan]
  show float64ToInt64 (toDouble (((n*10^e : ℕ) : ℚ)*1000000000)) = _
  rw [hproduct, toDouble_natCast hsmall, float64ToInt64_natCast hsmall]

/-- The exact value over the natural numbers. -/
theorem count_eq {unit : ℚ} (a : Amount unit) (factor : ℕ)
    (h : a.quantity.suffix.multiplier*unit = factor) : a.quantity.mantissa*factor = a.count := by
  have hexact := a.exact
  rw [Quantity.value, mul_assoc, h] at hexact
  exact_mod_cast hexact

theorem text_ne_nil (n : ℕ) (symbol : List Char) : (toString n).toList++symbol ≠ [] :=
  List.append_ne_nil_of_left_ne_nil (nat_text_ne_nil n) symbol

theorem ends_exponent (e : ℕ) : Suffix.symbol (.exponent e) = 'e'::(toString e).toList := rfl

theorem scanExponent_text (e : ℕ) : scanExponent ('e'::(toString e).toList) = some (e : ℤ) := by
  have hsigned := signed_spelled (spells_text e) []
  have htake := takeWhile_spelled (spells_text e) ends_nil
  rw [List.append_nil] at hsigned htake
  rw [scanExponent, if_pos (.inl rfl), hsigned]
  show (parseDigits ((toString e).toList.takeWhile Char.isDigit)).map (negateIf false) = _
  rw [htake, parseDigits_spelled (spells_text e)]
  rfl

theorem parseCPU_exact (a : Amount nanocores) (h : a.quantity.suffix.inCPU = true) :
    parseCPU a.quantity.text = a.count := by
  have hsmall := a.small
  have hne := text_ne_nil a.quantity.mantissa
  rw [Quantity.text]
  cases hsuffix : a.quantity.suffix with
  | n =>
    have hcount := count_eq a 1 (by rw [hsuffix, Suffix.multiplier, nanocores]; norm_num)
    rw [parseCPU, if_neg (hne _), if_pos ((fits_text (by decide)).trans (by decide))]
    rw [← hcount] at hsmall ⊢
    exact scaled_text hsmall (by decide)
  | u =>
    have hcount := count_eq a 1000 (by rw [hsuffix, Suffix.multiplier, nanocores]; norm_num)
    have hn : fits ((toString a.quantity.mantissa).toList++Suffix.u.symbol) "n".toList = false :=
      (fits_text (by decide)).trans (by decide)
    rw [parseCPU, if_neg (hne _), if_neg (by rw [hn]; decide),
      if_pos ((fits_text (by decide)).trans (by decide))]
    rw [← hcount] at hsmall ⊢
    exact scaled_text hsmall (by decide)
  | m =>
    have hcount := count_eq a 1000000 (by rw [hsuffix, Suffix.multiplier, nanocores]; norm_num)
    have hn : fits ((toString a.quantity.mantissa).toList++Suffix.m.symbol) "n".toList = false :=
      (fits_text (by decide)).trans (by decide)
    have hu : fits ((toString a.quantity.mantissa).toList++Suffix.m.symbol) "u".toList = false :=
      (fits_text (by decide)).trans (by decide)
    rw [parseCPU, if_neg (hne _), if_neg (by rw [hn]; decide), if_neg (by rw [hu]; decide),
      if_pos ((fits_text (by decide)).trans (by decide))]
    rw [← hcount] at hsmall ⊢
    exact scaled_text hsmall (by decide)
  | none =>
    have hcount := count_eq a (10^0*10^9)
      (by rw [hsuffix, Suffix.multiplier, nanocores]; norm_num)
    rw [← Nat.mul_assoc] at hcount
    rw [← hcount] at hsmall ⊢
    apply parseCPU_float ends_nil (by simp) rfl _ hsmall
    intro c hc
    rw [fits_text]
    · rfl
    · simp only [List.mem_cons, List.not_mem_nil, or_false] at hc
      rcases hc with rfl | rfl | rfl <;> decide
  | exponent e =>
    rw [hsuffix] at h
    obtain ⟨k,rfl⟩ := Int.eq_ofNat_of_zero_le (of_decide_eq_true h)
    have hcount := count_eq a (10^k*10^9) (by
      rw [hsuffix, Suffix.multiplier, nanocores, zpow_natCast]
      push_cast
      rfl)
    rw [← Nat.mul_assoc] at hcount
    rw [← hcount] at hsmall ⊢
    apply parseCPU_float (ends_cons (by decide)) (by simp) (scanExponent_text k) _ hsmall
    intro c hc
    have hsplit : (toString a.quantity.mantissa).toList++ 'e'::(toString k).toList =
        ((toString a.quantity.mantissa).toList++[ 'e'])++(toString k).toList := by simp
    rw [hsplit]
    apply fits_digits rfl
    simp only [List.mem_cons, List.not_mem_nil, or_false] at hc
    rcases hc with rfl | rfl | rfl <;> decide
  | _ =>
    rw [hsuffix] at h
    exact nomatch h

end CPU

section Memory

/-- Suffixes that the memory parser reads at their value. -/
def Suffix.inMemory : Suffix → Bool
  | none | Ki | Mi | Gi | Ti | M | G | T => true
  | _ => false

theorem find_suffix (n : ℕ) (symbol : List Char) :
    suffixes.find? (fun p => fits ((toString n).toList++symbol) p.1) =
      suffixes.find? fun p => p.1.isSuffixOf symbol := by
  have hplain : suffixes.all (fun p => p.1.all fun c => !c.isDigit) = true := by decide
  apply List.find?_congr
  intro p hp
  exact fits_text (List.all_eq_true.mp hplain p hp)

/-- It does not matter in which order the suffixes are tried. -/
theorem parseMemory_order {order : List (List Char × ℤ)} (h : order.Perm suffixes) (s : List Char) :
    parseMemoryIn order s = parseMemory s := by
  have hapart : suffixes.all (fun p => suffixes.all fun q =>
      !p.1.isSuffixOf q.1 || decide (p = q)) = true := by decide
  have hshorter : ∀ p ∈ suffixes, ∀ q ∈ suffixes, p.1 <:+ q.1 → p = q := by
    intro p hp q hq hin
    have hpq := List.all_eq_true.mp (List.all_eq_true.mp hapart p hp) q hq
    rw [List.isSuffixOf_iff_suffix.mpr hin] at hpq
    simpa using hpq
  have hone : ∀ p ∈ suffixes, ∀ q ∈ suffixes, fits s p.1 = true → fits s q.1 = true → p = q := by
    intro p hp q hq hfits hfits'
    rw [fits, Bool.and_eq_true, List.isSuffixOf_iff_suffix] at hfits hfits'
    rcases List.suffix_or_suffix_of_suffix hfits.2 hfits'.2 with hin | hin
    · exact hshorter p hp q hq hin
    · exact (hshorter q hq p hp hin).symm
  have hfind : order.find? (fun p => fits s p.1) = suffixes.find? fun p => fits s p.1 := by
    cases hfound : suffixes.find? fun p => fits s p.1 with
    | none =>
      rw [List.find?_eq_none] at hfound ⊢
      exact fun p hp => hfound p (h.mem_iff.mp hp)
    | some p =>
      have hp := List.mem_of_find?_eq_some hfound
      have hfits : fits s p.1 = true := by simpa using List.find?_some hfound
      have hsome : (order.find? fun p => fits s p.1).isSome = true :=
        List.find?_isSome.mpr ⟨p,h.mem_iff.mpr hp,hfits⟩
      obtain ⟨q,hq⟩ := Option.isSome_iff_exists.mp hsome
      have hq' := h.mem_iff.mp (List.mem_of_find?_eq_some hq)
      have hfits' : fits s q.1 = true := by simpa using List.find?_some hq
      rw [hq, hone p hp q hq' hfits hfits']
  rw [parseMemory, parseMemoryIn, parseMemoryIn, hfind]

theorem parseMemory_exact (a : Amount bytes) (h : a.quantity.suffix.inMemory = true) :
    parseMemory a.quantity.text = a.count := by
  have hsmall := a.small
  have hfactor : ∀ factor : ℕ, 0 < factor → a.quantity.suffix.multiplier = factor →
      suffixes.find? (fun p => p.1.isSuffixOf a.quantity.suffix.symbol) =
        some (a.quantity.suffix.symbol,(factor : ℤ)) → parseMemory a.quantity.text = a.count := by
    intro factor hpos hmultiplier hfind
    have hcount := count_eq a factor (by rw [hmultiplier, bytes, mul_one])
    rw [← hcount] at hsmall ⊢
    rw [Quantity.text, parseMemory, parseMemoryIn, if_neg (text_ne_nil _ _), find_suffix, hfind]
    exact scaled_text hsmall hpos
  cases hsuffix : a.quantity.suffix with
  | none =>
    have hcount := count_eq a 1 (by rw [hsuffix, Suffix.multiplier, bytes]; norm_num)
    rw [Nat.mul_one] at hcount
    have hscan := scanInt_spelled (spells_text a.quantity.mantissa) ends_nil (by omega)
    rw [Quantity.text, hsuffix, parseMemory, parseMemoryIn, if_neg (text_ne_nil _ _), find_suffix]
    show (scanInt ((toString a.quantity.mantissa).toList++[])).getD 0 = _
    rw [hscan, Option.getD_some, hcount]
  | Ki =>
    apply hfactor 1024 (by decide)
    · rw [hsuffix, Suffix.multiplier]
      norm_num
    · rw [hsuffix]
      rfl
  | Mi =>
    apply hfactor (1024*1024) (by decide)
    · rw [hsuffix, Suffix.multiplier]
      norm_num
    · rw [hsuffix]
      rfl
  | Gi =>
    apply hfactor (1024*1024*1024) (by decide)
    · rw [hsuffix, Suffix.multiplier]
      norm_num
    · rw [hsuffix]
      rfl
  | Ti =>
    apply hfactor (1024*1024*1024*1024) (by decide)
    · rw [hsuffix, Suffix.multiplier]
      norm_num
    · rw [hsuffix]
      rfl
  | M =>
    apply hfactor (1000*1000) (by decide)
    · rw [hsuffix, Suffix.multiplier]
      norm_num
    · rw [hsuffix]
      rfl
  | G =>
    apply hfactor (1000*1000*1000) (by decide)
    · rw [hsuffix, Suffix.multiplier]
      norm_num
    · rw [hsuffix]
      rfl
  | T =>
    apply hfactor (1000*1000*1000*1000) (by decide)
    · rw [hsuffix, Suffix.multiplier]
      norm_num
    · rw [hsuffix]
      rfl
  | _ =>
    rw [hsuffix] at h
    exact nomatch h

end Memory

end Radar.MetricsHistory
