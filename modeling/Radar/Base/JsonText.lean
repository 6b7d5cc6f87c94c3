import Mathlib.Data.List.TakeDrop
import Radar.Base.Decimal

/-!
# Flat objects in JSON

An object of texts, whole numbers and nulls is written without blanks and read
back with any. Quoted texts are escaped as by an encoder that is careful about
HTML. A reader refuses what is not JSON and what is not flat alike.
-/

set_option autoImplicit false

namespace Radar.JsonText

section Quote

def hexDigit (d : ℕ) : Char := "0123456789abcdef".toList.getD d '0'

def hexValue (c : Char) : Option ℕ :=
  if '0' ≤ c ∧ c ≤ '9' then some (c.toNat-48)
  else if 'a' ≤ c ∧ c ≤ 'f' then some (c.toNat-87)
  else if 'A' ≤ c ∧ c ≤ 'F' then some (c.toNat-55)
  else none

def hex4 (n : ℕ) : List Char :=
  [hexDigit (n/4096%16),hexDigit (n/256%16),hexDigit (n/16%16),hexDigit (n%16)]

def hex4Value (a b c d : Char) : Option ℕ := do
  let a ← hexValue a
  let b ← hexValue b
  let c ← hexValue c
  let d ← hexValue d
  some (((a*16+b)*16+c)*16+d)

/-- The escapes of one letter. -/
def shortEscape (c : Char) : Option Char :=
  if c = '"' then some '"'
  else if c = '\\' then some '\\'
  else if c = '\x08' then some 'b'
  else if c = '\x0c' then some 'f'
  else if c = '\n' then some 'n'
  else if c = '\r' then some 'r'
  else if c = '\t' then some 't'
  else none

def unescape (c : Char) : Option Char :=
  if c = '"' then some '"'
  else if c = '\\' then some '\\'
  else if c = '/' then some '/'
  else if c = 'b' then some '\x08'
  else if c = 'f' then some '\x0c'
  else if c = 'n' then some '\n'
  else if c = 'r' then some '\r'
  else if c = 't' then some '\t'
  else none

/-- The characters written by their number. -/
def ByNumber (c : Char) : Prop :=
  c.toNat < 32 ∨ c = '<' ∨ c = '>' ∨ c = '&' ∨ c = '\u2028' ∨ c = '\u2029'

instance (c : Char) : Decidable (ByNumber c) :=
  inferInstanceAs (Decidable (_ ∨ _ ∨ _ ∨ _ ∨ _ ∨ _))

def escape (c : Char) : List Char :=
  match shortEscape c with
  | some e => ['\\',e]
  | none => if ByNumber c then '\\':: 'u'::hex4 c.toNat else [c]

def quote (s : String) : List Char := '"'::(s.toList.flatMap escape++['"'])

/-- A character as it stands, or the number of one half of a character or a whole one. -/
inductive CodeUnit where
  | char (c : Char)
  | number (n : ℕ)
  deriving DecidableEq, Repr

/-- Up to the closing quote. -/
def readUnits : List Char → Option (List CodeUnit × List Char)
  | [] => none
  | '"'::s => some ([],s)
  | '\\':: 'u'::a::b::c::d::s => do
    let n ← hex4Value a b c d
    let (us,rest) ← readUnits s
    some (.number n::us,rest)
  | '\\'::e::s => do
    let c ← unescape e
    let (us,rest) ← readUnits s
    some (.char c::us,rest)
  | c::s =>
    if c.toNat < 32 then none
    else do
      let (us,rest) ← readUnits s
      some (.char c::us,rest)

def highHalf (n : ℕ) : Bool := decide (0xD800 ≤ n ∧ n < 0xDC00)

def lowHalf (n : ℕ) : Bool := decide (0xDC00 ≤ n ∧ n < 0xE000)

/-- Halves that do not match are replaced. -/
def runeOf (n : ℕ) : Char := if highHalf n || lowHalf n then '\uFFFD' else Char.ofNat n

def runesOf : List CodeUnit → List Char
  | [] => []
  | .char c::us => c::runesOf us
  | .number n::.number m::us =>
    if highHalf n && lowHalf m then Char.ofNat (0x10000+(n-0xD800)*1024+(m-0xDC00))::runesOf us
    else runeOf n::runesOf (.number m::us)
  | .number n::us => runeOf n::runesOf us

def readText (s : List Char) : Option (String × List Char) :=
  (readUnits s).map fun p => (String.ofList (runesOf p.1),p.2)

theorem hexValue_hexDigit : ∀ d < 16, hexValue (hexDigit d) = some d := by decide

theorem hex4Value_hex4 {n : ℕ} (h : n < 65536) : hex4Value (hexDigit (n/4096%16))
    (hexDigit (n/256%16)) (hexDigit (n/16%16)) (hexDigit (n%16)) = some n := by
  have hd : ∀ m, hexValue (hexDigit (m%16)) = some (m%16) := fun m =>
    hexValue_hexDigit (m%16) (Nat.mod_lt m (by decide))
  simp only [hex4Value, hd]
  show some _ = some n
  rw [Option.some.injEq]
  omega

theorem shortEscape_some {c e : Char} (h : shortEscape c = some e) :
    e ≠ 'u' ∧ unescape e = some c := by
  unfold shortEscape at h
  repeat' split at h
  all_goals first
    | obtain rfl := Option.some.inj h
      subst c
      decide
    | cases h

theorem byNumber_lt {c : Char} (h : ByNumber c) : c.toNat < 65536 ∧
    (highHalf c.toNat || lowHalf c.toNat) = false := by
  obtain h | rfl | rfl | rfl | rfl | rfl := h
  · refine ⟨by omega,?_⟩
    simp only [highHalf, lowHalf, Bool.or_eq_false_iff, decide_eq_false_iff_not]
    omega
  all_goals decide

/-- How an escaped character is read. -/
def unitOf (c : Char) : CodeUnit :=
  if shortEscape c = none ∧ ByNumber c then .number c.toNat else .char c

theorem unitOf_number {c : Char} (hs : shortEscape c = none) (hn : ByNumber c) :
    unitOf c = .number c.toNat := if_pos ⟨hs,hn⟩

theorem unitOf_char {c : Char} (h : ¬(shortEscape c = none ∧ ByNumber c)) : unitOf c = .char c :=
  if_neg h

theorem readUnits_escape (c : Char) (s : List Char) : readUnits (escape c++s) =
    (readUnits s).map fun p => (unitOf c::p.1,p.2) := by
  unfold escape
  cases hc : shortEscape c with
  | some e =>
    obtain ⟨hu,he⟩ := shortEscape_some hc
    simp only [List.cons_append, List.nil_append]
    rw [readUnits, he, unitOf_char (by simp [hc])]
    · cases readUnits s <;> rfl
    · exact fun _ _ _ _ _ h => absurd h hu
  | none =>
    by_cases hn : ByNumber c
    · simp only [if_pos hn, hex4, List.cons_append, List.nil_append, readUnits,
        hex4Value_hex4 (byNumber_lt hn).1, unitOf_number hc hn]
      cases readUnits s <;> rfl
    · have hquote : c ≠ '"' := fun h => by simp [shortEscape, h] at hc
      have hslash : c ≠ '\\' := fun h => by simp [shortEscape, h] at hc
      have hsmall : ¬c.toNat < 32 := fun h => hn (.inl h)
      simp only [if_neg hn, List.singleton_append]
      rw [readUnits, if_neg hsmall, unitOf_char fun h => hn h.2]
      · cases readUnits s <;> rfl
      · exact hquote
      · exact fun _ _ _ _ _ h => absurd h hslash
      · exact fun _ _ h => absurd h hslash

theorem readUnits_quoted (s rest : List Char) :
    readUnits (s.flatMap escape++ '"'::rest) = some (s.map unitOf,rest) := by
  induction s with
  | nil => rfl
  | cons c s ih => rw [List.flatMap_cons, List.append_assoc, readUnits_escape, ih]; rfl

theorem runesOf_unitOf (c : Char) (us : List CodeUnit) : runesOf (unitOf c::us) = c::runesOf us := by
  by_cases h : shortEscape c = none ∧ ByNumber c
  · obtain ⟨hlt,hhalf⟩ := byNumber_lt h.2
    have hhigh : highHalf c.toNat = false := (Bool.or_eq_false_iff.mp hhalf).1
    have hrune : runeOf c.toNat = c := by simp [runeOf, hhalf]
    rw [unitOf_number h.1 h.2]
    cases us with
    | nil => simp only [runesOf, hrune]
    | cons u us =>
      cases u with
      | char d => simp only [runesOf, hrune]
      | number m =>
        simp only [runesOf, hhigh, hrune, Bool.false_and]
        rfl
  · rw [unitOf_char h, runesOf]

theorem runesOf_map (s : List Char) : runesOf (s.map unitOf) = s := by
  induction s with
  | nil => rfl
  | cons c s ih => rw [List.map_cons, runesOf_unitOf, ih]

theorem readText_quoted (s : String) (rest : List Char) :
    readText (s.toList.flatMap escape++ '"'::rest) = some (s,rest) := by
  rw [readText, readUnits_quoted, Option.map_some, runesOf_map, String.ofList_toList]

end Quote

section Object

inductive Scalar where
  | text (s : String)
  | int (n : ℤ)
  | null
  deriving DecidableEq, Repr

def Scalar.write : Scalar → List Char
  | .text s => quote s
  | .int n => (toString n).toList
  | .null => "null".toList

def blank (c : Char) : Bool := c == ' ' || c == '\t' || c == '\r' || c == '\n'

def skip (s : List Char) : List Char := s.dropWhile blank

/-- No leading zeros. -/
def readNat (s : List Char) : Option (ℕ × List Char) :=
  let digits := s.takeWhile Char.isDigit
  if digits = [] ∨ (digits.head? = some '0' ∧ 1 < digits.length) then none
  else some (Nat.ofDigitChars 10 digits 0,s.dropWhile Char.isDigit)

def readScalar : List Char → Option (Scalar × List Char)
  | '"'::s => (readText s).map fun p => (.text p.1,p.2)
  | 'n':: 'u':: 'l':: 'l'::s => some (.null,s)
  | '-'::s => (readNat s).map fun p => (.int (-p.1),p.2)
  | s => (readNat s).map fun p => (.int p.1,p.2)

/-- After the quote that opens a key: the members up to the closing brace. -/
def readMembers : ℕ → List Char → Option (List (String × Scalar) × List Char)
  | 0, _ => none
  | n+1, s => do
    let (key,s) ← readText s
    let ':'::s := skip s | none
    let (value,s) ← readScalar (skip s)
    match skip s with
    | '}'::s => some ([(key,value)],s)
    | ','::s =>
      let '"'::s := skip s | none
      let (members,rest) ← readMembers n s
      some ((key,value)::members,rest)
    | _ => none

/-- The members of an object with nothing but blanks around it; none in a null. -/
def readObject (s : List Char) : Option (List (String × Scalar)) :=
  let read := match skip s with
    | 'n':: 'u':: 'l':: 'l'::s => some ([],s)
    | '{'::s =>
      match skip s with
      | '}'::s => some ([],s)
      | '"'::s => readMembers s.length s
      | _ => none
    | _ => none
  match read with
  | some (members,rest) => if skip rest = [] then some members else none
  | none => none

def writeMember (m : String × Scalar) : List Char := quote m.1++ ':'::m.2.write

def writeObject (ms : List (String × Scalar)) : List Char :=
  '{'::([','].intercalate (ms.map writeMember)++['}'])

theorem skip_cons {c : Char} (h : blank c = false) (s : List Char) : skip (c::s) = c::s := by
  rw [skip, List.dropWhile_cons_of_neg (by simp [h])]

theorem readNat_text (n : ℕ) {rest : List Char} (h : ∀ c ∈ rest.head?, c.isDigit = false) :
    readNat ((toString n).toList++rest) = some (n,rest) := by
  have hdigits : ∀ c ∈ (toString n).toList, c.isDigit = true := fun _ => Decimal.nat_text_digit
  have htake : rest.takeWhile Char.isDigit = [] := by
    cases rest with
    | nil => rfl
    | cons c rest => simp [h c rfl]
  have hdrop : rest.dropWhile Char.isDigit = rest := by
    cases rest with
    | nil => rfl
    | cons c rest => simp [h c rfl]
  have hvalue : Nat.ofDigitChars 10 (toString n).toList 0 = n := by
    rw [Nat.toString_eq_repr, Nat.toList_repr]
    exact Nat.ofDigitChars_ten_toDigits
  have hwhole : ¬((toString n).toList = [] ∨
      ((toString n).toList.head? = some '0' ∧ 1 < (toString n).toList.length)) := by
    rintro (hnil | ⟨hzero,hlong⟩)
    · exact Decimal.nat_text_ne_nil n hnil
    · by_cases hn : n = 0
      · subst hn
        exact absurd hlong (by decide)
      · exact Decimal.nat_text_head hn hzero
  rw [readNat, List.takeWhile_append_of_pos hdigits, List.dropWhile_append_of_pos hdigits, htake,
    hdrop, List.append_nil]
  simp only [if_neg hwhole, hvalue]

theorem readScalar_digit {c : Char} (h : c.isDigit = true) (s : List Char) :
    readScalar (c::s) = (readNat (c::s)).map fun p => (.int p.1,p.2) := by
  rw [readScalar]
  · exact fun _ hs => absurd ((List.cons.inj hs).1 ▸ h) (by decide)
  · exact fun _ hs => absurd ((List.cons.inj hs).1 ▸ h) (by decide)
  · exact fun _ hs => absurd ((List.cons.inj hs).1 ▸ h) (by decide)

/-- A scalar is read back where no digit follows. -/
theorem readScalar_write (v : Scalar) {rest : List Char} (h : ∀ c ∈ rest.head?, c.isDigit = false) :
    readScalar (v.write++rest) = some (v,rest) := by
  cases v with
  | text s =>
    simp only [Scalar.write, quote, List.cons_append, List.append_assoc, List.nil_append]
    rw [readScalar, readText_quoted, Option.map_some]
  | int n =>
    cases n with
    | ofNat n =>
      have hread := readNat_text n h
      simp only [Scalar.write, Decimal.int_text_ofNat]
      cases ht : (toString n).toList with
      | nil => exact absurd ht (Decimal.nat_text_ne_nil n)
      | cons c cs =>
        have hc : c.isDigit = true := Decimal.nat_text_digit (n := n) (ht ▸ List.mem_cons_self)
        rw [ht] at hread
        rw [List.cons_append] at hread ⊢
        rw [readScalar_digit hc, hread]
        rfl
    | negSucc n =>
      simp only [Scalar.write, Decimal.int_text_negSucc, List.cons_append, readScalar,
        readNat_text (n+1) h]
      rfl
  | null => rfl

theorem readScalar_before (v : Scalar) {c : Char} (h : c.isDigit = false) (s : List Char) :
    readScalar (v.write++c::s) = some (v,c::s) :=
  readScalar_write v fun _ hd => Option.some.inj hd ▸ h

theorem skip_write (v : Scalar) (rest : List Char) : skip (v.write++rest) = v.write++rest := by
  have hhead : ∃ c s, v.write = c::s ∧ blank c = false := by
    cases v with
    | text s => exact ⟨_,_,rfl,rfl⟩
    | null => exact ⟨_,_,rfl,rfl⟩
    | int n =>
      cases ht : (toString n).toList with
      | nil =>
        cases n with
        | ofNat n => exact absurd ht (Decimal.nat_text_ne_nil n)
        | negSucc n => rw [Decimal.int_text_negSucc] at ht; nomatch ht
      | cons c s =>
        refine ⟨c,s,ht,?_⟩
        obtain hc | rfl := Decimal.int_text_char (n := n) (ht ▸ List.mem_cons_self)
        · by_contra hb
          simp only [blank, Bool.not_eq_false, Bool.or_eq_true, beq_iff_eq] at hb
          obtain ((rfl | rfl) | rfl) | rfl := hb <;> exact absurd hc (by decide)
        · rfl
  obtain ⟨c,s,hw,hc⟩ := hhead
  rw [hw, List.cons_append, skip_cons hc]

def memberTail (m : String × Scalar) : List Char := m.1.toList.flatMap escape++ '"':: ':'::m.2.write

theorem writeMember_eq (m : String × Scalar) : writeMember m = '"'::memberTail m := by
  simp [writeMember, quote, memberTail]

theorem readMembers_write (m : String × Scalar) (ms : List (String × Scalar)) {n : ℕ}
    (h : ms.length < n) (rest : List Char) :
    readMembers n (memberTail m++(ms.flatMap (fun m => ','::writeMember m)++ '}'::rest)) =
      some (m::ms,rest) := by
  induction ms generalizing m n with
  | nil =>
    cases n with
    | zero => nomatch h
    | succ n =>
      simp only [memberTail, List.flatMap_nil, List.nil_append, List.append_assoc, List.cons_append,
        readMembers, readText_quoted, Option.bind_eq_bind, Option.bind_some,
        skip_cons (c := ':') rfl, skip_write, skip_cons (c := '}') rfl,
        readScalar_before m.2 (c := '}') rfl]
  | cons k ms ih =>
    cases n with
    | zero => nomatch h
    | succ n =>
      have hrest := ih k (Nat.lt_of_succ_lt_succ h)
      simp only [List.flatMap_cons, writeMember_eq, List.cons_append, List.append_assoc] at hrest ⊢
      simp only [memberTail, List.append_assoc, List.cons_append] at hrest ⊢
      simp only [readMembers, readText_quoted, Option.bind_eq_bind, Option.bind_some,
        skip_cons (c := ':') rfl, skip_write, readScalar_before m.2 (c := ',') rfl, skip_cons (c := ',') rfl,
        skip_cons (c := '"') rfl, hrest]

theorem intercalate_cons (sep x : List Char) (xs : List (List Char)) :
    sep.intercalate (x::xs) = x++xs.flatMap fun y => sep++y := by
  induction xs generalizing x with
  | nil => simp
  | cons y xs ih =>
    rw [List.intercalate_cons_cons, ih, List.flatMap_cons, List.append_assoc, List.append_assoc]

theorem length_le_members (ms : List (String × Scalar)) :
    ms.length ≤ (ms.flatMap fun m => ','::writeMember m).length := by
  induction ms with
  | nil => exact Nat.le_refl 0
  | cons m ms ih =>
    rw [List.flatMap_cons, List.cons_append, List.length_cons, List.length_cons, List.length_append]
    omega

/-- An object is read back. -/
theorem readObject_writeObject {ms : List (String × Scalar)} (h : ms ≠ []) :
    readObject (writeObject ms) = some ms := by
  cases ms with
  | nil => exact absurd rfl h
  | cons m ms =>
    have htext : writeObject (m::ms) =
        '{':: '"'::(memberTail m++(ms.flatMap (fun m => ','::writeMember m)++['}'])) := by
      rw [writeObject, List.map_cons, intercalate_cons, writeMember_eq, List.flatMap_map]
      simp
    have hlength : ms.length <
        (memberTail m++(ms.flatMap (fun m => ','::writeMember m)++['}'])).length := by
      have hle := length_le_members ms
      simp only [List.length_append, List.length_singleton]
      omega
    rw [htext]
    simp only [readObject, skip_cons (c := '{') rfl, skip_cons (c := '"') rfl,
      readMembers_write m ms hlength []]
    rfl

end Object

end Radar.JsonText
