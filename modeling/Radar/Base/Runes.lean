import Mathlib.Data.List.DropRight
import Mathlib.Data.List.Infix

/-!
# Characters of a text

White space, words and letters up to case, as the standard library and the
regular expressions of the source see them.
-/

set_option autoImplicit false

namespace Radar.Runes

/-- `unicode.IsSpace` -/
def isSpace (c : Char) : Bool :=
  c ∈ [ '\t', '\n', '\x0b', '\x0c', '\r', ' ', '\u0085', '\u00a0', '\u1680', '\u2028', '\u2029',
    '\u202f', '\u205f', '\u3000'] || ('\u2000' ≤ c && c ≤ '\u200a')

def trim (p : Char → Bool) (s : List Char) : List Char := (s.dropWhile p).rdropWhile p

def trimSpace (s : List Char) : List Char := trim isSpace s

/-- `\s` -/
def isBlank (c : Char) : Bool := c ∈ [ '\t', '\n', '\x0c', '\r', ' ']

/-- `\w` -/
def isWord (c : Char) : Bool := c.isAlphanum || c == '_'

/-- Letters are equal up to case; two letters of other alphabets fold to `k` and `s`. -/
def foldRune (c : Char) : Char :=
  if c = '\u017F' then 's' else if c = '\u212A' then 'k' else c.toLower

/-- What follows a text that is given up to case. -/
def afterFold (text s : List Char) : Option (List Char) :=
  if (s.take text.length).map foldRune = text.map foldRune then some (s.drop text.length) else none

/-- What follows a run of at least one such character. -/
def afterSome (p : Char → Bool) (s : List Char) : Option (List Char) :=
  if s.head?.any p then some (s.dropWhile p) else none

def holds (part s : String) : Bool := part.toList <:+: s.toList

/-- `strings.Fields` -/
def fields : List Char → List (List Char)
  | [] => []
  | c::s =>
    if isSpace c then fields s
    else if s.head?.all isSpace then [c]::fields s
    else
      match fields s with
      | [] => [[c]]
      | field::rest => (c::field)::rest

theorem fields_map {f : Char → Char} (hf : ∀ c, isSpace (f c) = isSpace c) (s : List Char) :
    fields (s.map f) = (fields s).map (List.map f) := by
  induction s with
  | nil => rfl
  | cons c s ih =>
    have hhead : (s.map f).head?.all isSpace = s.head?.all isSpace := by
      cases s with
      | nil => rfl
      | cons d s => exact hf d
    rw [List.map_cons, fields, fields, hf, hhead, ih]
    split_ifs
    · rfl
    · rfl
    · cases fields s <;> rfl

theorem fields_dropWhile (s : List Char) : fields (s.dropWhile isSpace) = fields s := by
  induction s with
  | nil => rfl
  | cons c s ih =>
    by_cases hc : isSpace c = true
    · rw [List.dropWhile_cons_of_pos hc, ih, fields, if_pos hc]
    · rw [List.dropWhile_cons_of_neg hc]

theorem fields_append_space {c : Char} (hc : isSpace c = true) (s : List Char) :
    fields (s++[c]) = fields s := by
  induction s with
  | nil => simp [fields, hc]
  | cons d s ih =>
    have hhead : (s++[c]).head?.all isSpace = s.head?.all isSpace := by
      cases s with
      | nil => simpa using hc
      | cons e s => rfl
    rw [List.cons_append, fields, fields, hhead, ih]

theorem fields_trimSpace (s : List Char) : fields (trimSpace s) = fields s := by
  have hright (s : List Char) : fields (s.rdropWhile isSpace) = fields s := by
    induction s using List.reverseRecOn with
    | nil => rfl
    | append_singleton s c ih =>
      by_cases hc : isSpace c = true
      · rw [List.rdropWhile_concat_pos _ _ _ hc, ih, fields_append_space hc]
      · rw [List.rdropWhile_concat_neg _ _ _ hc]
  rw [trimSpace, trim, hright, fields_dropWhile]

end Radar.Runes
