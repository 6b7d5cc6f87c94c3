import Mathlib.Data.List.TakeWhile
import Radar.Base.Scan

/-!
# The markers of a story

The tokenizer's `STORY_PLACEMENT_RE` and the parser's `storyRefMarkerRe` as
readers of a text's head. A repetition reads as far as it can; what may follow
it in a marker is none of its characters, so that nothing is given back.
-/

set_option autoImplicit false

namespace Radar.Story

open Radar.Scan

abbrev Text := List Char

/-- The text after a literal, if it starts with it. -/
def after (literal s : Text) : Option Text := s.dropPrefix? literal

theorem after_iff {literal s t : Text} : after literal s = some t ↔ s = literal++t := by
  rw [after, List.dropPrefix?_eq_some_iff]
  constructor
  · rintro ⟨p,rfl,hp⟩
    rw [eq_of_beq hp]
  · rintro rfl
    exact ⟨literal,rfl,beq_self_eq_true literal⟩

/-- A repetition stops at the first character that is not its own. -/
theorem takeWhile_stop {p : Char → Bool} {s t : Text} (hs : s.all p = true)
    (ht : ∀ c, t.head? = some c → p c = false) : (s++t).takeWhile p = s := by
  rw [List.takeWhile_append_of_pos (List.all_eq_true.mp hs)]
  cases t with
  | nil => simp
  | cons c t => rw [List.takeWhile_cons_of_neg (by simp [ht c rfl]), List.append_nil]

def isRefChar (c : Char) : Bool := c.isAlphanum || c = '_'

/-- `[a-z2-7]` -/
def isBase32 (c : Char) : Bool := ('a' ≤ c && c ≤ 'z') || ('2' ≤ c && c ≤ '7')

/-- `+` of a class of characters. -/
structure Many (p : Char → Bool) where
  text : Text
  nonempty : text ≠ []
  all : text.all p = true
  deriving DecidableEq

/-- What a marker names. -/
inductive Target where
  | index (digits : Many Char.isDigit)
  | ref (ref : Many isRefChar)
  deriving DecidableEq

structure Marker where
  target : Target
  compact : Bool
  deriving DecidableEq

def Target.text : Target → Text
  | .index digits => '=' :: digits.text
  | .ref name => "-ref=".toList++name.text

def opening : Text := "[[radar:evidence".toList

def closing (compact : Bool) : Text := if compact then "|compact]]".toList else "]]".toList

def Marker.text (m : Marker) : Text := opening++(m.target.text++closing m.compact)

def readMany (p : Char → Bool) (s : Text) : Option (Many p) :=
  if h : s.takeWhile p ≠ [] then some ⟨s.takeWhile p,h,by simp [List.all_takeWhile]⟩ else none

def readTarget (s : Text) : Option Target :=
  match after ['='] s with
  | some s => (readMany Char.isDigit s).map .index
  | none =>
    match after "-ref=".toList s with
    | some s => (readMany isRefChar s).map .ref
    | none => none

/-- `(\|compact)?\]\]` -/
def readClosing (s : Text) : Option Bool :=
  if closing true <+: s then some true else if closing false <+: s then some false else none

/-- `STORY_PLACEMENT_RE` at the head of a text. -/
def readMarker (s : Text) : Option Marker :=
  match after opening s with
  | none => none
  | some s =>
    match readTarget s with
    | none => none
    | some target => (readClosing (s.drop target.text.length)).map (⟨target,·⟩)

/-- `[a-z2-7]{26,128}` -/
structure RefPart where
  text : Text
  all : text.all isBase32 = true
  long : 26 ≤ text.length ∧ text.length ≤ 128
  deriving DecidableEq

/-- `ev_[a-z2-7]{26,128}_[a-z2-7]{26,128}` -/
structure Ref where
  first : RefPart
  second : RefPart
  deriving DecidableEq

def Ref.text (r : Ref) : Text := "ev_".toList++(r.first.text++ '_'::r.second.text)

structure RefMarker where
  ref : Ref
  compact : Bool
  deriving DecidableEq

def refOpening : Text := "[[radar:evidence-ref=".toList

def RefMarker.text (m : RefMarker) : Text := refOpening++(m.ref.text++closing m.compact)

def readRefPart (s : Text) : Option RefPart :=
  if h : 26 ≤ (s.takeWhile isBase32).length ∧ (s.takeWhile isBase32).length ≤ 128 then
    some ⟨s.takeWhile isBase32,by simp [List.all_takeWhile],h⟩
  else none

def readRef (s : Text) : Option Ref :=
  match after "ev_".toList s with
  | none => none
  | some s =>
    match readRefPart s with
    | none => none
    | some first =>
      match after ['_'] (s.drop first.text.length) with
      | none => none
      | some s => (readRefPart s).map (⟨first,·⟩)

/-- `storyRefMarkerRe` at the head of a text. -/
def readRefMarker (s : Text) : Option RefMarker :=
  match after refOpening s with
  | none => none
  | some s =>
    match readRef s with
    | none => none
    | some ref => (readClosing (s.drop ref.text.length)).map (⟨ref,·⟩)

section Readers

theorem closing_head (b : Bool) : ∃ c t, closing b = c::t ∧ (c = ']' ∨ c = '|') := by
  cases b with
  | true => exact ⟨_,_,rfl,.inr rfl⟩
  | false => exact ⟨_,_,rfl,.inl rfl⟩

theorem head_closing {b : Bool} {t : Text} {c : Char} (h : (closing b++t).head? = some c) :
    c = ']' ∨ c = '|' := by
  obtain ⟨d,u,hclosing,hd⟩ := closing_head b
  rw [hclosing] at h
  obtain rfl : d = c := by simpa using h
  exact hd

theorem readClosing_iff (s : Text) (b : Bool) : readClosing s = some b ↔ closing b <+: s := by
  have hone : closing true <+: s → ¬closing false <+: s := by
    rintro ⟨t,rfl⟩ ⟨u,hu⟩
    nomatch hu
  unfold readClosing
  cases b with
  | true => split_ifs <;> simp_all
  | false => split_ifs <;> simp_all

theorem readMany_start {p : Char → Bool} {s : Text} {many : Many p}
    (h : readMany p s = some many) : many.text <+: s := by
  unfold readMany at h
  split_ifs at h
  obtain rfl := Option.some.inj h
  exact List.takeWhile_prefix p

/-- What it read is read again if none of its characters follows. -/
theorem readMany_stop {p : Char → Bool} (many : Many p) {t : Text}
    (ht : ∀ c, t.head? = some c → p c = false) : readMany p (many.text++t) = some many := by
  have hstop := takeWhile_stop many.all ht
  unfold readMany
  simp only [hstop]
  exact dif_pos many.nonempty

theorem readTarget_start {s : Text} {target : Target} (h : readTarget s = some target) :
    target.text <+: s := by
  unfold readTarget at h
  split at h
  · rename_i t ht
    obtain ⟨digits,hdigits,rfl⟩ := Option.map_eq_some_iff.mp h
    rw [after_iff.mp ht]
    exact (List.prefix_append_right_inj ['=']).mpr (readMany_start hdigits)
  · split at h
    · rename_i t ht
      obtain ⟨name,hname,rfl⟩ := Option.map_eq_some_iff.mp h
      rw [after_iff.mp ht]
      exact (List.prefix_append_right_inj "-ref=".toList).mpr (readMany_start hname)
    · nomatch h

theorem readTarget_closed (target : Target) (b : Bool) (t : Text) :
    readTarget (target.text++(closing b++t)) = some target := by
  cases target with
  | index digits =>
    have hafter : after ['='] ((Target.index digits).text++(closing b++t)) =
        some (digits.text++(closing b++t)) := after_iff.mpr rfl
    have hread : readMany Char.isDigit (digits.text++(closing b++t)) = some digits :=
      readMany_stop digits fun c hc => by rcases head_closing hc with rfl | rfl <;> rfl
    simp only [readTarget, hafter, hread, Option.map_some]
  | ref name =>
    have hnot : after ['='] ((Target.ref name).text++(closing b++t)) = none := by
      rw [Option.eq_none_iff_forall_ne_some]
      exact fun u hu => nomatch (after_iff.mp hu)
    have hafter : after "-ref=".toList ((Target.ref name).text++(closing b++t)) =
        some (name.text++(closing b++t)) := after_iff.mpr (by rw [Target.text, List.append_assoc])
    have hread : readMany isRefChar (name.text++(closing b++t)) = some name :=
      readMany_stop name fun c hc => by rcases head_closing hc with rfl | rfl <;> rfl
    simp only [readTarget, hnot, hafter, hread, Option.map_some]

theorem readMarker_iff (s : Text) (m : Marker) : readMarker s = some m ↔ m.text <+: s := by
  constructor
  · intro h
    unfold readMarker at h
    split at h
    · nomatch h
    · rename_i t ht
      split at h
      · nomatch h
      · rename_i target htarget
        obtain ⟨b,hb,rfl⟩ := Option.map_eq_some_iff.mp h
        obtain ⟨u,rfl⟩ := readTarget_start htarget
        rw [List.drop_left, readClosing_iff] at hb
        rw [after_iff.mp ht]
        exact (List.prefix_append_right_inj _).mpr ((List.prefix_append_right_inj _).mpr hb)
  · rintro ⟨t,rfl⟩
    have hafter : after opening (m.text++t) = some (m.target.text++(closing m.compact++t)) :=
      after_iff.mpr (by simp [Marker.text])
    have hclosing : readClosing (closing m.compact++t) = some m.compact :=
      (readClosing_iff _ _).mpr (List.prefix_append _ _)
    simp only [readMarker, hafter, readTarget_closed, List.drop_left, hclosing, Option.map_some]

theorem readRefPart_start {s : Text} {part : RefPart} (h : readRefPart s = some part) :
    part.text <+: s := by
  unfold readRefPart at h
  split_ifs at h
  obtain rfl := Option.some.inj h
  exact List.takeWhile_prefix isBase32

theorem readRefPart_stop (part : RefPart) {t : Text}
    (ht : ∀ c, t.head? = some c → isBase32 c = false) : readRefPart (part.text++t) = some part := by
  have hstop := takeWhile_stop part.all ht
  unfold readRefPart
  simp only [hstop]
  exact dif_pos part.long

theorem readRef_start {s : Text} {ref : Ref} (h : readRef s = some ref) : ref.text <+: s := by
  unfold readRef at h
  split at h
  · nomatch h
  · rename_i t ht
    split at h
    · nomatch h
    · rename_i first hfirst
      obtain ⟨u,rfl⟩ := readRefPart_start hfirst
      rw [List.drop_left] at h
      split at h
      · nomatch h
      · rename_i v hv
        obtain ⟨second,hsecond,rfl⟩ := Option.map_eq_some_iff.mp h
        rw [after_iff.mp ht, after_iff.mp hv]
        refine (List.prefix_append_right_inj _).mpr ((List.prefix_append_right_inj _).mpr ?_)
        exact (List.prefix_append_right_inj ['_']).mpr (readRefPart_start hsecond)

theorem readRef_stop (ref : Ref) {t : Text} (ht : ∀ c, t.head? = some c → isBase32 c = false) :
    readRef (ref.text++t) = some ref := by
  have hafter : after "ev_".toList (ref.text++t) =
      some (ref.first.text++('_'::ref.second.text++t)) :=
    after_iff.mpr (by simp [Ref.text])
  have hfirst : readRefPart (ref.first.text++('_'::ref.second.text++t)) = some ref.first :=
    readRefPart_stop ref.first fun c hc => by
      obtain rfl : '_' = c := Option.some.inj hc
      rfl
  have hsecond : readRefPart (ref.second.text++t) = some ref.second :=
    readRefPart_stop ref.second ht
  have hunder : after ['_'] ('_'::ref.second.text++t) = some (ref.second.text++t) :=
    after_iff.mpr rfl
  simp only [readRef, hafter, hfirst, List.drop_left, hunder, hsecond, Option.map_some]

theorem readRefMarker_iff (s : Text) (m : RefMarker) :
    readRefMarker s = some m ↔ m.text <+: s := by
  constructor
  · intro h
    unfold readRefMarker at h
    split at h
    · nomatch h
    · rename_i t ht
      split at h
      · nomatch h
      · rename_i ref href
        obtain ⟨b,hb,rfl⟩ := Option.map_eq_some_iff.mp h
        obtain ⟨u,rfl⟩ := readRef_start href
        rw [List.drop_left, readClosing_iff] at hb
        rw [after_iff.mp ht]
        exact (List.prefix_append_right_inj _).mpr ((List.prefix_append_right_inj _).mpr hb)
  · rintro ⟨t,rfl⟩
    have hafter : after refOpening (m.text++t) = some (m.ref.text++(closing m.compact++t)) :=
      after_iff.mpr (by simp [RefMarker.text])
    have href : readRef (m.ref.text++(closing m.compact++t)) = some m.ref :=
      readRef_stop m.ref fun c hc => by rcases head_closing hc with rfl | rfl <;> rfl
    have hclosing : readClosing (closing m.compact++t) = some m.compact :=
      (readClosing_iff _ _).mpr (List.prefix_append _ _)
    simp only [readRefMarker, hafter, href, List.drop_left, hclosing, Option.map_some]

end Readers

/-- `STORY_PLACEMENT_RE` -/
def storyPlacementRe : Pattern Char Marker where
  read := readMarker
  text := Marker.text
  read_iff := readMarker_iff
  text_ne_nil _ := nofun

def storyRefMarkerRe : Pattern Char RefMarker where
  read := readRefMarker
  text := RefMarker.text
  read_iff := readRefMarker_iff
  text_ne_nil _ := nofun

section Shapes

/-- The characters of markers. -/
def isMarkerChar (c : Char) : Bool :=
  c.isAlphanum || c ∈ [ '[', ']', '|', ':', '-', '=', '_']

theorem opening_chars : opening.all isMarkerChar = true := by decide

theorem closing_chars (b : Bool) : (closing b).all isMarkerChar = true := by cases b <;> decide

theorem marker_char_of_digit {c : Char} (h : c.isDigit = true) : isMarkerChar c = true := by
  simp [isMarkerChar, Char.isAlphanum, h]

theorem marker_char_of_ref {c : Char} (h : isRefChar c = true) : isMarkerChar c = true := by
  rcases Bool.or_eq_true_iff.mp h with h | h
  · simp [isMarkerChar, h]
  · simp [isMarkerChar, of_decide_eq_true h]

theorem Target.chars (target : Target) {c : Char} (h : c ∈ target.text) :
    isMarkerChar c = true := by
  cases target with
  | index digits =>
    rcases List.mem_cons.mp h with rfl | h
    · rfl
    · exact marker_char_of_digit (List.all_eq_true.mp digits.all c h)
  | ref name =>
    rcases List.mem_append.mp h with h | h
    · exact List.all_eq_true.mp (show "-ref=".toList.all isMarkerChar = true by decide) c h
    · exact marker_char_of_ref (List.all_eq_true.mp name.all c h)

theorem Marker.not_mem {m : Marker} {c : Char} (hc : isMarkerChar c = false) : c ∉ m.text := by
  intro h
  have hin : isMarkerChar c = true := by
    rcases List.mem_append.mp h with h | h
    · exact List.all_eq_true.mp opening_chars c h
    · rcases List.mem_append.mp h with h | h
      · exact m.target.chars h
      · exact List.all_eq_true.mp (closing_chars m.compact) c h
  exact absurd (hc.symm.trans hin) (by decide)

/-- Two brackets, and none but at the end after them. -/
theorem Marker.shape (m : Marker) : ∃ body, m.text = '[':: '['::body ∧ '[' ∉ body ∧ body ≠ [] := by
  refine ⟨"radar:evidence".toList++(m.target.text++closing m.compact),rfl,?_,nofun⟩
  intro h
  rcases List.mem_append.mp h with h | h
  · exact absurd h (by decide)
  · rcases List.mem_append.mp h with h | h
    · cases htarget : m.target with
      | index digits =>
        rw [htarget] at h
        rcases List.mem_cons.mp h with h | h
        · nomatch h
        · exact absurd (List.all_eq_true.mp digits.all _ h) (by decide)
      | ref name =>
        rw [htarget] at h
        rcases List.mem_append.mp h with h | h
        · exact absurd h (by decide)
        · exact absurd (List.all_eq_true.mp name.all _ h) (by decide)
    · cases hb : m.compact with
      | true => rw [hb] at h; exact absurd h (by decide)
      | false => rw [hb] at h; exact absurd h (by decide)

theorem Marker.head (m : Marker) : ∃ rest, m.text = '['::rest := by
  obtain ⟨body,htext,_⟩ := m.shape
  exact ⟨'['::body,htext⟩

/-- No marker starts inside another. -/
theorem story_separate : storyPlacementRe.Separate := by
  intro m x y htext hx hy k
  obtain ⟨body,hbody,hfree,hne⟩ := m.shape
  obtain ⟨other,hother,_,_⟩ := k.shape
  have htext : '[':: '['::body = x++y := hbody.symm.trans htext
  have hk : storyPlacementRe.text k = '[':: '['::other := hother
  rw [hk]
  cases x with
  | nil => exact absurd rfl hx
  | cons a x =>
    obtain ⟨_,htext⟩ := List.cons.inj htext
    cases x with
    | nil =>
      obtain rfl : '['::body = y := htext
      cases body with
      | nil => exact absurd rfl hne
      | cons b body =>
        have hb : b ≠ '[' := fun hb => hfree (by simp [hb])
        constructor
        · exact fun h => hb (List.cons_prefix_cons.mp (List.cons_prefix_cons.mp h).2).1
        · exact fun h => hb (List.cons_prefix_cons.mp (List.cons_prefix_cons.mp h).2).1.symm
    | cons b x =>
      obtain ⟨_,rfl⟩ := List.cons.inj htext
      cases y with
      | nil => exact absurd rfl hy
      | cons c y =>
        have hc : c ≠ '[' := fun hc => hfree (by simp [hc])
        constructor
        · exact fun h => hc (List.cons_prefix_cons.mp h).1
        · exact fun h => hc (List.cons_prefix_cons.mp h).1.symm

theorem ref_char_of_base32 {c : Char} (h : isBase32 c = true) : isRefChar c = true := by
  simp only [isBase32, Bool.or_eq_true, Bool.and_eq_true, decide_eq_true_eq, Char.le_def] at h
  have halnum : c.isAlphanum = true := by
    have hdigit : c.isDigit = (decide (48 ≤ c.val) && decide (c.val ≤ 57)) := rfl
    have halpha : c.isAlpha = (c.isUpper || (decide (97 ≤ c.val) && decide (c.val ≤ 122))) := rfl
    rw [Char.isAlphanum, halpha, hdigit]
    simp only [Bool.or_eq_true, Bool.and_eq_true, decide_eq_true_eq]
    rcases h with h | ⟨h2,h7⟩
    · exact .inl (.inr h)
    · refine .inr ⟨?_,?_⟩
      · exact UInt32.le_trans (show 48 ≤ '2'.val by decide) h2
      · exact UInt32.le_trans h7 (show '7'.val ≤ 57 by decide)
  simp [isRefChar, halnum]

theorem Ref.all_ref (r : Ref) : r.text.all isRefChar = true := by
  have hpart (part : RefPart) : part.text.all isRefChar = true :=
    List.all_eq_true.mpr fun c hc => ref_char_of_base32 (List.all_eq_true.mp part.all c hc)
  rw [Ref.text, List.all_append, List.all_append, List.all_cons, hpart, hpart]
  rfl

/-- A marker of the parser is one of the tokenizer's. -/
def RefMarker.wide (m : RefMarker) : Marker :=
  ⟨.ref ⟨m.ref.text,nofun,m.ref.all_ref⟩,m.compact⟩

theorem RefMarker.wide_text (m : RefMarker) : m.text = m.wide.text := by
  rw [RefMarker.text, Marker.text, RefMarker.wide, Target.text,
    show refOpening = opening++"-ref=".toList from rfl, List.append_assoc, List.append_assoc]

end Shapes

end Radar.Story
