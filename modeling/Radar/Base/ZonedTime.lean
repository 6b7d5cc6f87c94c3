import Radar.Base.Calendar
import Radar.Base.Decimal

/-!
# Times with a zone in RFC 3339

A time of whole seconds is written as its local date and clock and its zone. A
text is read as a time when it is the text of that time. Times are compared by
their instants.
-/

set_option autoImplicit false

namespace Radar.ZonedTime
open Radar.Calendar Radar.FixedWidth

abbrev Text := List Char

/-- Local seconds from the first day of year 0, and the zone as it is written. -/
structure Stamp where
  seconds : ℤ
  zone : Text
  deriving DecidableEq

def clockText (n : ℕ) : Text :=
  digits 2 (n/3600)++ ':'::(digits 2 (n/60 % 60)++ ':'::digits 2 (n % 60))

/-- Date and clock, for years of four digits. -/
def localText (seconds : ℤ) : Text :=
  let date := civil (seconds / 86400)
  digits 4 date.year.toNat++ '-'::(digits 2 date.month++ '-'::(digits 2 date.day++
    'T'::clockText (seconds % 86400).toNat))

def Stamp.text (t : Stamp) : Text := localText t.seconds++t.zone

/-- The seconds that local time is ahead, of a zone as it is written. -/
def offset : Text → Option ℤ
  | [ 'Z'] => some 0
  | [sign,h₁,h₂,':',m₁,m₂] =>
    let hours := value [h₁,h₂]
    let minutes := value [m₁,m₂]
    if [h₁,h₂,m₁,m₂].all Char.isDigit && decide (hours ≤ 24 ∧ minutes ≤ 60) then
      let seconds : ℤ := (60*hours+minutes)*60
      if sign = '+' then some seconds else if sign = '-' then some (-seconds) else none
    else none
  | _ => none

/-- What the fields of a date and a clock name. -/
def secondsOf (body : Text) : ℤ :=
  let field (start width : ℕ) := value ((body.drop start).take width)
  dayOf (field 0 4) (field 5 2) (field 8 2)*86400+field 11 2*3600+field 14 2*60+field 17 2

def parse (s : Text) : Option Stamp :=
  let body := s.take 19
  let stamp : Stamp := ⟨secondsOf body,s.drop 19⟩
  if localText stamp.seconds = body ∧ (offset stamp.zone).isSome then some stamp else none

/-- Seconds in UTC. -/
def Stamp.instant (t : Stamp) : ℤ := t.seconds-(offset t.zone).getD 0

/-- The end of the text that is taken for the zone. -/
def zoneSuffix (s : Text) : Text :=
  if s.getLast? = some 'Z' then [ 'Z'] else if 6 ≤ s.length then s.drop (s.length-6) else []

theorem parse_text {s : Text} {t : Stamp} (h : parse s = some t) :
    t.text = s ∧ (offset t.zone).isSome := by
  simp only [parse] at h
  split_ifs at h with hvalid
  obtain rfl := Option.some.inj h
  refine ⟨?_,hvalid.2⟩
  rw [Stamp.text, hvalid.1]
  exact List.take_append_drop 19 s

/-- A zone is a letter or six characters that do not end in it. -/
theorem zone_cases {z : Text} (h : (offset z).isSome) :
    z = [ 'Z'] ∨ (z.length = 6 ∧ z.getLast? ≠ some 'Z') := by
  unfold offset at h
  split at h
  · exact .inl rfl
  · next sign h₁ h₂ m₁ m₂ =>
    refine .inr ⟨rfl,fun hlast => ?_⟩
    obtain rfl : m₂ = 'Z' := by simpa using hlast
    simp at h
  · nomatch h

theorem parse_zone {s : Text} {t : Stamp} (h : parse s = some t) : zoneSuffix s = t.zone := by
  obtain ⟨htext,hzone⟩ := parse_text h
  rw [← htext, Stamp.text, zoneSuffix]
  rcases zone_cases hzone with hz | ⟨hlen,hlast⟩
  · rw [hz, if_pos (by simp)]
  · have hne : t.zone ≠ [] := by
      rintro hnil
      rw [hnil] at hlen
      nomatch hlen
    rw [List.getLast?_append_of_ne_nil _ hne, if_neg hlast, List.length_append, hlen,
      if_pos (by omega), Nat.add_sub_cancel, List.drop_left]

/-- In one zone as many seconds lie between the instants as between the local times. -/
theorem instant_sub {t u : Stamp} (h : t.zone = u.zone) :
    t.instant-u.instant = t.seconds-u.seconds := by
  rw [Stamp.instant, Stamp.instant, h]
  omega

example : (parse "2024-02-29T23:59:59+03:30".toList).map Stamp.text =
    some "2024-02-29T23:59:59+03:30".toList := by decide

end Radar.ZonedTime
