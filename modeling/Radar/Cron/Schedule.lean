import Radar.Base.CyclicGap
import Radar.Base.Decimal
import Radar.Base.Join
import Radar.Base.Months
import Radar.Base.Runes

/-!
# Cron schedules

The cadence estimate is `MinInterval` and `StaleThreshold` over the text of a
schedule. Durations are in minutes: every constant of the source is a multiple
of an hour, so that halving one is exact. A schedule fires by its fields, each a
list of stars, numbers and ranges, the last two with a step or without. Minutes
are counted from January 1 of year 0, in both directions.
-/

set_option autoImplicit false

namespace Radar.Cron

open Radar.CyclicGap Radar.Decimal Radar.Join Radar.Runes

abbrev Text := List Char

def hour : ℕ := 60

def day : ℕ := 24*hour

/-- A part without its step. -/
def partStep (part : Text) : Option (Text × ℤ) :=
  match cut '/' part with
  | some (part,rest) =>
    match atoi rest with
    | some st => if st ≤ 0 then none else some (part,st)
    | none => none
  | none => some (part,1)

def partBounds (part : Text) (lo hi : ℕ) : Option (ℤ × ℤ) :=
  if part = [ '*'] then some (lo,hi)
  else
    match cut '-' part with
    | some (a,b) =>
      match atoi a, atoi b with
      | some a, some b => some (a,b)
      | _, _ => none
    | none => (atoi part).map fun v => (v,v)

/-- `for v := start; v <= end; v += step` -/
def stepped (start stop step : ℕ) : List ℕ := List.range' start ((stop-start)/step+1) step

def partValues (part : Text) (lo hi : ℕ) : Option (List ℕ) :=
  match partStep part with
  | none => none
  | some (part,step) =>
    match partBounds part lo hi with
    | none => none
    | some (start,stop) =>
      if start < lo ∨ (hi : ℤ) < stop ∨ stop < start then none
      else some (stepped start.toNat stop.toNat step.toNat)

/-- The set of the values in its order, which is that of the range. -/
def cronFieldValues (field : Text) (lo hi : ℕ) : Option (List ℕ) :=
  match (field.splitOn ',').mapM fun part => partValues part lo hi with
  | none => none
  | some sets =>
    let out := (List.range (hi+1)).filter (· ∈ sets.flatten)
    if out = [] then none else some out

def maxDomGapDays (field : Text) : Option ℕ :=
  match cronFieldValues field 1 31 with
  | none => none
  | some days =>
    let reliable := days.filter (· ≤ 28)
    if h : reliable = [] then some (62*day)
    else some (widest (31-reliable.getLast h+reliable.head h) reliable*day)

def maxMonthGapDays (field : Text) : Option ℕ :=
  match cronFieldValues field 1 12 with
  | none => none
  | some months =>
    if h : months = [] then none
    else if months.length = 1 then some (365*day)
    else some (widest (months.head h+12-months.getLast h) months*31*day)

def minInterval (schedule : Text) : Option ℕ :=
  let s := (trimSpace schedule).map fun c => if c = '?' then '*' else c
  if s = "@yearly".toList ∨ s = "@annually".toList then some (365*day)
  else if s = "@monthly".toList then some (28*day)
  else if s = "@weekly".toList then some (7*day)
  else if s = "@daily".toList ∨ s = "@midnight".toList then some day
  else if s = "@hourly".toList then some hour
  else
    match fields s with
    | [_,hours,dom,month,dow] =>
      if month ≠ [ '*'] then some ((maxMonthGapDays month).getD (28*day))
      else if dom ≠ [ '*'] then some ((maxDomGapDays dom).getD (28*day))
      else if dow ≠ [ '*'] then some (7*day)
      else if hours ≠ [ '*'] ∧ ¬"*/".toList <+: hours then some day
      else some hour
    | _ => none

def staleThreshold (schedule : Text) : ℕ :=
  match minInterval schedule with
  | none => day
  | some interval => if day < interval+interval/2 then interval+interval/2 else day

end Radar.Cron

namespace Radar.Cron

open Radar.Calendar Radar.Runes

inductive Item where
  | star (step : Option ℕ)
  | value (n : ℕ)
  | range (first last : ℕ) (step : Option ℕ)
  deriving DecidableEq

abbrev Field := List Item

structure Schedule where
  minute : Field
  hour : Field
  dom : Field
  month : Field
  dow : Field
  deriving DecidableEq

section Values

def stepWithin (hi : ℕ) (step : Option ℕ) : Prop := ∀ s ∈ step, 1 ≤ s ∧ s ≤ hi

/-- The numbers of the item are within the range of its field. -/
def Item.Within (lo hi : ℕ) : Item → Prop
  | .star step => stepWithin hi step
  | .value n => lo ≤ n ∧ n ≤ hi
  | .range first last step => lo ≤ first ∧ first ≤ last ∧ last ≤ hi ∧ stepWithin hi step

def Field.Within (lo hi : ℕ) (f : Field) : Prop := f ≠ [] ∧ ∀ item ∈ f, item.Within lo hi

structure Schedule.Standard (s : Schedule) : Prop where
  minute : Field.Within 0 59 s.minute
  hour : Field.Within 0 23 s.hour
  dom : Field.Within 1 31 s.dom
  month : Field.Within 1 12 s.month
  dow : Field.Within 0 7 s.dow

def Item.admits (lo hi v : ℕ) : Item → Bool
  | .star step => lo ≤ v && v ≤ hi && (v-lo) % step.getD 1 = 0
  | .value n => v = n
  | .range first last step => first ≤ v && v ≤ last && (v-first) % step.getD 1 = 0

def Field.admits (lo hi : ℕ) (f : Field) (v : ℕ) : Bool := f.any (Item.admits lo hi v)

/-- A field that is a star alone. -/
def anything : Field := [.star none]

end Values

section Firing

/-- The day of the week, from Sunday; January 1 of year 0 was a Saturday. -/
def weekday (d : ℤ) : ℕ := ((d+6) % 7).toNat

def Schedule.dowMatches (s : Schedule) (d : ℤ) : Bool :=
  Field.admits 0 7 s.dow (weekday d) || (weekday d = 0 && Field.admits 0 7 s.dow 7)

/-- Either day field matches where both are restricted, else both must. -/
def Schedule.dayMatches (s : Schedule) (d : ℤ) : Bool :=
  if s.dom ≠ anything ∧ s.dow ≠ anything then
    Field.admits 1 31 s.dom (civil d).day || s.dowMatches d
  else Field.admits 1 31 s.dom (civil d).day && s.dowMatches d

def Schedule.firesOn (s : Schedule) (d : ℤ) : Bool :=
  Field.admits 1 12 s.month (civil d).month && s.dayMatches d

def Schedule.fires (s : Schedule) (t : ℤ) : Bool :=
  s.firesOn (t / 1440) && Field.admits 0 23 s.hour (t % 1440 / 60).toNat &&
    Field.admits 0 59 s.minute (t % 60).toNat

/-- Two firing times with none between them. -/
structure Schedule.Consecutive (s : Schedule) (t u : ℤ) : Prop where
  first : s.fires t = true
  second : s.fires u = true
  lt : t < u
  between : ∀ v, t < v → v < u → s.fires v = false

end Firing

section Spelling

/-- Digits, with leading zeros or without. -/
def IsNumber (t : Text) (n : ℕ) : Prop :=
  t ≠ [] ∧ t.all Char.isDigit = true ∧ Nat.ofDigitChars 10 t 0 = n

inductive SpelledStep : Option ℕ → Text → Prop where
  | absent : SpelledStep none []
  | present {n : ℕ} {t : Text} (h : IsNumber t n) : SpelledStep (some n) ('/'::t)

inductive Item.Spelled : Item → Text → Prop where
  | star {step : Option ℕ} {t : Text} (h : SpelledStep step t) : Item.Spelled (.star step) ('*'::t)
  | value {n : ℕ} {t : Text} (h : IsNumber t n) : Item.Spelled (.value n) t
  | range {first last : ℕ} {step : Option ℕ} {a b t : Text} (hfirst : IsNumber a first)
      (hlast : IsNumber b last) (hstep : SpelledStep step t) :
      Item.Spelled (.range first last step) (a++ '-'::(b++t))

/-- The items with commas between them. -/
def Field.Spelled (f : Field) (t : Text) : Prop :=
  ∃ parts, List.Forall₂ Item.Spelled f parts ∧ t = [ ','].intercalate parts

/-- The five fields with white space between them. -/
def Schedule.Spelled (s : Schedule) (text : Text) : Prop :=
  ∃ minute hour dom month dow, fields text = [minute,hour,dom,month,dow] ∧
    Field.Spelled s.minute minute ∧ Field.Spelled s.hour hour ∧ Field.Spelled s.dom dom ∧
    Field.Spelled s.month month ∧ Field.Spelled s.dow dow

end Spelling

end Radar.Cron
