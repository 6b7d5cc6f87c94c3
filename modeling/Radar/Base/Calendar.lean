import Mathlib.Data.Nat.Find
import Mathlib.Tactic.SplitIfs

/-!
# The proleptic Gregorian calendar

Days are counted from January 1 of year 0. A day falls into the unique block
(of years, then of months) whose first day is not after it, and two days
compare as their blocks do, then as their offsets do.
-/

set_option autoImplicit false

namespace Radar.Calendar

/-! ## Blocks -/

def block (f : ℕ → ℕ) (n d : ℕ) : ℕ := Nat.findGreatest (fun b => f b ≤ d) n

theorem start_block_le {f : ℕ → ℕ} (n : ℕ) {d : ℕ} (hzero : f 0 = 0) :
    f (block f n d) ≤ d := by
  apply Nat.findGreatest_spec (P := fun b => f b ≤ d) (Nat.zero_le n)
  omega

theorem block_le (f : ℕ → ℕ) (n d : ℕ) : block f n d ≤ n :=
  Nat.findGreatest_le (P := fun b => f b ≤ d) n

theorem lt_start_block_succ {f : ℕ → ℕ} {n d : ℕ} (hbound : d < f (n+1)) :
    d < f (block f n d+1) := by
  rcases Nat.lt_or_ge (block f n d) n with hlt | hge
  · exact Nat.lt_of_not_le (Nat.findGreatest_is_greatest (P := fun b => f b ≤ d)
      (Nat.lt_succ_self _) hlt)
  · have heq : block f n d = n := Nat.le_antisymm (block_le f n d) hge
    rwa [heq]

theorem start_le_start {f : ℕ → ℕ} {n : ℕ} (hstep : ∀ b < n, f b < f (b+1))
    {b c : ℕ} (hbc : b ≤ c) (hc : c ≤ n) : f b ≤ f c := by
  induction c, hbc using Nat.le_induction with
  | base => exact Nat.le_refl _
  | succ c _ ih => exact Nat.le_trans (ih (by omega)) (Nat.le_of_lt (hstep c (by omega)))

/-- Days compare by block first and by offset within a block second. -/
theorem lt_iff_block_lt {f : ℕ → ℕ} {n d e b c : ℕ} (hstep : ∀ b < n, f b < f (b+1))
    (hb : b < n) (hc : c < n) (hd : f b ≤ d) (hd' : d < f (b+1)) (he : f c ≤ e)
    (he' : e < f (c+1)) : d < e ↔ b < c ∨ b = c ∧ d-f b < e-f c := by
  rcases Nat.lt_trichotomy b c with hlt | heq | hgt
  · have := start_le_start hstep (show b+1 ≤ c by omega) (by omega)
    omega
  · subst heq
    omega
  · have := start_le_start hstep (show c+1 ≤ b by omega) (by omega)
    omega

/-! ## Years and months -/

/-- The days of the years `0` to `y-1` of a 400-year cycle; year 0 is a leap year. -/
def daysBeforeYear (y : ℕ) : ℕ := 365*y+(y+3)/4-(y+99)/100+(y+399)/400

def isLeap (y : ℕ) : Bool := y % 4 == 0 && (y % 100 != 0 || y % 400 == 0)

def daysBeforeMonth (leap : Bool) (m : ℕ) : ℕ :=
  [0, 31, 59, 90, 120, 151, 181, 212, 243, 273, 304, 334, 365].getD m 0 +
    if leap && decide (2 ≤ m) then 1 else 0

theorem days_before_year_succ (y : ℕ) :
    daysBeforeYear (y+1) = daysBeforeYear y+365+if isLeap y then 1 else 0 := by
  have h4 : (y+4)/4 = (y+3)/4+if y % 4 = 0 then 1 else 0 := by split_ifs <;> omega
  have h100 : (y+100)/100 = (y+99)/100+if y % 100 = 0 then 1 else 0 := by split_ifs <;> omega
  have h400 : (y+400)/400 = (y+399)/400+if y % 400 = 0 then 1 else 0 := by split_ifs <;> omega
  have hdvd : y % 100 = 0 → y % 4 = 0 := by omega
  have hdvd' : y % 400 = 0 → y % 100 = 0 := by omega
  have hle : (y+99)/100 ≤ 365*y+(y+3)/4 := by omega
  simp only [daysBeforeYear, isLeap, Bool.and_eq_true, Bool.or_eq_true, beq_iff_eq, bne_iff_ne,
    Nat.add_assoc, Nat.reduceAdd, h4, h100, h400]
  by_cases m4 : y % 4 = 0 <;> by_cases m100 : y % 100 = 0 <;> by_cases m400 : y % 400 = 0 <;>
    simp_all <;> omega

theorem days_before_month_step (leap : Bool) :
    ∀ m < 12, daysBeforeMonth leap m < daysBeforeMonth leap (m+1) := by
  cases leap <;> decide

structure Civil where
  year : ℤ
  month : ℕ
  day : ℕ
  deriving DecidableEq, Repr

def cycleDays : ℕ := 146097

/-- The year within its 400-year cycle. -/
def cycleYear (r : ℕ) : ℕ := block daysBeforeYear (r/365) r

def cycleMonth (r : ℕ) : ℕ :=
  block (daysBeforeMonth (isLeap (cycleYear r))) 11 (r-daysBeforeYear (cycleYear r))

def civil (d : ℤ) : Civil :=
  let r := (d % cycleDays).toNat
  { year := 400*(d / cycleDays)+cycleYear r
    month := cycleMonth r+1
    day := r-daysBeforeYear (cycleYear r)-
      daysBeforeMonth (isLeap (cycleYear r)) (cycleMonth r)+1 }

theorem cycle_year_start (r : ℕ) :
    daysBeforeYear (cycleYear r) ≤ r ∧ r < daysBeforeYear (cycleYear r+1) := by
  refine ⟨start_block_le _ rfl, lt_start_block_succ ?_⟩
  have hdiv := Nat.div_add_mod r 365
  have hmod := Nat.mod_lt r (show 0 < 365 by omega)
  simp only [daysBeforeYear]
  omega

theorem cycle_year_lt {r : ℕ} (hr : r < cycleDays) : cycleYear r < 400 := by
  by_contra hge
  have hmono := start_le_start (f := daysBeforeYear) (n := cycleYear r)
    (fun y _ => by rw [days_before_year_succ]; omega) (show 400 ≤ cycleYear r by omega) (le_refl _)
  have hfull : daysBeforeYear 400 = cycleDays := rfl
  have := (cycle_year_start r).1
  omega

theorem cycle_month_lt (r : ℕ) : cycleMonth r < 12 :=
  Nat.lt_succ_of_le (block_le _ 11 _)

theorem cycle_month_start (r : ℕ) :
    daysBeforeMonth (isLeap (cycleYear r)) (cycleMonth r) ≤ r-daysBeforeYear (cycleYear r) ∧
    r-daysBeforeYear (cycleYear r) <
      daysBeforeMonth (isLeap (cycleYear r)) (cycleMonth r+1) := by
  have hyear : daysBeforeMonth (isLeap (cycleYear r)) 12 =
      365+if isLeap (cycleYear r) then 1 else 0 := by
    cases isLeap (cycleYear r) <;> rfl
  have hzero : daysBeforeMonth (isLeap (cycleYear r)) 0 = 0 := by
    cases isLeap (cycleYear r) <;> rfl
  refine ⟨start_block_le _ hzero, lt_start_block_succ ?_⟩
  obtain ⟨hlow, hhigh⟩ := cycle_year_start r
  rw [days_before_year_succ] at hhigh
  rw [hyear]
  omega

/-- Days of one cycle compare by year, then month, then day of the month. -/
theorem cycle_day_lt_iff {r s : ℕ} (hr : r < cycleDays) (hs : s < cycleDays) :
    r < s ↔ cycleYear r < cycleYear s ∨ cycleYear r = cycleYear s ∧
      (cycleMonth r < cycleMonth s ∨ cycleMonth r = cycleMonth s ∧
        r-daysBeforeYear (cycleYear r)-daysBeforeMonth (isLeap (cycleYear r)) (cycleMonth r) <
          s-daysBeforeYear (cycleYear s)-daysBeforeMonth (isLeap (cycleYear s)) (cycleMonth s)) := by
  obtain ⟨hrl, hrh⟩ := cycle_year_start r
  obtain ⟨hsl, hsh⟩ := cycle_year_start s
  have hyear := lt_iff_block_lt (f := daysBeforeYear) (n := 400)
    (fun y _ => by rw [days_before_year_succ]; omega) (cycle_year_lt hr) (cycle_year_lt hs)
    hrl hrh hsl hsh
  rw [hyear]
  refine or_congr Iff.rfl (and_congr_right fun heq => ?_)
  obtain ⟨hml, hmh⟩ := cycle_month_start r
  obtain ⟨hnl, hnh⟩ := cycle_month_start s
  rw [heq] at hml hmh ⊢
  exact lt_iff_block_lt (days_before_month_step _) (cycle_month_lt r) (cycle_month_lt s)
    hml hmh hnl hnh

theorem civil_lt_iff (d e : ℤ) :
    d < e ↔ (civil d).year < (civil e).year ∨ (civil d).year = (civil e).year ∧
      ((civil d).month < (civil e).month ∨ (civil d).month = (civil e).month ∧
        (civil d).day < (civil e).day) := by
  have hpos : (0 : ℤ) < cycleDays := by decide
  have hd := Int.emod_nonneg d (Int.ne_of_gt hpos)
  have he := Int.emod_nonneg e (Int.ne_of_gt hpos)
  have hd' := Int.emod_lt_of_pos d hpos
  have he' := Int.emod_lt_of_pos e hpos
  have hdiv := Int.mul_ediv_add_emod d cycleDays
  have hdiv' := Int.mul_ediv_add_emod e cycleDays
  have hcycle := cycle_day_lt_iff (r := (d % cycleDays).toNat) (s := (e % cycleDays).toNat)
    (by omega) (by omega)
  have hy := cycle_year_lt (r := (d % cycleDays).toNat) (by omega)
  have hy' := cycle_year_lt (r := (e % cycleDays).toNat) (by omega)
  have hsplit : d < e ↔ d / cycleDays < e / cycleDays ∨ d / cycleDays = e / cycleDays ∧
      (d % cycleDays).toNat < (e % cycleDays).toNat := by
    have hcast : (cycleDays : ℤ) = 146097 := rfl
    rw [hcast] at *
    omega
  rw [hsplit, hcycle]
  simp only [civil]
  omega

theorem civil_ranges (d : ℤ) :
    1 ≤ (civil d).month ∧ (civil d).month ≤ 12 ∧ 1 ≤ (civil d).day ∧ (civil d).day ≤ 31 := by
  have hm := cycle_month_lt (d % cycleDays).toNat
  have hday := cycle_month_start (d % cycleDays).toNat
  have hwidth : ∀ leap : Bool, ∀ m < 12, daysBeforeMonth leap (m+1) ≤ daysBeforeMonth leap m+31 := by
    decide
  have := hwidth (isLeap (cycleYear (d % cycleDays).toNat)) _ hm
  simp only [civil]
  omega

/-- The day a date names, for years from 0 on. -/
def dayOf (year month day : ℕ) : ℕ :=
  daysBeforeYear year+daysBeforeMonth (isLeap year) (month-1)+(day-1)

theorem days_before_year_cycle (c y : ℕ) :
    daysBeforeYear (400*c+y) = cycleDays*c+daysBeforeYear y := by
  have h4 : (400*c+y+3)/4 = 100*c+(y+3)/4 := by omega
  have h100 : (400*c+y+99)/100 = 4*c+(y+99)/100 := by omega
  have h400 : (400*c+y+399)/400 = c+(y+399)/400 := by omega
  have hle : (y+99)/100 ≤ 365*y+(y+3)/4 := by omega
  simp only [daysBeforeYear, cycleDays, h4, h100, h400]
  omega

theorem is_leap_cycle (c y : ℕ) : isLeap (400*c+y) = isLeap y := by
  have h4 : (400*c+y) % 4 = y % 4 := by omega
  have h100 : (400*c+y) % 100 = y % 100 := by omega
  have h400 : (400*c+y) % 400 = y % 400 := by omega
  simp only [isLeap, h4, h100, h400]

/-- Reading the date of a day back gives the day. -/
theorem day_of_civil {d : ℤ} (hd : 0 ≤ (civil d).year) :
    (dayOf (civil d).year.toNat (civil d).month (civil d).day : ℤ) = d := by
  have hpos : (0 : ℤ) < cycleDays := by decide
  have hmod := Int.emod_nonneg d (Int.ne_of_gt hpos)
  have hmod' := Int.emod_lt_of_pos d hpos
  have hdiv := Int.mul_ediv_add_emod d cycleDays
  have hy := cycle_year_lt (r := (d % cycleDays).toNat) (by omega)
  obtain ⟨hyl, -⟩ := cycle_year_start (d % cycleDays).toNat
  obtain ⟨hml, -⟩ := cycle_month_start (d % cycleDays).toNat
  obtain ⟨c, hc⟩ : ∃ c : ℕ, d / cycleDays = c := by
    apply Int.eq_ofNat_of_zero_le
    simp only [civil] at hd
    omega
  have hyear : (civil d).year.toNat = 400*c+cycleYear (d % cycleDays).toNat := by
    simp only [civil, hc]
    omega
  rw [dayOf, hyear, days_before_year_cycle, is_leap_cycle]
  simp only [civil, Nat.add_sub_cancel]
  rw [hc] at hdiv
  have hcast : ((cycleDays*c : ℕ) : ℤ) = (cycleDays : ℤ)*c := Int.natCast_mul _ _
  omega

example : civil 739000 = ⟨2023, 4, 25⟩ := by decide

end Radar.Calendar
