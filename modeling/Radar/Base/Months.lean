import Mathlib.Tactic.IntervalCases
import Radar.Base.Calendar

/-!
# Months through the years

Months are counted from January of year 0, in both directions. A day is a day of
one month, and a month starts where the one before it ends.
-/

set_option autoImplicit false

namespace Radar.Calendar

def yearOf (m : ℤ) : ℤ := m / 12

/-- The year's place in its cycle. -/
def placeOf (m : ℤ) : ℕ := (m / 12 % 400).toNat

def monthOf (m : ℤ) : ℕ := (m % 12).toNat

def leapOf (m : ℤ) : Bool := isLeap (placeOf m)

def monthStart (m : ℤ) : ℤ :=
  cycleDays*(m / 12 / 400)+daysBeforeYear (placeOf m)+daysBeforeMonth (leapOf m) (monthOf m)

def monthLen (m : ℤ) : ℕ :=
  daysBeforeMonth (leapOf m) (monthOf m+1)-daysBeforeMonth (leapOf m) (monthOf m)

/-- The days of the month in every year. -/
def commonLen (k : ℕ) : ℕ := daysBeforeMonth false (k+1)-daysBeforeMonth false k

theorem monthOf_lt (m : ℤ) : monthOf m < 12 := by
  unfold monthOf
  omega

theorem placeOf_lt (m : ℤ) : placeOf m < 400 := by
  unfold placeOf
  omega

theorem block_unique {f : ℕ → ℕ} {n b d : ℕ} (hstep : ∀ b < n, f b < f (b+1)) (hb : b ≤ n)
    (hlow : f b ≤ d) (hhigh : d < f (b+1)) : block f n d = b := by
  apply le_antisymm
  · by_contra hlt
    have hblock := Nat.findGreatest_spec (P := fun b => f b ≤ d) hb hlow
    have hmono := start_le_start hstep (Nat.lt_of_not_le hlt) (block_le f n d)
    exact absurd (hmono.trans hblock) (Nat.not_le_of_lt hhigh)
  · exact Nat.le_findGreatest hb hlow

theorem daysBeforeYear_step (y : ℕ) : daysBeforeYear y < daysBeforeYear (y+1) := by
  rw [days_before_year_succ]
  omega

theorem daysBeforeMonth_year (leap : Bool) :
    daysBeforeMonth leap 0 = 0 ∧ daysBeforeMonth leap 12 = 365+if leap then 1 else 0 := by
  cases leap <;> exact ⟨rfl,rfl⟩

theorem daysBeforeMonth_len (m : ℤ) : daysBeforeMonth (leapOf m) (monthOf m)+monthLen m =
    daysBeforeMonth (leapOf m) (monthOf m+1) := by
  have hstep := days_before_month_step (leapOf m) (monthOf m) (monthOf_lt m)
  unfold monthLen
  omega

theorem monthLen_bounds (m : ℤ) :
    commonLen (monthOf m) ≤ monthLen m ∧ 28 ≤ monthLen m ∧ monthLen m ≤ 31 := by
  have hall : ∀ leap : Bool, ∀ k < 12,
      commonLen k ≤ daysBeforeMonth leap (k+1)-daysBeforeMonth leap k ∧
        28 ≤ daysBeforeMonth leap (k+1)-daysBeforeMonth leap k ∧
        daysBeforeMonth leap (k+1)-daysBeforeMonth leap k ≤ 31 := by decide
  exact hall (leapOf m) (monthOf m) (monthOf_lt m)

/-- Only February is longer in a leap year. -/
theorem monthLen_eq (m : ℤ) :
    monthLen m = commonLen (monthOf m) ∨ monthOf m = 1 ∧ leapOf m = true ∧ monthLen m = 29 := by
  have hall : ∀ leap : Bool, ∀ k < 12,
      daysBeforeMonth leap (k+1)-daysBeforeMonth leap k = commonLen k ∨
        k = 1 ∧ leap = true ∧ daysBeforeMonth leap (k+1)-daysBeforeMonth leap k = 29 := by decide
  exact hall (leapOf m) (monthOf m) (monthOf_lt m)

theorem monthStart_succ (m : ℤ) : monthStart (m+1) = monthStart m+monthLen m := by
  have hlen := daysBeforeMonth_len m
  have hmonth := monthOf_lt m
  by_cases hyear : m % 12 = 11
  · have hdiv : (m+1) / 12 = m / 12+1 := by omega
    have hfirst : monthOf (m+1) = 0 := by
      unfold monthOf
      omega
    have hlast : monthOf m+1 = 12 := by
      unfold monthOf
      omega
    have hsucc := days_before_year_succ (placeOf m)
    rw [hlast, (daysBeforeMonth_year (leapOf m)).2] at hlen
    unfold monthStart
    rw [hfirst, (daysBeforeMonth_year (leapOf (m+1))).1, hdiv]
    rw [leapOf] at hlen
    by_cases hcycle : m / 12 % 400 = 399
    · have hplace : placeOf m = 399 := by
        unfold placeOf
        omega
      have hzero : placeOf (m+1) = 0 := by
        unfold placeOf
        omega
      have hdiv' : (m / 12+1) / 400 = m / 12 / 400+1 := by omega
      have hfull : daysBeforeYear (399+1) = 146097 := rfl
      have hstart : daysBeforeYear 0 = 0 := rfl
      rw [hplace] at hsucc hlen
      rw [hzero, hplace, hdiv', hstart]
      simp only [leapOf, hplace]
      rw [hfull] at hsucc
      unfold cycleDays
      omega
    · have hplace : placeOf (m+1) = placeOf m+1 := by
        unfold placeOf
        omega
      have hdiv' : (m / 12+1) / 400 = m / 12 / 400 := by omega
      rw [hplace, hdiv', hsucc]
      simp only [leapOf]
      omega
  · have hdiv : (m+1) / 12 = m / 12 := by omega
    have hplace : placeOf (m+1) = placeOf m := by rw [placeOf, placeOf, hdiv]
    have hnext : monthOf (m+1) = monthOf m+1 := by
      unfold monthOf
      omega
    have hleap : leapOf (m+1) = leapOf m := by rw [leapOf, leapOf, hplace]
    unfold monthStart
    rw [hdiv, hplace, hnext, hleap]
    omega

/-- The date of a day, by its month. -/
theorem civil_month {m : ℤ} {x : ℕ} (hx : x < monthLen m) :
    civil (monthStart m+x) = ⟨yearOf m,monthOf m+1,x+1⟩ := by
  have hlen := daysBeforeMonth_len m
  have hmonth := monthOf_lt m
  have hplace := placeOf_lt m
  obtain ⟨hfirst,hlast⟩ := daysBeforeMonth_year (leapOf m)
  have hinner : daysBeforeMonth (leapOf m) (monthOf m+1) ≤ daysBeforeMonth (leapOf m) 12 :=
    start_le_start (days_before_month_step (leapOf m)) hmonth (le_refl 12)
  have hsucc := days_before_year_succ (placeOf m)
  rw [show isLeap (placeOf m) = leapOf m from rfl] at hsucc
  have hcycle : daysBeforeYear (placeOf m+1) ≤ cycleDays :=
    start_le_start (f := daysBeforeYear) (n := 400) (fun y _ => daysBeforeYear_step y)
      (Nat.succ_le_of_lt hplace) (le_refl 400)
  have hrest : (monthStart m+x) % cycleDays =
      ((daysBeforeYear (placeOf m)+daysBeforeMonth (leapOf m) (monthOf m)+x : ℕ) : ℤ) := by
    unfold monthStart cycleDays at *
    omega
  have hturn : (monthStart m+x) / cycleDays = m / 12 / 400 := by
    unfold monthStart cycleDays at *
    omega
  have hyear : cycleYear (daysBeforeYear (placeOf m)+daysBeforeMonth (leapOf m) (monthOf m)+x) =
      placeOf m := by
    have hplaces : placeOf m ≤
        (daysBeforeYear (placeOf m)+daysBeforeMonth (leapOf m) (monthOf m)+x)/365 := by
      rw [Nat.le_div_iff_mul_le (by omega)]
      unfold daysBeforeYear
      omega
    exact block_unique (fun y _ => daysBeforeYear_step y) hplaces (by omega) (by omega)
  have hrest' : daysBeforeYear (placeOf m)+daysBeforeMonth (leapOf m) (monthOf m)+x-
      daysBeforeYear (placeOf m) = daysBeforeMonth (leapOf m) (monthOf m)+x := by omega
  have hmonthEq : cycleMonth (daysBeforeYear (placeOf m)+daysBeforeMonth (leapOf m) (monthOf m)+x) =
      monthOf m := by
    unfold cycleMonth
    rw [hyear, hrest']
    have hstep : ∀ k < 11, daysBeforeMonth (leapOf m) k < daysBeforeMonth (leapOf m) (k+1) :=
      fun k hk => days_before_month_step (leapOf m) k (by omega)
    have hlow : daysBeforeMonth (leapOf m) (monthOf m) ≤
        daysBeforeMonth (leapOf m) (monthOf m)+x := Nat.le_add_right _ _
    have hhigh : daysBeforeMonth (leapOf m) (monthOf m)+x <
        daysBeforeMonth (leapOf m) (monthOf m+1) := by omega
    exact block_unique hstep (by omega) hlow hhigh
  unfold civil
  rw [hrest, hturn]
  simp only [Int.toNat_natCast, hyear, hmonthEq, hrest']
  rw [show isLeap (placeOf m) = leapOf m from rfl, Nat.add_sub_cancel_left]
  congr 1
  unfold yearOf placeOf
  omega

/-- The parts of a month that is given by them. -/
theorem month_parts (q : ℤ) {y k : ℕ} (hy : y < 400) (hk : k < 12) :
    (12*(400*q+y)+k) / 12 / 400 = q ∧ placeOf (12*(400*q+y)+k) = y ∧
      monthOf (12*(400*q+y)+k) = k := by
  unfold placeOf monthOf
  omega

theorem exists_month (d : ℤ) : ∃ m, ∃ x < monthLen m, d = monthStart m+x := by
  have hpos : (0 : ℤ) < cycleDays := by decide
  have hmod := Int.emod_nonneg d (Int.ne_of_gt hpos)
  have hmod' := Int.emod_lt_of_pos d hpos
  have hdiv := Int.mul_ediv_add_emod d cycleDays
  have hyear := cycle_year_lt (r := (d % cycleDays).toNat) (by omega)
  have hmonth := cycle_month_lt (d % cycleDays).toNat
  obtain ⟨hyl,_⟩ := cycle_year_start (d % cycleDays).toNat
  obtain ⟨hml,hmh⟩ := cycle_month_start (d % cycleDays).toNat
  obtain ⟨hturn,hplace,hin⟩ := month_parts (d / cycleDays) hyear hmonth
  have hlen := daysBeforeMonth_len
    (12*(400*(d / cycleDays)+cycleYear (d % cycleDays).toNat)+cycleMonth (d % cycleDays).toNat)
  refine ⟨12*(400*(d / cycleDays)+cycleYear (d % cycleDays).toNat)+
    cycleMonth (d % cycleDays).toNat,(d % cycleDays).toNat-
      daysBeforeYear (cycleYear (d % cycleDays).toNat)-
      daysBeforeMonth (isLeap (cycleYear (d % cycleDays).toNat))
        (cycleMonth (d % cycleDays).toNat),?_,?_⟩
  · rw [leapOf, hplace, hin] at hlen
    omega
  · rw [monthStart, leapOf, hplace, hin, hturn]
    omega

/-- Runs of whole months, in days. -/
theorem monthStart_add_le (m : ℤ) (n : ℕ) : monthStart (m+n) ≤ monthStart m+31*n := by
  induction n with
  | zero => simp
  | succ n ih =>
    have hstep := monthStart_succ (m+n)
    have hlen := (monthLen_bounds (m+n)).2.2
    rw [Nat.cast_succ, ← Int.add_assoc, hstep]
    omega

theorem monthStart_mono {m k : ℤ} (h : m < k) : monthStart m+28 ≤ monthStart k := by
  obtain ⟨n,rfl⟩ : ∃ n : ℕ, k = m+1+n := ⟨(k-m-1).toNat,by omega⟩
  induction n with
  | zero =>
    have hstep := monthStart_succ m
    have hlen := (monthLen_bounds m).2.1
    rw [Nat.cast_zero, Int.add_zero]
    omega
  | succ n ih =>
    have hstep := monthStart_succ (m+1+n)
    have hnext := ih (by omega)
    rw [Nat.cast_succ, ← Int.add_assoc]
    omega

/-- A day is in no month before one that starts no later. -/
theorem month_le {p m : ℤ} {x : ℕ} (hx : x < monthLen m) (h : monthStart p ≤ monthStart m+x) :
    p ≤ m := by
  by_contra hlt
  have hstep := monthStart_succ m
  rcases Int.lt_or_eq_of_le (show m+1 ≤ p by omega) with hnext | rfl
  · have := monthStart_mono hnext
    omega
  · omega

/-- A day is in a month before one that starts later. -/
theorem month_lt {p m : ℤ} {x : ℕ} (h : monthStart m+x < monthStart p) : m < p := by
  by_contra hle
  rcases Int.lt_or_eq_of_le (show p ≤ m by omega) with hlt | rfl
  · have := monthStart_mono hlt
    omega
  · omega

end Radar.Calendar
