import Mathlib.Data.Int.LeastGreatest
import Radar.Cron.FieldsRead

/-!
# The gaps between firing times

A day on which a schedule fires is followed by another within a number of days,
which bounds the gaps. A window without firing times, with one before and one
after it, lies in a gap.
-/

set_option autoImplicit false

namespace Radar.Cron

open Radar.Calendar Radar.CyclicGap

/-- What holds before and after a window, and not in it, holds last before it and
first after it. -/
theorem exists_around {P : ℤ → Prop} {a b : ℤ} (hab : a ≤ b)
    (hfree : ∀ v, a ≤ v → v < b → ¬P v) (hbefore : ∃ t < a, P t) (hafter : ∃ u, b ≤ u ∧ P u) :
    ∃ t u, P t ∧ P u ∧ t < a ∧ b ≤ u ∧ ∀ v, t < v → v < u → ¬P v := by
  classical
  obtain ⟨t,⟨hta,ht⟩,hlast⟩ := Int.exists_greatest_of_bdd (P := fun t => t < a ∧ P t)
    ⟨a,fun t h => h.1.le⟩ (by obtain ⟨t,hta,ht⟩ := hbefore; exact ⟨t,hta,ht⟩)
  obtain ⟨u,⟨hbu,hu⟩,hfirst⟩ := Int.exists_least_of_bdd (P := fun u => b ≤ u ∧ P u)
    ⟨b,fun u h => h.1⟩ hafter
  refine ⟨t,u,ht,hu,hta,hbu,fun v htv hvu hv => ?_⟩
  by_cases hva : v < a
  · exact absurd (hlast v ⟨hva,hv⟩) (by omega)
  · by_cases hvb : v < b
    · exact hfree v (by omega) hvb hv
    · exact absurd (hfirst v ⟨by omega,hv⟩) (by omega)

variable {s : Schedule}

section Times

theorem fires_iff {t : ℤ} : s.fires t = true ↔ s.firesOn (t / 1440) = true ∧
    Field.admits 0 23 s.hour (t % 1440 / 60).toNat = true ∧
    Field.admits 0 59 s.minute (t % 60).toNat = true := by
  rw [Schedule.fires, Bool.and_eq_true, Bool.and_eq_true, and_assoc]

/-- On another day the schedule fires at the same time. -/
theorem fires_shift {t e : ℤ} (ht : s.fires t = true) (he : s.firesOn e = true) :
    s.fires (t+(e-t / 1440)*1440) = true := by
  obtain ⟨_,hhour,hminute⟩ := fires_iff.mp ht
  have hday : (t+(e-t / 1440)*1440) / 1440 = e := by omega
  have htime : (t+(e-t / 1440)*1440) % 1440 = t % 1440 := by omega
  have hminutes : (t+(e-t / 1440)*1440) % 60 = t % 60 := by omega
  rw [fires_iff, hday, htime, hminutes]
  exact ⟨he,hhour,hminute⟩

theorem gap_le_of_days {k : ℕ}
    (h : ∀ d, s.firesOn d = true → ∃ e, d < e ∧ e ≤ d+k ∧ s.firesOn e = true) {t u : ℤ}
    (htu : s.Consecutive t u) : u-t ≤ k*1440 := by
  obtain ⟨e,hlt,hle,he⟩ := h (t / 1440) (fires_iff.mp htu.first).1
  have hnext := fires_shift htu.first he
  by_contra hgap
  have hnone := htu.between (t+(e-t / 1440)*1440) (by omega) (by omega)
  exact absurd (hnone.symm.trans hnext) (by decide)

/-- A schedule that fires on a day fires at some time of it. -/
theorem exists_time (hfires : ∃ t, s.fires t = true) {d : ℤ} (hd : s.firesOn d = true) :
    ∃ t, t / 1440 = d ∧ s.fires t = true := by
  obtain ⟨t,ht⟩ := hfires
  exact ⟨t+(d-t / 1440)*1440,by omega,fires_shift ht hd⟩

/-- A window of days without firing lies in a gap. -/
theorem exists_gap (hfires : ∃ t, s.fires t = true) {a b d e : ℤ} (hab : a ≤ b)
    (hfree : ∀ c, a ≤ c → c < b → s.firesOn c = false) (hda : d < a) (hd : s.firesOn d = true)
    (hbe : b ≤ e) (he : s.firesOn e = true) :
    ∃ t u, s.Consecutive t u ∧ (b-a)*1440 < u-t := by
  obtain ⟨t,ht,hfirst⟩ := exists_time hfires hd
  obtain ⟨u,hu,hsecond⟩ := exists_time hfires he
  have hwindow : ∀ v, a*1440 ≤ v → v < b*1440 → ¬s.fires v = true := by
    intro v hav hvb hv
    have hnone := hfree (v / 1440) (by omega) (by omega)
    exact absurd (hnone.symm.trans (fires_iff.mp hv).1) (by decide)
  obtain ⟨t,u,ht,hu,hta,hbu,hbetween⟩ := exists_around (P := fun v => s.fires v = true)
    (show a*1440 ≤ b*1440 by omega) hwindow ⟨t,by omega,hfirst⟩ ⟨u,by omega,hsecond⟩
  refine ⟨t,u,⟨ht,hu,by omega,fun v htv hvu => ?_⟩,by omega⟩
  exact Bool.eq_false_iff.mpr (hbetween v htv hvu)

end Times

section Days

variable {m : ℤ} {x : ℕ}

theorem firesOn_month (hx : x < monthLen m) : s.firesOn (monthStart m+x) =
    (Field.admits 1 12 s.month (monthOf m+1) && s.dayMatches (monthStart m+x)) := by
  rw [Schedule.firesOn, civil_month hx]

theorem anything_admits {lo hi v : ℕ} (hlo : lo ≤ v) (hhi : v ≤ hi) :
    Field.admits lo hi anything v = true := by
  simp [Field.admits, anything, Item.admits, hlo, hhi, Nat.mod_one]

theorem weekday_lt (d : ℤ) : weekday d < 7 := by
  unfold weekday
  omega

/-- Where the days of the month are not restricted, or those of the week are, a
day of the week is enough. -/
theorem dayMatches_of_dow (h : s.dom = anything ∨ s.dow ≠ anything) (hx : x < monthLen m)
    (hdow : s.dowMatches (monthStart m+x) = true) : s.dayMatches (monthStart m+x) = true := by
  unfold Schedule.dayMatches
  split_ifs with hboth
  · rw [hdow, Bool.or_true]
  · have hdom : s.dom = anything := by
      by_contra hdom
      exact hboth ⟨hdom,h.resolve_left hdom⟩
    have hlen := (monthLen_bounds m).2.2
    rw [hdow, hdom, civil_month hx]
    show (Field.admits 1 31 anything (x+1) && true) = true
    rw [anything_admits (by omega) (by omega)]
    rfl

/-- Where the days of the month are restricted, one of them is enough. -/
theorem dayMatches_of_dom (h : s.dom ≠ anything) (hx : x < monthLen m)
    (hdom : Field.admits 1 31 s.dom (x+1) = true) : s.dayMatches (monthStart m+x) = true := by
  unfold Schedule.dayMatches
  rw [civil_month hx]
  split_ifs with hboth
  · rw [hdom, Bool.true_or]
  · have hdow : s.dow = anything := by
      by_contra hdow
      exact hboth ⟨h,hdow⟩
    have hweek := weekday_lt (monthStart m+x)
    rw [hdom, Schedule.dowMatches, hdow, anything_admits (Nat.zero_le _) (by omega)]
    rfl

/-- Where the days of the week are not restricted, a day of the month is needed. -/
theorem dom_of_dayMatches (h : s.dow = anything) (hx : x < monthLen m)
    (hday : s.dayMatches (monthStart m+x) = true) : Field.admits 1 31 s.dom (x+1) = true := by
  unfold Schedule.dayMatches at hday
  rw [civil_month hx, if_neg fun hboth => hboth.2 h, Bool.and_eq_true] at hday
  exact hday.1

/-- Seven days on end hold each day of the week. -/
theorem exists_weekday (hs : s.Standard) (d : ℤ) :
    ∃ y < 7, s.dowMatches (d+(y : ℕ)) = true := by
  obtain ⟨v,hv⟩ := List.exists_mem_of_ne_nil _ (valuesOf_ne_nil hs.dow (by decide))
  obtain ⟨hle,hadmits⟩ := mem_valuesOf.mp hv
  refine ⟨((v-(d+6)) % 7).toNat,by omega,?_⟩
  have hweek : weekday (d+(((v-(d+6)) % 7).toNat : ℕ)) = v % 7 := by
    unfold weekday
    omega
  rw [Schedule.dowMatches, hweek]
  rcases Nat.lt_or_ge v 7 with hlt | hge
  · rw [Nat.mod_eq_of_lt hlt, hadmits, Bool.true_or]
  · obtain rfl : v = 7 := by omega
    rw [hadmits]
    simp

end Days

end Radar.Cron
