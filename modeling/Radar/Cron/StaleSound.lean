import Radar.Cron.Gaps

/-!
# The threshold against the gaps of a schedule

The threshold of a schedule is at least its longest gap, but for one kind of
schedule: listed months, and days of the month that some of them lack.
-/

set_option autoImplicit false

namespace Radar.Cron

open Radar.Calendar Radar.CyclicGap

/-- The widest gap between months, in months. -/
def cycleGap (months : List ℕ) : ℕ :=
  if h : months = [] then 0 else widest (12-months.getLast h+months.head h) months

namespace Schedule

def months (s : Schedule) : List ℕ := valuesOf 1 12 s.month

/-- The first day of the month on which the schedule can fire. -/
def firstDay (s : Schedule) : ℕ := (valuesOf 1 31 s.dom).headD 0

/-- The listed months that have the first day in every year. -/
def lasting (s : Schedule) : List ℕ := s.months.filter fun k => s.firstDay ≤ commonLen (k-1)

/-- Months and days of the month are restricted, days of the week are not, and
the months that have the first day in every year are more than half again as far
apart as the listed ones; a single month does not have it in every year. -/
def Sparse (s : Schedule) : Prop :=
  s.month ≠ anything ∧ s.dom ≠ anything ∧ s.dow = anything ∧
    if s.months.length = 1 then s.lasting = [] else 3*cycleGap s.months < 2*cycleGap s.lasting

instance (s : Schedule) : Decidable s.Sparse := by
  unfold Sparse
  infer_instance

end Schedule

section Months

variable {l : List ℕ} (hl : l.Pairwise (· < ·)) (hne : l ≠ []) (hin : ∀ k ∈ l, 1 ≤ k ∧ k ≤ 12)

theorem valuesOf_sorted (lo hi : ℕ) (f : Field) : (valuesOf lo hi f).Pairwise (· < ·) :=
  List.pairwise_lt_range.filter _

theorem item_low {item : Item} {lo hi v : ℕ} (hwithin : item.Within lo hi)
    (hadmits : item.admits lo hi v = true) : lo ≤ v := by
  cases item with
  | star step =>
    simp only [Item.admits, Bool.and_eq_true, decide_eq_true_eq] at hadmits
    exact hadmits.1.1
  | value n =>
    rw [of_decide_eq_true hadmits]
    exact hwithin.1
  | range first last step =>
    simp only [Item.admits, Bool.and_eq_true, decide_eq_true_eq] at hadmits
    exact hwithin.1.trans hadmits.1.1

theorem admits_low {f : Field} {lo hi v : ℕ} (hwithin : Field.Within lo hi f)
    (hadmits : f.admits lo hi v = true) : lo ≤ v := by
  obtain ⟨item,hitem,hv⟩ := List.any_eq_true.mp hadmits
  exact item_low (hwithin.2 item hitem) hv

theorem valuesOf_bounds {f : Field} {lo hi v : ℕ} (hwithin : Field.Within lo hi f)
    (hv : v ∈ valuesOf lo hi f) : lo ≤ v ∧ v ≤ hi := by
  obtain ⟨hhi,hadmits⟩ := mem_valuesOf.mp hv
  exact ⟨admits_low hwithin hadmits,hhi⟩

theorem cycleGap_pos {l : List ℕ} (hne : l ≠ []) (hin : ∀ k ∈ l, 1 ≤ k ∧ k ≤ 12) :
    1 ≤ cycleGap l := by
  have hhead := hin _ (List.head_mem hne)
  have hwrap := wrap_le_fold (l.zip l.tail) (12-l.getLast hne+l.head hne)
  rw [cycleGap, dif_neg hne]
  rw [← widest] at hwrap
  omega

include hl hne hin

/-- From any month the next of the list is within the widest gap. -/
theorem month_next (m : ℤ) : ∃ k : ℕ, 1 ≤ k ∧ k ≤ cycleGap l ∧ monthOf (m+k)+1 ∈ l := by
  have hmonth := monthOf_lt m
  rw [cycleGap, dif_neg hne]
  obtain ⟨r,hr,hlt,hle⟩ | ⟨hall,hwrap⟩ := next_within hl (n := 12) hne (monthOf m+1)
  · have hbound := (hin r hr).2
    refine ⟨r-(monthOf m+1),by omega,by omega,?_⟩
    have hplace : monthOf (m+(r-(monthOf m+1) : ℕ))+1 = r := by
      unfold monthOf at *
      omega
    rwa [hplace]
  · have hhead := List.head_mem hne
    have hbound := hin _ hhead
    have hbefore := hall _ hhead
    refine ⟨12+l.head hne-(monthOf m+1),by omega,by omega,?_⟩
    have hplace : monthOf (m+(12+l.head hne-(monthOf m+1) : ℕ))+1 = l.head hne := by
      unfold monthOf at *
      omega
    rwa [hplace]

/-- After some month of the list the next is as far as the widest gap. -/
theorem month_gap : ∃ a < 12, a+1 ∈ l ∧ 1 ≤ cycleGap l ∧ cycleGap l ≤ 12 ∧
    (a+cycleGap l) % 12+1 ∈ l ∧ ∀ j, 1 ≤ j → j < cycleGap l → (a+j) % 12+1 ∉ l := by
  have hlast := hin _ (List.getLast_mem hne)
  have hhead := hin _ (List.head_mem hne)
  rw [cycleGap, dif_neg hne]
  obtain ⟨a,ha,b,hb,hlt,hnone,hgap⟩ | hgap := widest_attained hl (n := 12) hne
  · have habound := hin a ha
    have hbbound := hin b hb
    rw [hgap]
    refine ⟨a-1,by omega,?_,by omega,by omega,?_,fun j hj hjlt hmem => ?_⟩
    · rwa [Nat.sub_add_cancel habound.1]
    · have hplace : (a-1+(b-a)) % 12+1 = b := by omega
      rwa [hplace]
    · rcases hnone _ hmem with h | h
      · omega
      · omega
  · have hspan := head_le hl hne (List.getLast_mem hne)
    rw [hgap]
    refine ⟨l.getLast hne-1,by omega,?_,by omega,by omega,?_,fun j hj hjlt hmem => ?_⟩
    · rw [Nat.sub_add_cancel hlast.1]
      exact List.getLast_mem hne
    · have hplace : (l.getLast hne-1+(12-l.getLast hne+l.head hne)) % 12+1 = l.head hne := by omega
      rw [hplace]
      exact List.head_mem hne
    · have hafter := le_getLast hl hne hmem
      have hbefore := head_le hl hne hmem
      omega

end Months

section Days

variable {s : Schedule}

/-- The next day is found in the next month of a list, not much later in the
month than the last one was. -/
theorem next_by_month {l : List ℕ} (hl : l.Pairwise (· < ·)) (hne : l ≠ [])
    (hin : ∀ k ∈ l, 1 ≤ k ∧ k ≤ 12) {c : ℕ}
    (hstep : ∀ m x, x < monthLen m → s.firesOn (monthStart m+x) = true → ∀ n, monthOf n+1 ∈ l →
      ∃ y < monthLen n, y ≤ x+c ∧ s.firesOn (monthStart n+y) = true) {d : ℤ}
    (hd : s.firesOn d = true) :
    ∃ e, d < e ∧ e ≤ d+(31*cycleGap l+c : ℕ) ∧ s.firesOn e = true := by
  obtain ⟨m,x,hx,rfl⟩ := exists_month d
  obtain ⟨k,hone,hgap,hmem⟩ := month_next hl hne hin m
  obtain ⟨y,hy,hyx,hfires⟩ := hstep m x hx hd (m+k) hmem
  have hnext := monthStart_succ m
  have hspan := monthStart_add_le m k
  have hafter : monthStart (m+1) ≤ monthStart (m+k) := by
    rcases Nat.eq_or_lt_of_le hone with rfl | hlt
    · exact le_refl _
    · have := monthStart_mono (show m+1 < m+k by omega)
      omega
  exact ⟨monthStart (m+k)+y,by omega,by omega,hfires⟩

theorem mem_months {m : ℤ} {x : ℕ} (hx : x < monthLen m)
    (hfires : s.firesOn (monthStart m+x) = true) :
    monthOf m+1 ∈ s.months ∧ s.dayMatches (monthStart m+x) = true := by
  rw [firesOn_month hx, Bool.and_eq_true] at hfires
  have hmonth := monthOf_lt m
  exact ⟨mem_valuesOf.mpr ⟨by omega,hfires.1⟩,hfires.2⟩

theorem firesOn_of_month {m : ℤ} {x : ℕ} (hx : x < monthLen m) (hm : monthOf m+1 ∈ s.months)
    (hday : s.dayMatches (monthStart m+x) = true) : s.firesOn (monthStart m+x) = true := by
  rw [firesOn_month hx, (mem_valuesOf.mp hm).2, hday]
  rfl

theorem mem_lasting {m : ℤ} (hm : monthOf m+1 ∈ s.lasting) :
    monthOf m+1 ∈ s.months ∧ s.firstDay ≤ monthLen m := by
  obtain ⟨hmonth,hlen⟩ := List.mem_filter.mp hm
  rw [decide_eq_true_iff, Nat.add_sub_cancel] at hlen
  exact ⟨hmonth,hlen.trans (monthLen_bounds m).1⟩

variable (hs : s.Standard)

include hs

theorem months_bounds {k : ℕ} (hk : k ∈ s.months) : 1 ≤ k ∧ k ≤ 12 := valuesOf_bounds hs.month hk

theorem months_ne_nil : s.months ≠ [] := valuesOf_ne_nil hs.month (by decide)

theorem firstDay_mem : s.firstDay ∈ valuesOf 1 31 s.dom := by
  have hne := valuesOf_ne_nil hs.dom (by decide)
  rw [Schedule.firstDay, List.headD_eq_head?_getD, List.head?_eq_some_head hne]
  exact List.head_mem hne

theorem firstDay_le {v : ℕ} (hv : v ∈ valuesOf 1 31 s.dom) : s.firstDay ≤ v := by
  have hne := valuesOf_ne_nil hs.dom (by decide)
  rw [Schedule.firstDay, List.headD_eq_head?_getD, List.head?_eq_some_head hne]
  exact head_le (valuesOf_sorted 1 31 s.dom) hne hv

/-- A day of the week is enough: it is one of the first seven of the month. -/
theorem next_by_week (h : s.dom = anything ∨ s.dow ≠ anything) {d : ℤ}
    (hd : s.firesOn d = true) :
    ∃ e, d < e ∧ e ≤ d+(31*cycleGap s.months+6 : ℕ) ∧ s.firesOn e = true := by
  refine next_by_month (valuesOf_sorted 1 12 s.month) (months_ne_nil hs)
    (fun k hk => months_bounds hs hk) (fun m x hx hfires n hn => ?_) hd
  obtain ⟨y,hy,hdow⟩ := exists_weekday hs (monthStart n)
  have hlen := (monthLen_bounds n).2.1
  have hyn : y < monthLen n := by omega
  exact ⟨y,hyn,by omega,firesOn_of_month hyn hn (dayMatches_of_dow h hyn hdow)⟩

/-- The first day is on time in a month that has it. -/
theorem firesOn_firstDay (hdom : s.dom ≠ anything) {n : ℤ} (hn : monthOf n+1 ∈ s.months)
    (hlen : s.firstDay ≤ monthLen n) :
    s.firstDay-1 < monthLen n ∧ s.firesOn (monthStart n+(s.firstDay-1 : ℕ)) = true := by
  have hfirst := firstDay_mem hs
  have hone := (valuesOf_bounds hs.dom hfirst).1
  have hlt : s.firstDay-1 < monthLen n := by omega
  refine ⟨hlt,firesOn_of_month hlt hn (dayMatches_of_dom hdom hlt ?_)⟩
  rw [Nat.sub_add_cancel hone]
  exact (mem_valuesOf.mp hfirst).2

theorem firstDay_le_of_fires (hdow : s.dow = anything) {m : ℤ} {x : ℕ} (hx : x < monthLen m)
    (hfires : s.firesOn (monthStart m+x) = true) : s.firstDay ≤ x+1 := by
  have hday := dom_of_dayMatches hdow hx (mem_months hx hfires).2
  have hlen := (monthLen_bounds m).2.2
  exact firstDay_le hs (mem_valuesOf.mpr ⟨by omega,hday⟩)

theorem next_by_first (hdom : s.dom ≠ anything) (hdow : s.dow = anything) (hne : s.lasting ≠ [])
    {d : ℤ} (hd : s.firesOn d = true) :
    ∃ e, d < e ∧ e ≤ d+(31*cycleGap s.lasting+0 : ℕ) ∧ s.firesOn e = true := by
  refine next_by_month ((valuesOf_sorted 1 12 s.month).filter _) hne
    (fun k hk => months_bounds hs (List.mem_filter.mp hk).1) (fun m x hx hfires n hn => ?_) hd
  obtain ⟨hmonth,hlen⟩ := mem_lasting hn
  obtain ⟨hlt,hnext⟩ := firesOn_firstDay hs hdom hmonth hlen
  have hfirst := firstDay_le_of_fires hs hdow hx hfires
  exact ⟨s.firstDay-1,hlt,by omega,hnext⟩

/-- Without a month that has the first day in every year, the schedule fires on
February 29 only. -/
theorem fires_leap (hdow : s.dow = anything) (hnone : s.lasting = []) {m : ℤ} {x : ℕ}
    (hx : x < monthLen m) (hfires : s.firesOn (monthStart m+x) = true) :
    monthOf m = 1 ∧ leapOf m = true ∧ s.firstDay = 29 ∧ x = 28 := by
  have hmonth := (mem_months hx hfires).1
  have hfirst := firstDay_le_of_fires hs hdow hx hfires
  have hshort : commonLen (monthOf m) < s.firstDay := by
    by_contra hlong
    have hmem : monthOf m+1 ∈ s.lasting := by
      refine List.mem_filter.mpr ⟨hmonth,decide_eq_true ?_⟩
      rw [Nat.add_sub_cancel]
      omega
    rw [hnone] at hmem
    nomatch hmem
  rcases monthLen_eq m with hlen | ⟨hfeb,hleap,hlen⟩
  · omega
  · have hcommon : commonLen 1 = 28 := rfl
    rw [hfeb, hcommon] at hshort
    exact ⟨hfeb,hleap,by omega,by omega⟩

omit hs in
theorem month_any (h : s.month = anything) (m : ℤ) : monthOf m+1 ∈ s.months := by
  have hmonth := monthOf_lt m
  rw [Schedule.months, h]
  exact mem_valuesOf.mpr ⟨by omega,anything_admits (by omega) (by omega)⟩

/-- From any day of any month the next reliable day is within the widest gap. -/
theorem next_reliable (hmonth : s.month = anything) (hdom : s.dom ≠ anything)
    (hne : (valuesOf 1 31 s.dom).filter (· ≤ 28) ≠ []) (d : ℤ) :
    ∃ e, d < e ∧ e ≤ d+widest (31-((valuesOf 1 31 s.dom).filter (· ≤ 28)).getLast hne+
        ((valuesOf 1 31 s.dom).filter (· ≤ 28)).head hne)
      ((valuesOf 1 31 s.dom).filter (· ≤ 28)) ∧ s.firesOn e = true := by
  have hsorted := (valuesOf_sorted 1 31 s.dom).filter (· ≤ 28)
  have hfires {r : ℕ} (hr : r ∈ (valuesOf 1 31 s.dom).filter (· ≤ 28)) (n : ℤ) :
      1 ≤ r ∧ s.firesOn (monthStart n+(r-1 : ℕ)) = true := by
    obtain ⟨hmem,hle⟩ := List.mem_filter.mp hr
    have hone := (valuesOf_bounds hs.dom hmem).1
    have hlen := (monthLen_bounds n).2.1
    have hshort : r ≤ 28 := of_decide_eq_true hle
    have hlt : r-1 < monthLen n := by omega
    refine ⟨hone,firesOn_of_month hlt (month_any hmonth n) (dayMatches_of_dom hdom hlt ?_)⟩
    rw [Nat.sub_add_cancel hone]
    exact (mem_valuesOf.mp hmem).2
  obtain ⟨m,x,hx,rfl⟩ := exists_month d
  have hlen := (monthLen_bounds m).2.2
  have hstep := monthStart_succ m
  obtain ⟨r,hr,hlt,hle⟩ | ⟨_,hwrap⟩ := next_within hsorted (n := 31) hne (x+1)
  · obtain ⟨hone,hnext⟩ := hfires hr m
    exact ⟨monthStart m+(r-1 : ℕ),by omega,by omega,hnext⟩
  · obtain ⟨hone,hnext⟩ := hfires (List.head_mem hne) (m+1)
    exact ⟨_,by omega,by omega,hnext⟩

/-- The months with 31 days are at most two months apart. -/
theorem next_long (hmonth : s.month = anything) (hdom : s.dom ≠ anything)
    (hdow : s.dow = anything) {d : ℤ} (hd : s.firesOn d = true) :
    ∃ e, d < e ∧ e ≤ d+(62 : ℕ) ∧ s.firesOn e = true := by
  have hlong : ∀ k ∈ [1,3,5,7,8,10,12], 1 ≤ k ∧ k ≤ 12 ∧ commonLen (k-1) = 31 := by decide
  refine next_by_month (l := [1,3,5,7,8,10,12]) (c := 0) (by decide) (by decide)
    (fun k hk => ⟨(hlong k hk).1,(hlong k hk).2.1⟩) (fun m x hx hfires n hn => ?_) hd
  have hbound := (valuesOf_bounds hs.dom (firstDay_mem hs)).2
  have hn := (hlong _ hn).2.2
  rw [Nat.add_sub_cancel] at hn
  have hlen := (monthLen_bounds n).1
  obtain ⟨hlt,hnext⟩ := firesOn_firstDay hs hdom (month_any hmonth n) (by omega)
  have hfirst := firstDay_le_of_fires hs hdow hx hfires
  exact ⟨s.firstDay-1,hlt,by omega,hnext⟩

theorem next_weekday (hmonth : s.month = anything) (h : s.dom = anything ∨ s.dow ≠ anything)
    (d : ℤ) : ∃ e, d < e ∧ e ≤ d+(7 : ℕ) ∧ s.firesOn e = true := by
  obtain ⟨y,hy,hdow⟩ := exists_weekday hs (d+1)
  obtain ⟨m,x,hx,heq⟩ := exists_month (d+1+y)
  rw [heq] at hdow
  refine ⟨d+1+y,by omega,by omega,?_⟩
  rw [heq]
  exact firesOn_of_month hx (month_any hmonth m) (dayMatches_of_dow h hx hdow)

omit hs in
theorem next_day (hmonth : s.month = anything) (hdom : s.dom = anything) (hdow : s.dow = anything)
    (d : ℤ) : ∃ e, d < e ∧ e ≤ d+(1 : ℕ) ∧ s.firesOn e = true := by
  obtain ⟨m,x,hx,heq⟩ := exists_month (d+1)
  refine ⟨d+1,by omega,le_refl _,?_⟩
  have hweek := weekday_lt (d+1)
  rw [heq] at hweek ⊢
  refine firesOn_of_month hx (month_any hmonth m) (dayMatches_of_dow (.inl hdom) hx ?_)
  rw [Schedule.dowMatches, hdow, anything_admits (Nat.zero_le _) (by omega)]
  rfl

end Days

section Window

/-- Years 2001 and 2002 have no leap day. -/
theorem not_leap {m : ℤ} (hlow : 24012 ≤ m) (hhigh : m < 24036) (hfeb : monthOf m = 1) :
    leapOf m = false := by
  have hm : m = 24013 ∨ m = 24025 := by
    unfold monthOf at hfeb
    omega
  rcases hm with rfl | rfl <;> rfl

/-- The months between one of 2001 and one within a year are not short on average. -/
theorem span_long : ∀ a : ℕ, a < 12 → ∀ w : ℕ, w < 13 → 2 ≤ w →
    62*(w : ℤ) < 87+2*(monthStart (24012+a+w)-monthStart (24012+a+1)) := by
  decide +kernel

variable {s : Schedule} (hs : s.Standard) (hfires : ∃ t, s.fires t = true)

include hs hfires

/-- A schedule of leap days does not fire in 2001 and 2002. -/
theorem leap_gap (hmonth : s.months.length = 1) (hdom : s.dom ≠ anything)
    (hdow : s.dow = anything) (hnone : s.lasting = []) :
    ∃ t u, s.Consecutive t u ∧ 788400 < u-t := by
  have hleap {m : ℤ} {x : ℕ} (hx : x < monthLen m) (hon : s.firesOn (monthStart m+x) = true) :=
    fires_leap hs hdow hnone hx hon
  obtain ⟨t,ht⟩ := hfires
  obtain ⟨m,x,hx,heq⟩ := exists_month (t / 1440)
  have hon := (fires_iff.mp ht).1
  rw [heq] at hon
  obtain ⟨hfeb,_,hfirst,_⟩ := hleap hx hon
  have hin := (mem_months hx hon).1
  rw [hfeb] at hin
  have hday {n : ℤ} (hn : monthOf n = 1) (hlen : 29 ≤ monthLen n) :
      s.firesOn (monthStart n+(28 : ℕ)) = true := by
    have hnext := (firesOn_firstDay hs hdom (n := n) (by rw [hn]; exact hin) (by omega)).2
    rwa [hfirst] at hnext
  have hbefore := hday (n := 24001) rfl (by decide)
  have hafter := hday (n := 24049) rfl (by decide)
  have hspan : monthStart 24001+28 < monthStart 24012 ∧
      monthStart 24036-monthStart 24012 = 730 ∧ monthStart 24036 ≤ monthStart 24049+28 := by decide
  have hfree : ∀ c, monthStart 24012 ≤ c → c < monthStart 24036 → s.firesOn c = false := by
    intro c hlow hhigh
    obtain ⟨m,x,hx,rfl⟩ := exists_month c
    rw [Bool.eq_false_iff]
    intro hon
    obtain ⟨hfeb,hyear,_,_⟩ := hleap hx hon
    have hnot := not_leap (month_le hx hlow) (month_lt hhigh) hfeb
    exact absurd (hnot.symm.trans hyear) (by decide)
  obtain ⟨t,u,htu,hgap⟩ := exists_gap ⟨t,ht⟩ (by omega) hfree hspan.1 hbefore hspan.2.2 hafter
  exact ⟨t,u,htu,by omega⟩

/-- Between two months of the widest gap the schedule does not fire. -/
theorem months_gap (hdom : s.dom ≠ anything) (hdow : s.dow = anything)
    (hwide : 3*cycleGap s.months < 2*cycleGap s.lasting) :
    ∃ t u, s.Consecutive t u ∧ cycleGap s.months*66960 < u-t := by
  have hlasting : s.lasting ≠ [] := by
    intro hnone
    rw [hnone] at hwide
    nomatch hwide
  have hlate : 29 ≤ s.firstDay := by
    by_contra hearly
    have hall : s.lasting = s.months := by
      apply List.filter_eq_self.mpr
      intro k hk
      have hbounds := months_bounds hs hk
      have hlen : ∀ k, 1 ≤ k → k ≤ 12 → 28 ≤ commonLen (k-1) := by decide
      have := hlen k hbounds.1 hbounds.2
      exact decide_eq_true (by omega)
    rw [hall] at hwide
    omega
  obtain ⟨a,ha,hmem,hone,hle,hnext,hnone⟩ := month_gap ((valuesOf_sorted 1 12 s.month).filter _)
    hlasting fun k hk => months_bounds hs (List.mem_filter.mp hk).1
  rw [← Schedule.months, ← Schedule.lasting] at hmem hone hle hnext hnone
  have hpos := cycleGap_pos (months_ne_nil hs) fun k hk => months_bounds hs hk
  have hplace (j : ℕ) : monthOf (24012+a+j) = (a+j) % 12 := by
    unfold monthOf
    omega
  have hfirst {n : ℤ} (hn : monthOf n+1 ∈ s.lasting) :
      s.firesOn (monthStart n+(s.firstDay-1 : ℕ)) = true :=
    (firesOn_firstDay hs hdom (mem_lasting hn).1 (mem_lasting hn).2).2
  have hbefore : s.firesOn (monthStart (24012+a)+(s.firstDay-1 : ℕ)) = true := by
    refine hfirst ?_
    have hzero := hplace 0
    rw [Nat.cast_zero, Int.add_zero, Nat.add_zero, Nat.mod_eq_of_lt ha] at hzero
    rwa [hzero]
  have hafter : s.firesOn (monthStart (24012+a+cycleGap s.lasting)+(s.firstDay-1 : ℕ)) = true := by
    refine hfirst ?_
    rwa [hplace]
  have hstep := monthStart_succ (24012+a)
  have hspan := span_long a ha (cycleGap s.lasting) (by omega) (by omega)
  have hshort : s.firstDay ≤ monthLen (24012+a) := by
    refine (mem_lasting ?_).2
    have hzero := hplace 0
    rw [Nat.cast_zero, Int.add_zero, Nat.add_zero, Nat.mod_eq_of_lt ha] at hzero
    rwa [hzero]
  have hfree : ∀ c, monthStart (24012+a+1) ≤ c →
      c < monthStart (24012+a+cycleGap s.lasting)+28 → s.firesOn c = false := by
    intro c hlow hhigh
    obtain ⟨m,x,hx,rfl⟩ := exists_month c
    rw [Bool.eq_false_iff]
    intro hon
    have hday := firstDay_le_of_fires hs hdow hx hon
    have hin := (mem_months hx hon).1
    have hmlow := month_le hx hlow
    have hmhigh : m < 24012+a+cycleGap s.lasting := by
      have hend := monthStart_mono (Int.lt_succ (24012+a+cycleGap s.lasting))
      have hlt : m < 24012+a+cycleGap s.lasting+1 := month_lt (x := x) (by omega)
      rcases Int.lt_or_eq_of_le (Int.le_of_lt_add_one hlt) with hlt | rfl
      · exact hlt
      · omega
    have hm : monthOf m+1 ∉ s.lasting := by
      have hskip := hnone (m-(24012+a)).toNat (by omega) (by omega)
      rwa [← hplace, show (24012+a+((m-(24012+a)).toNat : ℕ) : ℤ) = m by omega] at hskip
    have hlacks : commonLen (monthOf m) < s.firstDay := by
      by_contra hlong
      refine hm (List.mem_filter.mpr ⟨hin,decide_eq_true ?_⟩)
      rw [Nat.add_sub_cancel]
      omega
    rcases monthLen_eq m with hlen | ⟨hfeb,hyear,_⟩
    · omega
    · have hnot := not_leap (by omega) (by omega) hfeb
      exact absurd (hnot.symm.trans hyear) (by decide)
  obtain ⟨t,u,htu,hgap⟩ := exists_gap hfires (by omega) hfree (by omega) hbefore (by omega) hafter
  exact ⟨t,u,htu,by omega⟩

end Window

section Thresholds

variable {s : Schedule} {text : Text} (hs : s.Standard) (htext : s.Spelled text)

include hs

theorem monthEstimate_eq (h : s.months.length ≠ 1) :
    monthEstimate s.months (months_ne_nil hs) = cycleGap s.months*31*day := by
  have hne := months_ne_nil hs
  have hlast := months_bounds hs (List.getLast_mem hne)
  have hwrap : s.months.head hne+12-s.months.getLast hne =
      12-s.months.getLast hne+s.months.head hne := by omega
  rw [monthEstimate, if_neg h, cycleGap, dif_neg hne, hwrap]

/-- Of several months one is not February. -/
theorem exists_other (h : s.months.length ≠ 1) : ∃ k ∈ s.months, k ≠ 2 := by
  by_contra hall
  have htwo : ∀ k ∈ s.months, k = 2 := fun k hk => by_contra fun hne => hall ⟨k,hk,hne⟩
  have hsorted := valuesOf_sorted 1 12 s.month
  have hpos := List.length_pos_iff.mpr (months_ne_nil hs)
  rw [← Schedule.months, List.eq_replicate_of_mem htwo, List.pairwise_replicate] at hsorted
  omega

include htext

theorem threshold_month (hmonth : s.month ≠ anything) : staleThreshold text =
    if s.months.length = 1 then 788400 else cycleGap s.months*66960 := by
  obtain ⟨rest,hinterval⟩ := minInterval_spelled hs htext
  rw [if_pos hmonth] at hinterval
  have hpos := cycleGap_pos (months_ne_nil hs) fun k hk => months_bounds hs hk
  by_cases hone : s.months.length = 1
  · have hestimate : monthEstimate s.months (months_ne_nil hs) = 365*day := if_pos hone
    rw [staleThreshold_eq (hinterval.trans (congrArg some hestimate)) (by decide), if_pos hone]
    rfl
  · have hestimate := monthEstimate_eq hs hone
    rw [staleThreshold_eq (hinterval.trans (congrArg some hestimate))
      (by simp only [day, hour]; omega), if_neg hone]
    simp only [day, hour]
    omega

theorem threshold_dom (hmonth : s.month = anything) (hdom : s.dom ≠ anything) :
    domEstimate (valuesOf 1 31 s.dom) ≤ staleThreshold text := by
  obtain ⟨rest,hinterval⟩ := minInterval_spelled hs htext
  rw [if_neg (not_not.mpr hmonth), if_pos hdom] at hinterval
  simp only [staleThreshold, hinterval]
  split_ifs with h <;> omega

theorem threshold_dow (hmonth : s.month = anything) (hdom : s.dom = anything)
    (hdow : s.dow ≠ anything) : 7*day ≤ staleThreshold text := by
  obtain ⟨rest,hinterval⟩ := minInterval_spelled hs htext
  rw [if_neg (not_not.mpr hmonth), if_neg (not_not.mpr hdom), if_pos hdow] at hinterval
  rw [staleThreshold_eq hinterval (by decide)]
  exact Nat.le_add_right _ _

/-- Without restricted months the threshold is at least every gap. -/
theorem gap_le_of_any_month (hmonth : s.month = anything) {t u : ℤ} (htu : s.Consecutive t u) :
    u-t ≤ staleThreshold text := by
  by_cases hdom : s.dom = anything
  · by_cases hdow : s.dow = anything
    · have hgap := gap_le_of_days (fun d _ => next_day hmonth hdom hdow d) htu
      have hthreshold := day_le_staleThreshold text
      simp only [day, hour] at hthreshold
      omega
    · have hgap := gap_le_of_days (fun d _ => next_weekday hs hmonth (.inl hdom) d) htu
      have hthreshold := threshold_dow hs htext hmonth hdom hdow
      simp only [day, hour] at hthreshold
      omega
  · have hthreshold := threshold_dom hs htext hmonth hdom
    unfold domEstimate at hthreshold
    split_ifs at hthreshold with hreliable
    · simp only [day, hour] at hthreshold
      by_cases hdow : s.dow = anything
      · have hgap := gap_le_of_days (fun d hd => next_long hs hmonth hdom hdow hd) htu
        omega
      · have hgap := gap_le_of_days (fun d _ => next_weekday hs hmonth (.inr hdow) d) htu
        omega
    · have hgap := gap_le_of_days (fun d _ => next_reliable hs hmonth hdom hreliable d) htu
      simp only [day, hour] at hthreshold
      omega

/-- With restricted months it is, unless the schedule is sparse. -/
theorem gap_le_of_months (hmonth : s.month ≠ anything) (hsparse : ¬s.Sparse)
    (hfires : ∃ t, s.fires t = true) {t u : ℤ} (htu : s.Consecutive t u) :
    u-t ≤ staleThreshold text := by
  have hthreshold := threshold_month hs htext hmonth
  have hpos := cycleGap_pos (months_ne_nil hs) fun k hk => months_bounds hs hk
  have hsingle {l : List ℕ} (hl : l.Pairwise (· < ·)) (hne : l ≠ [])
      (hin : ∀ k ∈ l, 1 ≤ k ∧ k ≤ 12) : cycleGap l ≤ 12 := by
    obtain ⟨a,_,_,_,hle,_⟩ := month_gap hl hne hin
    exact hle
  by_cases hweek : s.dom = anything ∨ s.dow ≠ anything
  · have hgap := gap_le_of_days (fun d hd => next_by_week hs hweek hd) htu
    have hle := hsingle (valuesOf_sorted 1 12 s.month) (months_ne_nil hs)
      fun k hk => months_bounds hs hk
    rw [← Schedule.months] at hle
    split_ifs at hthreshold <;> omega
  · obtain ⟨hdom,hdow⟩ := not_or.mp hweek
    have hdow := not_not.mp hdow
    have hkept : ¬if s.months.length = 1 then s.lasting = []
        else 3*cycleGap s.months < 2*cycleGap s.lasting := fun h => hsparse ⟨hmonth,hdom,hdow,h⟩
    have hlasting : s.lasting ≠ [] := by
      intro hnone
      split_ifs at hkept with hone
      · exact hkept hnone
      · obtain ⟨t,ht⟩ := hfires
        obtain ⟨m,x,hx,heq⟩ := exists_month (t / 1440)
        have hon := (fires_iff.mp ht).1
        rw [heq] at hon
        have hfirst := (fires_leap hs hdow hnone hx hon).2.2.1
        obtain ⟨k,hk,hne⟩ := exists_other hs hone
        have hin : k ∈ s.lasting := by
          have hlong : ∀ k, 1 ≤ k → k ≤ 12 → k ≠ 2 → 29 ≤ commonLen (k-1) := by decide
          have hbounds := months_bounds hs hk
          refine List.mem_filter.mpr ⟨hk,decide_eq_true ?_⟩
          rw [hfirst]
          exact hlong k hbounds.1 hbounds.2 hne
        rw [hnone] at hin
        cases hin
    have hgap := gap_le_of_days (fun d hd => next_by_first hs hdom hdow hlasting hd) htu
    have hle := hsingle ((valuesOf_sorted 1 12 s.month).filter _) hlasting
      fun k hk => months_bounds hs (List.mem_filter.mp hk).1
    rw [← Schedule.months, ← Schedule.lasting] at hle
    split_ifs at hthreshold hkept <;> omega

end Thresholds

/-- Midnight, with the day of the month and the month. -/
def midnight (dom month : Field) : Schedule where
  minute := [.value 0]
  hour := [.value 0]
  dom := dom
  month := month
  dow := anything

theorem number_zero : Field.Spelled [.value 0] [ '0'] :=
  ⟨[[ '0']],.cons (.value ⟨by decide,by decide,by decide⟩) .nil,rfl⟩

theorem anything_spelled : Field.Spelled anything [ '*'] :=
  ⟨[[ '*']],.cons (.star .absent) .nil,rfl⟩

theorem within_any {lo hi : ℕ} : Field.Within lo hi anything := by
  refine ⟨List.cons_ne_nil _ _,fun item hitem => ?_⟩
  rw [List.mem_singleton.mp hitem]
  exact nofun

theorem within_value {lo hi n : ℕ} (hlo : lo ≤ n) (hhi : n ≤ hi) :
    Field.Within lo hi [.value n] := by
  refine ⟨List.cons_ne_nil _ _,fun item hitem => ?_⟩
  rw [List.mem_singleton.mp hitem]
  exact ⟨hlo,hhi⟩

theorem midnight_standard {dom month : Field} (hdom : Field.Within 1 31 dom)
    (hmonth : Field.Within 1 12 month) : (midnight dom month).Standard :=
  ⟨within_value (le_refl 0) (by decide),within_value (le_refl 0) (by decide),hdom,hmonth,within_any⟩

/-- A job that runs on schedule is graded stale for a sparse schedule only. -/
theorem gap_le_staleThreshold_iff {s : Schedule} {text : Text} (hs : s.Standard)
    (htext : s.Spelled text) (hfires : ∃ t, s.fires t = true) :
    (∀ t u, s.Consecutive t u → u-t ≤ staleThreshold text) ↔ ¬s.Sparse := by
  constructor
  · rintro hgaps ⟨hmonth,hdom,hdow,hsparse⟩
    have hthreshold := threshold_month hs htext hmonth
    split_ifs at hsparse hthreshold with hone
    · obtain ⟨t,u,htu,hgap⟩ := leap_gap hs hfires hone hdom hdow hsparse
      have hle := hgaps t u htu
      omega
    · obtain ⟨t,u,htu,hgap⟩ := months_gap hs hfires hdom hdow hsparse
      have hle := hgaps t u htu
      omega
  · intro hsparse t u htu
    by_cases hmonth : s.month = anything
    · exact gap_le_of_any_month hs htext hmonth htu
    · exact gap_le_of_months hs htext hmonth hsparse hfires htu

/-- A daily job. -/
theorem gap_le_staleThreshold_daily :
    ¬(midnight anything anything).Sparse ∧
      ∀ t u, (midnight anything anything).Consecutive t u →
        u-t ≤ staleThreshold "0 0 * * *".toList := by
  have hspelled : (midnight anything anything).Spelled "0 0 * * *".toList :=
    ⟨[ '0'],[ '0'],[ '*'],[ '*'],[ '*'],by decide,number_zero,number_zero,anything_spelled,
      anything_spelled,anything_spelled⟩
  have hsparse : ¬(midnight anything anything).Sparse := by decide +kernel
  exact ⟨hsparse,(gap_le_staleThreshold_iff (midnight_standard within_any within_any) hspelled
    ⟨0,by decide +kernel⟩).mpr hsparse⟩

/-- February 29. -/
theorem leap_day_stale :
    (midnight [.value 29] [.value 2]).Standard ∧
      (midnight [.value 29] [.value 2]).Spelled "0 0 29 2 *".toList ∧
      (∃ t, (midnight [.value 29] [.value 2]).fires t = true) ∧
      ∃ t u, (midnight [.value 29] [.value 2]).Consecutive t u ∧
        (staleThreshold "0 0 29 2 *".toList : ℤ) < u-t := by
  have hs : (midnight [.value 29] [.value 2]).Standard :=
    midnight_standard (within_value (by decide) (by decide)) (within_value (by decide) (by decide))
  have hfires : ∃ t, (midnight [.value 29] [.value 2]).fires t = true :=
    ⟨59*1440,by decide +kernel⟩
  refine ⟨hs,?_,hfires,?_⟩
  · refine ⟨[ '0'],[ '0'],[ '2', '9'],[ '2'],[ '*'],by decide,number_zero,number_zero,?_,?_,
      anything_spelled⟩
    · exact ⟨[[ '2', '9']],.cons (.value ⟨by decide,by decide,by decide⟩) .nil,rfl⟩
    · exact ⟨[[ '2']],.cons (.value ⟨by decide,by decide,by decide⟩) .nil,rfl⟩
  · obtain ⟨t,u,htu,hgap⟩ := leap_gap hs hfires (by decide +kernel) (by decide) rfl
      (by decide +kernel)
    have hthreshold : staleThreshold "0 0 29 2 *".toList = 788400 := by decide +kernel
    exact ⟨t,u,htu,by omega⟩

end Radar.Cron
