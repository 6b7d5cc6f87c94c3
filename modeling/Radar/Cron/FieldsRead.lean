import Radar.Cron.Schedule

/-!
# Reading the fields of a schedule

A spelled field is read as the values that it admits, and the estimate of a
spelled schedule is that of its values.
-/

set_option autoImplicit false

namespace Radar.Cron

open Radar.CyclicGap Radar.Decimal Radar.Join Radar.Runes

/-- The values that a field admits, in their order. -/
def valuesOf (lo hi : ℕ) (f : Field) : List ℕ := (List.range (hi+1)).filter (f.admits lo hi)

section Numbers

theorem IsNumber.not_mem {t : Text} {n : ℕ} (h : IsNumber t n) {c : Char}
    (hc : c.isDigit = false) : c ∉ t := by
  intro hin
  have hdigit := List.all_eq_true.mp h.2.1 c hin
  exact absurd (hc.symm.trans hdigit) (by decide)

theorem IsNumber.read {t : Text} {n : ℕ} (h : IsNumber t n) (hn : n < 2^63) :
    atoi t = some (n : ℤ) := by
  obtain ⟨hne,hall,rfl⟩ := h
  exact atoi_digits hne hall hn

theorem cut_none {c : Char} {t : Text} (h : c ∉ t) : cut c t = none := cut_eq_none.mpr h

theorem SpelledStep.read {step : Option ℕ} {t b : Text} (h : SpelledStep step t) {hi : ℕ}
    (hwithin : stepWithin hi step) (hhi : hi < 2^63) (hbody : '/' ∉ b) :
    partStep (b++t) = some (b,((step.getD 1 : ℕ) : ℤ)) := by
  cases h with
  | absent =>
    rw [List.append_nil, partStep, cut_none hbody]
    rfl
  | present hn =>
    rename_i n t
    obtain ⟨hone,hle⟩ := hwithin n rfl
    rw [partStep, cut_append hbody]
    simp only [hn.read (hle.trans_lt hhi)]
    rw [if_neg (by omega)]
    rfl

end Numbers

section Items

variable {lo hi : ℕ}

theorem mem_stepped {start stop step v : ℕ} (hstep : 0 < step) (hle : start ≤ stop) :
    v ∈ stepped start stop step ↔ start ≤ v ∧ v ≤ stop ∧ (v-start) % step = 0 := by
  rw [stepped, List.mem_range']
  constructor
  · rintro ⟨i,hi,rfl⟩
    have hmul := Nat.mul_le_mul_left step (Nat.le_of_lt_succ hi)
    have hdiv := Nat.mul_div_le (stop-start) step
    refine ⟨by omega,by omega,?_⟩
    rw [Nat.add_sub_cancel_left, Nat.mul_mod_right]
  · rintro ⟨hlow,hhigh,hmod⟩
    refine ⟨(v-start)/step,Nat.lt_succ_of_le (Nat.div_le_div_right (by omega)),?_⟩
    rw [Nat.mul_div_cancel' (Nat.dvd_of_mod_eq_zero hmod)]
    omega

theorem step_pos {step : Option ℕ} (h : stepWithin hi step) : 0 < step.getD 1 := by
  cases step with
  | none => exact Nat.one_pos
  | some s => exact (h s rfl).1

/-- A spelled item is read as the values that it admits. -/
theorem partValues_spelled {item : Item} {t : Text} (h : item.Spelled t)
    (hwithin : item.Within lo hi) (hlo : lo ≤ hi) (hhi : hi < 2^63) :
    ∃ values, partValues t lo hi = some values ∧
      ∀ v, v ∈ values ↔ item.admits lo hi v = true := by
  cases h with
  | star hstep =>
    rename_i step t
    have hread : partStep ('*'::t) = some ([ '*'],((step.getD 1 : ℕ) : ℤ)) :=
      hstep.read (b := [ '*']) hwithin hhi (by decide)
    refine ⟨stepped lo hi (step.getD 1),?_,fun v => ?_⟩
    · simp only [partValues, hread, partBounds, if_true]
      rw [if_neg (by omega)]
      rfl
    · rw [mem_stepped (step_pos hwithin) hlo]
      simp [Item.admits, and_assoc]
  | value hn =>
    rename_i n
    have hstep : partStep t = some (t,1) := by rw [partStep, cut_none (hn.not_mem rfl)]
    have hstar : t ≠ [ '*'] := fun h => hn.not_mem (c := '*') rfl (by simp [h])
    obtain ⟨hlow,hhigh⟩ := hwithin
    refine ⟨stepped n n 1,?_,fun v => ?_⟩
    · simp only [partValues, hstep, partBounds, if_neg hstar, cut_none (hn.not_mem (c := '-') rfl),
        hn.read (hhigh.trans_lt hhi), Option.map_some]
      rw [if_neg (by omega)]
      rfl
    · rw [mem_stepped Nat.one_pos (le_refl n)]
      simp only [Item.admits, decide_eq_true_eq]
      omega
  | range hfirst hlast hstep =>
    rename_i first last step a b t
    obtain ⟨hlow,hle,hhigh,hwithin⟩ := hwithin
    have hslash : '/' ∉ a++ '-'::b := by
      simp [hfirst.not_mem (c := '/') rfl, hlast.not_mem (c := '/') rfl]
    have hread : partStep (a++ '-'::(b++t)) = some (a++ '-'::b,((step.getD 1 : ℕ) : ℤ)) := by
      have happend := hstep.read (b := a++ '-'::b) hwithin hhi hslash
      rwa [List.append_assoc] at happend
    have hstar : a++ '-'::b ≠ [ '*'] := fun h => by
      have hdash : '-' ∈ a++ '-'::b := by simp
      rw [h] at hdash
      exact absurd hdash (by decide)
    refine ⟨stepped first last (step.getD 1),?_,fun v => ?_⟩
    · simp only [partValues, hread, partBounds, if_neg hstar, cut_append (hfirst.not_mem (c := '-') rfl),
        hfirst.read (by omega), hlast.read (by omega)]
      rw [if_neg (by omega)]
      rfl
    · rw [mem_stepped (step_pos hwithin) hle]
      simp [Item.admits, and_assoc]

/-- An item admits a value. -/
theorem exists_admits {item : Item} (hwithin : item.Within lo hi) (hlo : lo ≤ hi) :
    ∃ v ≤ hi, item.admits lo hi v = true := by
  cases item with
  | star step => exact ⟨lo,hlo,by simp [Item.admits, hlo]⟩
  | value n => exact ⟨n,hwithin.2,by simp [Item.admits]⟩
  | range first last step =>
    exact ⟨first,hwithin.2.1.trans hwithin.2.2.1,by simp [Item.admits, hwithin.2.1]⟩

theorem Item.Spelled.free {item : Item} {t : Text} (h : item.Spelled t) : ',' ∉ t := by
  have hstep {step : Option ℕ} {t : Text} (h : SpelledStep step t) : ',' ∉ t := by
    cases h with
    | absent => exact List.not_mem_nil
    | present hn => simp [hn.not_mem (c := ',') rfl]
  cases h with
  | star h => simp [hstep h]
  | value h => exact h.not_mem rfl
  | range hfirst hlast h =>
    simp [hfirst.not_mem (c := ',') rfl, hlast.not_mem (c := ',') rfl, hstep h]

end Items

section Fields

variable {lo hi : ℕ} {f : Field} {t : Text}

theorem Field.Spelled.split (h : Field.Spelled f t) (hne : f ≠ []) :
    List.Forall₂ Item.Spelled f (t.splitOn ',') := by
  obtain ⟨parts,hparts,rfl⟩ := h
  have hfree : ∀ part ∈ parts, ',' ∉ part := by
    clear hne
    induction hparts with
    | nil => exact fun _ hpart => nomatch hpart
    | cons hitem _ ih =>
      intro part hpart
      rcases List.mem_cons.mp hpart with rfl | hpart
      · exact hitem.free
      · exact ih part hpart
  have hsome : parts ≠ [] := by
    cases hparts with
    | nil => exact absurd rfl hne
    | cons => exact List.cons_ne_nil _ _
  rwa [List.splitOn_intercalate ',' hfree hsome]

/-- The parts are read one by one. -/
theorem mapM_spelled {parts : List Text} (h : List.Forall₂ Item.Spelled f parts)
    (hwithin : ∀ item ∈ f, item.Within lo hi) (hlo : lo ≤ hi) (hhi : hi < 2^63) :
    ∃ sets, (parts.mapM fun part => partValues part lo hi) = some sets ∧
      ∀ v, v ∈ sets.flatten ↔ f.admits lo hi v = true := by
  induction h with
  | nil => exact ⟨[],rfl,fun v => by simp [Field.admits]⟩
  | @cons item part f parts hitem _ ih =>
    obtain ⟨values,hvalues,hmem⟩ := partValues_spelled hitem (hwithin item (.head _)) hlo hhi
    obtain ⟨sets,hsets,hrest⟩ := ih fun item hitem => hwithin item (.tail _ hitem)
    refine ⟨values::sets,?_,fun v => ?_⟩
    · rw [List.mapM_cons, hvalues, hsets]
      rfl
    · rw [List.flatten_cons, List.mem_append, hmem, hrest]
      simp [Field.admits]

theorem mem_valuesOf {v : ℕ} : v ∈ valuesOf lo hi f ↔ v ≤ hi ∧ f.admits lo hi v = true := by
  rw [valuesOf, List.mem_filter, List.mem_range, Nat.lt_succ_iff]

theorem valuesOf_ne_nil (hwithin : Field.Within lo hi f) (hlo : lo ≤ hi) :
    valuesOf lo hi f ≠ [] := by
  obtain ⟨item,hitem⟩ := List.exists_mem_of_ne_nil f hwithin.1
  obtain ⟨v,hv,hadmits⟩ := exists_admits (hwithin.2 item hitem) hlo
  exact List.ne_nil_of_mem (mem_valuesOf.mpr ⟨hv,List.any_eq_true.mpr ⟨item,hitem,hadmits⟩⟩)

theorem cronFieldValues_spelled (h : Field.Spelled f t) (hwithin : Field.Within lo hi f)
    (hlo : lo ≤ hi) (hhi : hi < 2^63) : cronFieldValues t lo hi = some (valuesOf lo hi f) := by
  obtain ⟨sets,hsets,hmem⟩ := mapM_spelled (h.split hwithin.1) hwithin.2 hlo hhi
  have hvalues : (List.range (hi+1)).filter (· ∈ sets.flatten) = valuesOf lo hi f := by
    apply List.filter_congr
    intro v _
    rw [Bool.eq_iff_iff, decide_eq_true_iff]
    exact hmem v
  simp only [cronFieldValues, hsets, hvalues]
  exact if_neg (valuesOf_ne_nil hwithin hlo)

theorem spelled_star_iff (h : Field.Spelled f t) (hne : f ≠ []) : t = [ '*'] ↔ f = anything := by
  have hparts := h.split hne
  constructor
  · rintro rfl
    have hone : [ '*'].splitOn ',' = [[ '*']] := rfl
    rw [hone] at hparts
    cases hparts with
    | @cons item _ rest _ hitem hrest =>
      cases hrest
      generalize htext : [ '*'] = t at hitem
      cases hitem with
      | star hstep =>
        obtain ⟨_,rfl⟩ := List.cons.inj htext
        cases hstep
        rfl
      | value hn => exact absurd (htext ▸ List.mem_cons_self) (hn.not_mem (c := '*') rfl)
      | range => exact absurd (htext.symm ▸ by simp : '-' ∈ [ '*']) (by decide)
  · rintro rfl
    obtain ⟨parts,hspelled,rfl⟩ := h
    cases hspelled with
    | cons hitem hrest =>
      cases hrest
      cases hitem with
      | star hstep =>
        cases hstep
        rfl

end Fields

section Thresholds

theorem Item.Spelled.plain {item : Item} {t : Text} (h : item.Spelled t) : '?' ∉ t := by
  have hstep {step : Option ℕ} {t : Text} (h : SpelledStep step t) : '?' ∉ t := by
    cases h with
    | absent => exact List.not_mem_nil
    | present hn => simp [hn.not_mem (c := '?') rfl]
  cases h with
  | star h => simp [hstep h]
  | value h => exact h.not_mem rfl
  | range hfirst hlast h =>
    simp [hfirst.not_mem (c := '?') rfl, hlast.not_mem (c := '?') rfl, hstep h]

theorem Field.Spelled.plain {f : Field} {t : Text} (h : Field.Spelled f t) : '?' ∉ t := by
  obtain ⟨parts,hparts,rfl⟩ := h
  induction hparts with
  | nil => exact List.not_mem_nil
  | @cons item part f parts hitem htail ih =>
    cases htail with
    | nil => simpa using hitem.plain
    | cons =>
      rw [List.intercalate_cons_cons]
      intro hin
      rcases List.mem_append.mp hin with hin | hin
      · rcases List.mem_append.mp hin with hin | hin
        · exact hitem.plain hin
        · exact absurd hin (by decide)
      · exact ih hin

def monthEstimate (months : List ℕ) (h : months ≠ []) : ℕ :=
  if months.length = 1 then 365*day
  else widest (months.head h+12-months.getLast h) months*31*day

def domEstimate (days : List ℕ) : ℕ :=
  if h : days.filter (· ≤ 28) = [] then 62*day
  else widest (31-(days.filter (· ≤ 28)).getLast h+(days.filter (· ≤ 28)).head h)
    (days.filter (· ≤ 28))*day

/-- The text that `MinInterval` splits, with Quartz tokens as stars. -/
def normalized (schedule : Text) : Text :=
  (trimSpace schedule).map fun c => if c = '?' then '*' else c

theorem map_plain {t : Text} (h : '?' ∉ t) : (t.map fun c => if c = '?' then '*' else c) = t := by
  have hid : ∀ c ∈ t, (if c = '?' then '*' else c) = id c := by
    intro c hc
    have hq : c ≠ '?' := fun hq => h (hq ▸ hc)
    exact if_neg hq
  rw [List.map_congr_left hid, List.map_id]

theorem fields_normalized (schedule : Text) : fields (normalized schedule) =
    (fields schedule).map (List.map fun c => if c = '?' then '*' else c) := by
  have hspace (c : Char) : isSpace (if c = '?' then '*' else c) = isSpace c := by
    split_ifs with h
    · rw [h]
      decide
    · rfl
  rw [normalized, fields_map hspace, fields_trimSpace]

theorem day_le_staleThreshold (text : Text) : day ≤ staleThreshold text := by
  unfold staleThreshold
  split
  · exact le_refl day
  · split_ifs with h
    · exact h.le
    · exact le_refl day

theorem staleThreshold_eq {text : Text} {interval : ℕ} (h : minInterval text = some interval)
    (hday : day ≤ interval) : staleThreshold text = interval+interval/2 := by
  have hpos : 0 < day := by decide
  simp only [staleThreshold, h]
  exact if_pos (by simp only [day, hour] at *; omega)

variable {s : Schedule} {text : Text} (hs : s.Standard) (htext : s.Spelled text)

include hs htext

/-- The estimate of a spelled schedule, by the first of its fields that is restricted. -/
theorem minInterval_spelled : ∃ rest, minInterval text = some
    (if s.month ≠ anything then
        monthEstimate (valuesOf 1 12 s.month) (valuesOf_ne_nil hs.month (by decide))
      else if s.dom ≠ anything then domEstimate (valuesOf 1 31 s.dom)
      else if s.dow ≠ anything then 7*day
      else rest) := by
  obtain ⟨minute,hours,dom,month,dow,hfields,hminute,hhour,hdom,hmonth,hdow⟩ := htext
  have hread : fields (normalized text) = [minute,hours,dom,month,dow] := by
    rw [fields_normalized, hfields]
    simp only [List.map_cons, List.map_nil, map_plain hminute.plain, map_plain hhour.plain,
      map_plain hdom.plain, map_plain hmonth.plain, map_plain hdow.plain]
  have hshape {m : Text} (hm : (fields m).length ≠ 5) : normalized text ≠ m := by
    rintro rfl
    exact hm (by rw [hread]; rfl)
  have hmonths : maxMonthGapDays month = some
      (monthEstimate (valuesOf 1 12 s.month) (valuesOf_ne_nil hs.month (by decide))) := by
    simp only [maxMonthGapDays, cronFieldValues_spelled hmonth hs.month (by decide) (by decide),
      dif_neg (valuesOf_ne_nil hs.month (by decide)), monthEstimate]
    split_ifs <;> rfl
  have hdoms : maxDomGapDays dom = some (domEstimate (valuesOf 1 31 s.dom)) := by
    simp only [maxDomGapDays, cronFieldValues_spelled hdom hs.dom (by decide) (by decide),
      domEstimate]
    split_ifs <;> rfl
  refine ⟨if hours ≠ [ '*'] ∧ ¬"*/".toList <+: hours then day else hour,?_⟩
  unfold minInterval
  dsimp only
  rw [← normalized, if_neg, if_neg, if_neg, if_neg, if_neg, hread]
  · simp only [hmonths, hdoms, Option.getD_some, ne_eq, spelled_star_iff hmonth hs.month.1,
      spelled_star_iff hdom hs.dom.1, spelled_star_iff hdow hs.dow.1]
    split_ifs <;> rfl
  · exact hshape (by decide)
  · exact not_or.mpr ⟨hshape (by decide),hshape (by decide)⟩
  · exact hshape (by decide)
  · exact hshape (by decide)
  · exact not_or.mpr ⟨hshape (by decide),hshape (by decide)⟩

end Thresholds

end Radar.Cron
