import Mathlib.Data.List.TakeWhile
import Radar.Base.Decimal
import Radar.Changes.CompactCreates

/-!
# Runs of creates

A line of an entry is read back as the row it was written for. The runs are the
longest stretches of candidates in one zone without a long gap, and an entry
stands for the rows of its run.
-/

set_option autoImplicit false

namespace Radar.Changes

section Parts

theorem ofDigits_text (n : ℕ) : Nat.ofDigitChars 10 (toString n).toList 0 = n := by
  rw [Nat.toString_eq_repr, Nat.toList_repr]
  exact Nat.ofDigitChars_ten_toDigits

theorem takeWhile_before {p : Char → Bool} {s : Text} {c : Char} (hs : ∀ d ∈ s, p d = true)
    (hc : p c = false) (rest : Text) : (s++c::rest).takeWhile p = s := by
  rw [List.takeWhile_append_of_pos hs, List.takeWhile_cons_of_neg (by simp [hc]), List.append_nil]

theorem dropWhile_before {p : Char → Bool} {s : Text} {c : Char} (hs : ∀ d ∈ s, p d = true)
    (hc : p c = false) (rest : Text) : (s++c::rest).dropWhile p = c::rest := by
  rw [List.dropWhile_append_of_pos hs, List.dropWhile_cons_of_neg (by simp [hc])]

theorem splitOn_consumers {first : Text} {rest : List Text} (h : ∀ s ∈ first::rest, ',' ∉ s) :
    (", ".toList.intercalate (first::rest)).splitOn ',' = first::rest.map (' '::·) := by
  have hsep : ", ".toList = [ ',', ' '] := rfl
  rw [hsep]
  induction rest generalizing first with
  | nil =>
    rw [List.intercalate_singleton]
    exact List.splitOn_eq_singleton (h first List.mem_cons_self)
  | cons second rest ih =>
    have hrest := ih fun s hs => h s (List.mem_cons_of_mem first hs)
    have hcut : [ ',', ' '].intercalate (first::second::rest) =
        first++ ',':: ' '::[ ',', ' '].intercalate (second::rest) := by
      rw [List.intercalate_cons_cons]
      simp
    rw [hcut, List.splitOn_append_cons_self_of_not_mem (h first List.mem_cons_self),
      List.splitOn_cons_eq_if_modifyHead, hrest]
    rfl

theorem consumersOf_tail {cs : List Text} (h : ∀ s ∈ cs, ',' ∉ s) :
    consumersOf (if cs = [] then [] else " (used by ".toList++", ".toList.intercalate cs++")".toList) =
      cs := by
  cases cs with
  | nil => rfl
  | cons first rest =>
    rw [if_neg (List.cons_ne_nil first rest), consumersOf, if_neg (by simp)]
    have hinner : ((" (used by ".toList++", ".toList.intercalate (first::rest)++")".toList).drop
        " (used by ".length).dropLast = ", ".toList.intercalate (first::rest) := by
      rw [List.append_assoc]
      show (", ".toList.intercalate (first::rest)++[ ')']).dropLast = _
      rw [List.dropLast_concat]
    rw [hinner, splitOn_consumers h]
    show first::(rest.map (' '::·)).map (List.drop 1) = first::rest
    rw [List.map_map]
    congr 1
    exact List.map_id rest

end Parts

section Line

/-- What is constant in the rows that are moved, and in no other field of the line. -/
structure PlainRow (c : RecentChange) : Prop where
  plain : isPlainCreate c = true
  consumers : ∀ s ∈ c.consumedBy, ',' ∉ s
  running : c.runningPreviousValue = none
  updates : c.updatesInWindow = 0
  firstUpdate : c.firstUpdateAt = []

theorem namePlain_all {s : Text} (h : createdObjectNamePlain s = true) :
    ∀ c ∈ s, c ≠ ' ' ∧ c ≠ '/' := by
  rw [createdObjectNamePlain, Bool.and_eq_true, List.all_eq_true] at h
  intro c hc
  have hout := of_decide_eq_true (h.2 c hc)
  constructor <;> (rintro rfl; exact hout (by decide))

theorem expandLine_line {e : CreatedObjects} {first : ZonedTime.Stamp} {c : RecentChange} {n : ℕ}
    (h : PlainRow c) (hns : e.ns = c.ns)
    (hversion : versionOf e c.kind = c.apiVersion)
    (htime : (⟨first.seconds+n,first.zone⟩ : ZonedTime.Stamp).text = c.timestamp) :
    expandLine e first (createdObjectLine c n) = c := by
  have hplain := h.plain
  simp only [isPlainCreate, Bool.and_eq_true, decide_eq_true_eq, Bool.not_eq_true',
    List.isEmpty_iff, Option.isNone_iff_eq_none] at hplain
  obtain ⟨⟨⟨⟨⟨⟨⟨⟨hsource,-,hadd,hsummary,hcategory,hreason⟩,happ⟩,hlinked⟩,hfields⟩,hwithheld⟩,-⟩,
    hkind⟩,hname⟩ := hplain
  have hk := namePlain_all hkind
  have hn := namePlain_all hname
  let tail : Text := if c.consumedBy = [] then []
    else " (used by ".toList++", ".toList.intercalate c.consumedBy++")".toList
  have hline : createdObjectLine c n =
      '+'::((toString n).toList++ 's':: ' '::(c.kind++ '/'::(c.name++tail))) := by
    rw [createdObjectLine, show (toString (n : ℤ)) = toString n from rfl]
    by_cases hc : c.consumedBy = []
    · simp [tail, hc]
    · simp [tail, hc]
  have htail : tail = [] ∨ ∃ rest, tail = ' '::rest := by
    by_cases hc : c.consumedBy = []
    · exact .inl (if_pos hc)
    · exact .inr ⟨_,if_neg hc⟩
  have hnamed : (c.name++tail).takeWhile (· ≠ ' ') = c.name ∧
      (c.name++tail).dropWhile (· ≠ ' ') = tail := by
    have hall : ∀ d ∈ c.name, decide (d ≠ ' ') = true := fun d hd => decide_eq_true (hn d hd).1
    rcases htail with hnil | ⟨rest,hrest⟩
    · rw [hnil, List.append_nil, List.takeWhile_eq_self_iff.mpr hall, List.dropWhile_eq_nil_iff.mpr hall]
      exact ⟨rfl,rfl⟩
    · rw [hrest]
      exact ⟨takeWhile_before hall (by decide) rest,dropWhile_before hall (by decide) rest⟩
  have hdigits : ∀ d ∈ (toString n).toList, d.isDigit = true := fun _ => Decimal.nat_text_digit
  have hkinds : ∀ d ∈ c.kind, decide (d ≠ '/') = true := fun d hd => decide_eq_true (hk d hd).2
  rw [hline, expandLine]
  simp only [List.drop_succ_cons, List.drop_zero]
  rw [takeWhile_before hdigits (by decide), dropWhile_before hdigits (by decide)]
  simp only [List.drop_succ_cons, List.drop_zero]
  rw [takeWhile_before hkinds (by decide), dropWhile_before hkinds (by decide)]
  simp only [List.drop_succ_cons, List.drop_zero]
  rw [hnamed.1, hnamed.2, ofDigits_text, htime, hversion, hns]
  obtain ⟨source,kind,apiVersion,ns,name,changeType,summary,timestamp,changeCategory,rankReason,app,
    linked,fields,consumedBy,withheld,running,updates,firstUpdate⟩ := c
  obtain ⟨-,hconsumers,hrunning,hupdates,hfirst⟩ := h
  have hconsumed : consumersOf tail = consumedBy := consumersOf_tail hconsumers
  rw [hconsumed]
  simp only at *
  subst hsource hadd hsummary hcategory hreason hfields hwithheld hrunning hupdates hfirst
  simp_all

end Line

end Radar.Changes

namespace Radar.Changes
open Radar.Segments

section Cut

/-- The second goes on with the run of the first. -/
def Fits (a b : Candidate) : Prop := b.instant-a.instant ≤ createRunMaxGap ∧ b.zone = a.zone

instance : DecidableRel Fits := fun _ _ => inferInstanceAs (Decidable (_ ∧ _))

theorem runsFrom_eq (front : List Candidate) {start previous : Candidate}
    (hzone : previous.zone = start.zone) (cs : List Candidate) :
    runsFrom (front++[previous]) start previous cs =
      (segments Fits (previous::cs)).modifyHead (front++·) := by
  induction cs generalizing front start previous with
  | nil => rfl
  | cons c cs ih =>
    by_cases hfits : Fits previous c
    · have hgo : ¬(c.instant-previous.instant > createRunMaxGap ∨ c.zone ≠ start.zone) := by
        rw [not_or, not_not, ← hzone]
        exact ⟨not_lt.mpr hfits.1,hfits.2⟩
      rw [runsFrom, if_neg hgo, ih (front++[previous]) (hfits.2.trans hzone), segments, if_pos hfits]
      obtain ⟨s,ss,hs⟩ := segments_cons Fits c cs
      rw [hs]
      simp
    · have hcut : c.instant-previous.instant > createRunMaxGap ∨ c.zone ≠ start.zone := by
        by_contra hnot
        rw [not_or, not_not, ← hzone] at hnot
        exact hfits ⟨not_lt.mp hnot.1,hnot.2⟩
      have hrest := ih [] (rfl : c.zone = c.zone)
      obtain ⟨s,ss,hs⟩ := segments_cons Fits c cs
      rw [runsFrom, if_pos hcut, segments, if_neg hfits, hs]
      rw [hs] at hrest
      exact congrArg ((front++[previous])::·) hrest

theorem runs_eq (cs : List Candidate) : runs cs = segments Fits cs := by
  cases cs with
  | nil => rfl
  | cons c cs =>
    obtain ⟨s,ss,hs⟩ := segments_cons Fits c cs
    have hrun := runsFrom_eq [] (rfl : c.zone = c.zone) cs
    rw [hs] at hrun ⊢
    exact hrun

end Cut

section Order

instance : Std.Total Before := by
  constructor
  intro a b
  rcases lt_trichotomy a.instant b.instant with hlt | heq | hgt
  · exact .inl (.inl hlt)
  · rcases le_total (changeKey a.change) (changeKey b.change) with hle | hle
    · exact .inl (.inr ⟨heq,hle⟩)
    · exact .inr (.inr ⟨heq.symm,hle⟩)
  · exact .inr (.inl hgt)

instance : IsTrans Candidate Before := by
  constructor
  rintro a b c (hab | ⟨hab,hkab⟩) (hbc | ⟨hbc,hkbc⟩)
  · exact .inl (hab.trans hbc)
  · exact .inl (hbc ▸ hab)
  · exact .inl (hab ▸ hbc)
  · exact .inr ⟨hab.trans hbc,hkab.trans hkbc⟩

variable {changes : List RecentChange} {ns : Text} {c : Candidate}

theorem mem_candidates : c ∈ candidates changes ↔ (c.change,c.index) ∈ changes.zipIdx ∧
    isPlainCreate c.change = true ∧ ∃ t, ZonedTime.parse c.change.timestamp = some t ∧
      c.instant = t.instant ∧ c.zone = t.zone := by
  rw [candidates, List.mem_filterMap]
  constructor
  · rintro ⟨⟨change,i⟩,hin,hc⟩
    simp only at hc
    split_ifs at hc with hplain
    obtain ⟨t,ht,rfl⟩ := Option.map_eq_some_iff.mp hc
    exact ⟨hin,hplain,t,ht,rfl,ZonedTime.parse_zone ht⟩
  · rintro ⟨hin,hplain,t,ht,hinstant,hzone⟩
    refine ⟨(c.change,c.index),hin,?_⟩
    simp only [if_pos hplain, ht, Option.map_some, Option.some.injEq]
    rw [ZonedTime.parse_zone ht, ← hinstant, ← hzone]

theorem candidates_nodup (changes : List RecentChange) :
    (candidates changes).Pairwise fun c d => c.index ≠ d.index := by
  rw [candidates, List.pairwise_filterMap]
  have hindex : changes.zipIdx.Pairwise fun x y => x.2 ≠ y.2 := by
    rw [← List.pairwise_map (f := Prod.snd) (R := (· ≠ ·)), List.zipIdx_map_snd]
    exact List.nodup_range'
  apply hindex.imp
  rintro ⟨change,i⟩ ⟨change',i'⟩ hne c hc d hd
  simp only at hc hd
  split_ifs at hc hd
  obtain ⟨t,-,rfl⟩ := Option.map_eq_some_iff.mp hc
  obtain ⟨u,-,rfl⟩ := Option.map_eq_some_iff.mp hd
  exact hne

theorem mem_oneVersion {cs : List Candidate} : c ∈ oneVersion cs ↔
    c ∈ cs ∧ ∀ d ∈ cs, d.change.kind = c.change.kind → d.change.apiVersion = c.change.apiVersion := by
  rw [oneVersion, List.mem_filter, List.all_eq_true]
  apply and_congr_right
  intro _
  apply forall₂_congr
  intro d _
  rw [Bool.or_eq_true, decide_eq_true_eq, decide_eq_true_eq]
  tauto

theorem mem_sorted : c ∈ sortedCandidates changes ns ↔
    c ∈ candidates changes ∧ c.change.ns = ns ∧ ∀ d ∈ candidates changes, d.change.ns = ns →
      d.change.kind = c.change.kind → d.change.apiVersion = c.change.apiVersion := by
  rw [sortedCandidates, List.mem_insertionSort, mem_oneVersion]
  simp [and_assoc]

theorem sorted_pairwise (changes : List RecentChange) (ns : Text) :
    (sortedCandidates changes ns).Pairwise fun a b => a.instant ≤ b.instant := by
  apply (List.pairwise_insertionSort Before _).imp
  rintro a b (hlt | ⟨heq,-⟩)
  · exact hlt.le
  · exact heq.le

theorem sorted_nodup (changes : List RecentChange) (ns : Text) :
    (sortedCandidates changes ns).Pairwise fun c d => c.index ≠ d.index := by
  have hsub : (oneVersion ((candidates changes).filter (·.change.ns = ns))).Sublist
      (candidates changes) := List.filter_sublist.trans List.filter_sublist
  exact (List.perm_insertionSort Before _).symm.pairwise ((candidates_nodup changes).sublist hsub)
    fun h => Ne.symm h

end Order

section Entry

variable {all run : List Candidate}

/-- The candidates of one kind have one version. -/
def OneVersion (all : List Candidate) : Prop :=
  ∀ c ∈ all, ∀ d ∈ all, d.change.kind = c.change.kind → d.change.apiVersion = c.change.apiVersion

/-- A recorded version is that of the candidates of its kind. -/
def Records (all : List Candidate) (m : AList fun _ : Text => Text) : Prop :=
  ∀ k v, m.lookup k = some v → ∀ c ∈ all, c.change.kind = k → c.change.apiVersion = v

theorem records_add (hone : OneVersion all) {c : Candidate} (hc : c ∈ all)
    {m : AList fun _ : Text => Text} (hm : Records all m) : Records all (addVersion m c) := by
  unfold addVersion
  split_ifs with hempty
  · exact hm
  · intro k v hlookup d hd hk
    by_cases hkind : k = c.change.kind
    · subst hkind
      rw [AList.lookup_insert, Option.some.injEq] at hlookup
      rw [← hlookup]
      exact hone c hc d hd hk
    · rw [AList.lookup_insert_ne hkind] at hlookup
      exact hm k v hlookup d hd hk

theorem mem_add {c : Candidate} {m : AList fun _ : Text => Text} {k : Text} :
    k ∈ addVersion m c ↔ k ∈ m ∨ (k = c.change.kind ∧ c.change.apiVersion ≠ []) := by
  unfold addVersion
  split_ifs with hempty
  · simp [hempty]
  · rw [AList.mem_insert]
    simp [hempty, or_comm]

theorem records_run (hone : OneVersion all) (hrun : ∀ c ∈ run, c ∈ all)
    {m : AList fun _ : Text => Text} (hm : Records all m) :
    Records all (run.foldl addVersion m) ∧
      ∀ k, k ∈ run.foldl addVersion m ↔
        k ∈ m ∨ ∃ c ∈ run, k = c.change.kind ∧ c.change.apiVersion ≠ [] := by
  induction run generalizing m with
  | nil => exact ⟨hm,fun k => by simp⟩
  | cons c run ih =>
    obtain ⟨hrec,hmem⟩ := ih (fun d hd => hrun d (List.mem_cons_of_mem c hd))
      (records_add hone (hrun c List.mem_cons_self) hm)
    refine ⟨hrec,fun k => ?_⟩
    rw [List.foldl_cons, hmem, mem_add, or_assoc]
    simp

theorem versionOf_entry (hone : OneVersion run) (first : Candidate) {c : Candidate} (hc : c ∈ run) :
    versionOf (entryOf first run) c.change.kind = c.change.apiVersion := by
  have hempty : Records run ∅ := by
    intro k v h
    rw [AList.lookup_empty] at h
    nomatch h
  obtain ⟨hrec,hmem⟩ := records_run hone (fun d hd => hd) hempty
  rw [versionOf]
  show ((run.foldl addVersion ∅).lookup c.change.kind).getD [] = c.change.apiVersion
  cases hlookup : (run.foldl addVersion ∅).lookup c.change.kind with
  | some v => exact (hrec _ v hlookup c hc rfl).symm
  | none =>
    by_contra hne
    apply AList.lookup_eq_none.mp hlookup
    exact (hmem _).mpr (.inr ⟨c,hc,rfl,Ne.symm hne⟩)

theorem expand_entry {first : Candidate} {rest : List Candidate}
    (hread : ∀ c ∈ first::rest, PlainRow c.change ∧ ∃ t, ZonedTime.parse c.change.timestamp = some t ∧
      c.instant = t.instant ∧ c.zone = t.zone)
    (hlater : ∀ c ∈ first::rest, first.instant ≤ c.instant) (hzone : ∀ c ∈ first::rest, c.zone = first.zone)
    (hns : ∀ c ∈ first::rest, c.change.ns = first.change.ns) (hone : OneVersion (first::rest)) :
    expand (entryOf first (first::rest)) = (first::rest).map (·.change) := by
  obtain ⟨-,t₀,ht₀,hinstant₀,hzone₀⟩ := hread first List.mem_cons_self
  have hparse : ZonedTime.parse (entryOf first (first::rest)).first = some t₀ := ht₀
  rw [expand, hparse]
  show ((first::rest).map fun c => createdObjectLine c.change (c.instant-first.instant)).map _ = _
  rw [List.map_map]
  apply List.map_congr_left
  intro c hc
  obtain ⟨hplain,t,ht,hinstant,hz⟩ := hread c hc
  have hsame : t.zone = t₀.zone := by rw [← hz, hzone c hc, hzone₀]
  have hoffset : c.instant-first.instant = ((t.seconds-t₀.seconds).toNat : ℕ) := by
    have hsub := ZonedTime.instant_sub hsame
    have hle := hlater c hc
    rw [hinstant, hinstant₀] at hle ⊢
    omega
  rw [Function.comp_apply, hoffset]
  apply expandLine_line hplain (hns c hc).symm (versionOf_entry hone first hc)
  have hle := hlater c hc
  have hseconds : t₀.seconds+((t.seconds-t₀.seconds).toNat : ℕ) = t.seconds := by
    have hsub := ZonedTime.instant_sub hsame
    rw [hinstant, hinstant₀] at hle
    omega
  rw [hseconds, ← hsame]
  exact (ZonedTime.parse_text ht).1

end Entry

end Radar.Changes
