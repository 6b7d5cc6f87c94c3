import Mathlib.Data.List.Chain
import Mathlib.Data.List.Dedup
import Mathlib.Data.List.Flatten
import Radar.Changes.CreateRuns

/-!
# Compacting creates is lossless

The rows that stay and those that the entries stand for are the rows that came in.
No long run stays among a namespace's candidates, the moved ones included; those
that stay may form a run by themselves.
-/

set_option autoImplicit false

namespace Radar.Changes
open Radar.Segments

section Moved

variable {changes : List RecentChange} {ns : Text} {run : List Candidate}

/-- A row as its writers make it: a time in whole seconds, consumers without commas, and creates
without what updates carry. -/
structure Expandable (c : RecentChange) : Prop where
  time : (ZonedTime.parse c.timestamp).isSome = true
  consumers : ∀ s ∈ c.consumedBy, ',' ∉ s
  create : c.changeType = "add".toList →
    c.runningPreviousValue = none ∧ c.updatesInWindow = 0 ∧ c.firstUpdateAt = []

theorem mem_movedRuns : run ∈ movedRuns changes ns ↔
    run ∈ segments Fits (sortedCandidates changes ns) ∧ createRunMinSize ≤ run.length := by
  rw [movedRuns, List.mem_filter, runs_eq, decide_eq_true_eq]

theorem run_sublist (h : run ∈ movedRuns changes ns) :
    run.Sublist (sortedCandidates changes ns) := by
  have hsub := List.sublist_flatten_of_mem (mem_movedRuns.mp h).1
  rwa [segments_flatten] at hsub

theorem chain_zone {first : Candidate} {rest : List Candidate} (h : (first::rest).IsChain Fits) :
    ∀ c ∈ first::rest, c.zone = first.zone := by
  induction rest generalizing first with
  | nil => simp
  | cons second rest ih =>
    obtain ⟨hfits,hrest⟩ := List.isChain_cons_cons.mp h
    intro c hc
    rcases List.mem_cons.mp hc with rfl | hc
    · rfl
    · rw [ih hrest c hc, hfits.2]

theorem expand_run (hrows : ∀ c ∈ changes, Expandable c) (h : run ∈ movedRuns changes ns) :
    ∃ first, run.head? = some first ∧ expand (entryOf first run) = run.map (·.change) := by
  obtain ⟨hsegment,-⟩ := mem_movedRuns.mp h
  obtain ⟨hne,hchain⟩ := segments_chain hsegment
  have hsub := run_sublist h
  have hmem : ∀ c ∈ run, c ∈ sortedCandidates changes ns := fun c hc => hsub.subset hc
  have hsorted := (sorted_pairwise changes ns).sublist hsub
  cases run with
  | nil => exact absurd rfl hne
  | cons first rest =>
    refine ⟨first,rfl,expand_entry ?_ ?_ (chain_zone hchain) ?_ ?_⟩
    · intro c hc
      obtain ⟨hin,hplain,t,ht⟩ := mem_candidates.mp (mem_sorted.mp (hmem c hc)).1
      have hrow := hrows c.change (List.fst_mem_of_mem_zipIdx hin)
      have hadd : c.change.changeType = "add".toList := by
        simp only [isPlainCreate, Bool.and_eq_true, decide_eq_true_eq] at hplain
        tauto
      obtain ⟨hrunning,hupdates,hfirst⟩ := hrow.create hadd
      exact ⟨⟨hplain,hrow.consumers,hrunning,hupdates,hfirst⟩,t,ht⟩
    · intro c hc
      rcases List.mem_cons.mp hc with rfl | hc
      · exact le_rfl
      · exact (List.pairwise_cons.mp hsorted).1 c hc
    · intro c hc
      rw [(mem_sorted.mp (hmem c hc)).2.1, (mem_sorted.mp (hmem first List.mem_cons_self)).2.1]
    · intro c hc d hd hkind
      obtain ⟨-,-,hone⟩ := mem_sorted.mp (hmem c hc)
      obtain ⟨hd,hns,-⟩ := mem_sorted.mp (hmem d hd)
      exact hone d hd hns hkind

theorem expand_entries (hrows : ∀ c ∈ changes, Expandable c) (ns : Text) :
    (entries changes ns).flatMap expand = (movedRuns changes ns).flatten.map (·.change) := by
  have hall : ∀ run ∈ movedRuns changes ns, ∃ first, run.head? = some first ∧
      expand (entryOf first run) = run.map (·.change) := fun run => expand_run hrows
  rw [entries]
  generalize movedRuns changes ns = rs at hall ⊢
  induction rs with
  | nil => rfl
  | cons run rs ih =>
    obtain ⟨first,hhead,hexpand⟩ := hall run List.mem_cons_self
    have hrest := ih fun r hr => hall r (List.mem_cons_of_mem run hr)
    rw [List.filterMap_cons, hhead]
    show (entryOf first run::_).flatMap expand = _
    rw [List.flatMap_cons, hexpand, hrest, List.flatten_cons,
      List.map_append]

/-- The candidates that are moved. -/
def movedCandidates (changes : List RecentChange) : List Candidate :=
  (namespaces changes).flatMap fun ns => (movedRuns changes ns).flatten

theorem mem_movedCandidates {c : Candidate} : c ∈ movedCandidates changes ↔
    ∃ run ∈ movedRuns changes c.change.ns, c ∈ run := by
  rw [movedCandidates, List.mem_flatMap]
  constructor
  · rintro ⟨ns,-,hc⟩
    obtain ⟨run,hrun,hc⟩ := List.mem_flatten.mp hc
    obtain ⟨-,hns,-⟩ := mem_sorted.mp ((run_sublist hrun).subset hc)
    exact ⟨run,hns ▸ hrun,hc⟩
  · rintro ⟨run,hrun,hc⟩
    refine ⟨c.change.ns,?_,List.mem_flatten.mpr ⟨run,hrun,hc⟩⟩
    obtain ⟨hin,-⟩ := mem_sorted.mp ((run_sublist hrun).subset hc)
    exact List.mem_dedup.mpr (List.mem_map_of_mem hin)

theorem flatten_sublist (changes : List RecentChange) (ns : Text) :
    (movedRuns changes ns).flatten.Sublist (sortedCandidates changes ns) := by
  have hsub : (movedRuns changes ns).flatten.Sublist (runs (sortedCandidates changes ns)).flatten :=
    List.Sublist.flatten List.filter_sublist
  rwa [runs_eq, segments_flatten] at hsub

theorem moved_nodup (changes : List RecentChange) :
    (movedCandidates changes).Pairwise fun c d => c.index ≠ d.index := by
  rw [movedCandidates, List.pairwise_flatMap]
  constructor
  · exact fun ns _ => (sorted_nodup changes ns).sublist (flatten_sublist changes ns)
  · apply (List.nodup_dedup _).imp
    intro ns ns' hne c hc d hd heq
    obtain ⟨hc,hns,-⟩ := mem_sorted.mp ((flatten_sublist changes ns).subset hc)
    obtain ⟨hd,hns',-⟩ := mem_sorted.mp ((flatten_sublist changes ns').subset hd)
    have hcin := List.mk_mem_zipIdx_iff_getElem?.mp (mem_candidates.mp hc).1
    have hdin := List.mk_mem_zipIdx_iff_getElem?.mp (mem_candidates.mp hd).1
    rw [heq, hdin, Option.some.injEq] at hcin
    exact hne (by rw [← hns, ← hns', hcin])

/-- The moved rows, as they were found and as they came in. -/
theorem moved_perm (changes : List RecentChange) :
    ((changes.zipIdx.filter fun (_,i) => i ∈ moved changes).map Prod.fst).Perm
      ((movedCandidates changes).map (·.change)) := by
  have hmoved : moved changes = (movedCandidates changes).map (·.index) := rfl
  have hperm : (changes.zipIdx.filter fun (_,i) => i ∈ moved changes).Perm
      ((movedCandidates changes).map fun c => (c.change,c.index)) := by
    rw [List.perm_ext_iff_of_nodup]
    · rintro ⟨change,i⟩
      rw [List.mem_filter, decide_eq_true_eq, hmoved, List.mem_map, List.mem_map]
      constructor
      · rintro ⟨hin,c,hc,rfl⟩
        obtain ⟨run,hrun,hcrun⟩ := mem_movedCandidates.mp hc
        have hcin := (mem_candidates.mp (mem_sorted.mp ((run_sublist hrun).subset hcrun)).1).1
        rw [List.mk_mem_zipIdx_iff_getElem?] at hin hcin
        rw [hin, Option.some.injEq] at hcin
        exact ⟨c,hc,by rw [hcin]⟩
      · rintro ⟨c,hc,heq⟩
        obtain ⟨rfl,rfl⟩ := Prod.mk.inj heq
        obtain ⟨run,hrun,hcrun⟩ := mem_movedCandidates.mp hc
        exact ⟨(mem_candidates.mp (mem_sorted.mp ((run_sublist hrun).subset hcrun)).1).1,c,hc,rfl⟩
    · apply List.Nodup.filter
      apply List.Nodup.of_map Prod.snd
      rw [List.zipIdx_map_snd]
      exact List.nodup_range'
    · rw [List.Nodup, List.pairwise_map]
      exact (moved_nodup changes).imp fun hne heq => hne (Prod.mk.inj heq).2
  have hmap := hperm.map Prod.fst
  rw [List.map_map] at hmap
  exact hmap

end Moved

section Entries

variable {changes : List RecentChange} {ns : Text}

/-- The second row was created in the zone of the first and soon after. -/
def Close (c d : RecentChange) : Prop :=
  ∃ t u, ZonedTime.parse c.timestamp = some t ∧ ZonedTime.parse d.timestamp = some u ∧
    u.zone = t.zone ∧ 0 ≤ u.instant-t.instant ∧ u.instant-t.instant ≤ createRunMaxGap

structure SoundEntry (e : CreatedObjects) : Prop where
  count : e.count = e.objects.length
  long : createRunMinSize ≤ e.count
  expands : (expand e).length = e.count
  first : (expand e).head?.map (·.timestamp) = some e.first
  ns : ∀ c ∈ expand e, c.ns = e.ns
  close : (expand e).IsChain Close

theorem chain_sorted {run : List Candidate} (hchain : run.IsChain Fits)
    (hsorted : run.Pairwise fun a b => a.instant ≤ b.instant) :
    run.IsChain fun a b => Fits a b ∧ a.instant ≤ b.instant := by
  induction hchain with
  | nil => exact .nil
  | singleton a => exact .singleton a
  | cons_cons hfits _ ih =>
    obtain ⟨hle,hrest⟩ := List.pairwise_cons.mp hsorted
    exact .cons_cons ⟨hfits,hle _ List.mem_cons_self⟩ (ih hrest)

theorem sound_run {run : List Candidate} (hrows : ∀ c ∈ changes, Expandable c)
    (h : run ∈ movedRuns changes ns) {first : Candidate} (hfirst : run.head? = some first) :
    SoundEntry (entryOf first run) := by
  obtain ⟨first',hfirst',hexpand⟩ := expand_run hrows h
  obtain rfl : first' = first := Option.some.inj (hfirst'.symm.trans hfirst)
  obtain ⟨hsegment,hlong⟩ := mem_movedRuns.mp h
  obtain ⟨-,hchain⟩ := segments_chain hsegment
  have hsub := run_sublist h
  have hsorted := (sorted_pairwise changes ns).sublist hsub
  have hns : ∀ c ∈ run, c.change.ns = ns := fun c hc => (mem_sorted.mp (hsub.subset hc)).2.1
  have hin : first' ∈ run := List.mem_of_head? hfirst
  constructor
  · exact (List.length_map _).symm
  · exact hlong
  · rw [hexpand, List.length_map]
    rfl
  · rw [hexpand, List.head?_map, hfirst]
    rfl
  · rw [hexpand]
    intro c hc
    obtain ⟨d,hd,rfl⟩ := List.mem_map.mp hc
    exact (hns d hd).trans (hns first' hin).symm
  · rw [hexpand, List.isChain_map]
    have hread : ∀ c ∈ run, ∃ t, ZonedTime.parse c.change.timestamp = some t ∧
        c.instant = t.instant ∧ c.zone = t.zone := fun c hc =>
      (mem_candidates.mp (mem_sorted.mp (hsub.subset hc)).1).2.2
    apply (chain_sorted hchain hsorted).imp_of_mem_imp
    rintro c d hc hd ⟨⟨hgap,hzone⟩,hle⟩
    obtain ⟨t,ht,htinstant,htzone⟩ := hread c hc
    obtain ⟨u,hu,huinstant,huzone⟩ := hread d hd
    rw [htinstant, huinstant] at hgap hle
    refine ⟨t,u,ht,hu,?_,by omega,hgap⟩
    rw [← htzone, ← huzone, hzone]

theorem sound_entries (hrows : ∀ c ∈ changes, Expandable c) {e : CreatedObjects}
    (h : e ∈ entries changes ns) : SoundEntry e := by
  obtain ⟨run,hrun,he⟩ := List.mem_filterMap.mp h
  obtain ⟨first,hfirst,rfl⟩ := Option.map_eq_some_iff.mp he
  exact sound_run hrows hrun hfirst

/-- Without an entry nothing is moved. -/
theorem moved_of_no_entries (h : ∀ ns ∈ namespaces changes, entries changes ns = []) :
    moved changes = [] := by
  rw [moved, List.map_eq_nil_iff, List.flatMap_eq_nil_iff]
  intro ns hns
  rw [List.flatten_eq_nil_iff]
  intro run hrun
  have hempty := h ns hns
  rw [entries, List.filterMap_eq_nil_iff] at hempty
  cases run with
  | nil => rfl
  | cons first rest => nomatch hempty _ hrun

end Entries

section Lossless

variable {range : List Text → List Text} {sort : SortFunc entryOrder} {changes : List RecentChange}

theorem compact_rest (hrange : ∀ l, (range l).Perm l) :
    (CompactCreates range sort changes).1 =
      (changes.zipIdx.filter fun (_,i) => i ∉ moved changes).map Prod.fst := by
  rw [CompactCreates]
  split_ifs with hcreated
  · have hmoved : moved changes = [] := moved_of_no_entries fun ns hns =>
      List.flatMap_eq_nil_iff.mp hcreated ns ((hrange _).mem_iff.mpr hns)
    rw [hmoved]
    simp
  · rfl

theorem compact_entries (hrange : ∀ l, (range l).Perm l) :
    (CompactCreates range sort changes).2.Perm ((namespaces changes).flatMap (entries changes)) := by
  have hcreated := (hrange (namespaces changes)).flatMap_right (entries changes)
  rw [CompactCreates]
  split_ifs with hnil
  · rw [hnil] at hcreated
    exact hcreated
  · exact (sort.perm _).trans hcreated

theorem expand_compact (hrange : ∀ l, (range l).Perm l) (hrows : ∀ c ∈ changes, Expandable c) :
    ((CompactCreates range sort changes).2.flatMap expand).Perm
      ((movedCandidates changes).map (·.change)) := by
  apply ((compact_entries hrange).flatMap_right expand).trans
  rw [List.flatMap_assoc, movedCandidates, List.map_flatMap]
  have hns : (fun ns => (entries changes ns).flatMap expand) =
      fun ns => (movedRuns changes ns).flatten.map (·.change) := funext (expand_entries hrows)
  rw [hns]

/-- A run in the sorted candidates that is long enough is moved as a whole. -/
theorem long_run_moved {ns : Text} {run : List Candidate} (hin : run <:+: sortedCandidates changes ns)
    (hfits : run.IsChain Fits) (hlong : createRunMinSize ≤ run.length) {c : Candidate}
    (hc : c ∈ run) : c.index ∈ moved changes := by
  obtain ⟨segment,hsegment,hinside⟩ :=
    chain_infix_segment (List.ne_nil_of_mem hc) hin hfits
  have hrun : segment ∈ movedRuns changes ns :=
    mem_movedRuns.mpr ⟨hsegment,hlong.trans hinside.length_le⟩
  have hns := (mem_sorted.mp (hin.subset hc)).2.1
  have hmem : c ∈ movedCandidates changes :=
    mem_movedCandidates.mpr ⟨segment,hns.symm ▸ hrun,hinside.subset hc⟩
  exact List.mem_map_of_mem hmem

theorem compact_lossless (hrange : ∀ l, (range l).Perm l) (hrows : ∀ c ∈ changes, Expandable c) :
    ((CompactCreates range sort changes).2.flatMap expand++
        (CompactCreates range sort changes).1).Perm changes ∧
      (CompactCreates range sort changes).1.Sublist changes ∧
      (CompactCreates range sort changes).1 =
        (changes.zipIdx.filter fun (_,i) => i ∉ moved changes).map Prod.fst ∧
      (∀ e ∈ (CompactCreates range sort changes).2, SoundEntry e) ∧
      ∀ ns run, run <:+: sortedCandidates changes ns → run.IsChain Fits →
        createRunMinSize ≤ run.length → ∀ c ∈ run, c.index ∈ moved changes := by
  refine ⟨?_,?_,compact_rest hrange,?_,?_⟩
  · have hexpand : ((CompactCreates range sort changes).2.flatMap expand).Perm
        ((movedCandidates changes).map (·.change)) := expand_compact hrange hrows
    have hmoved := hexpand.trans (moved_perm changes).symm
    rw [compact_rest hrange]
    apply (hmoved.append_right _).trans
    rw [← List.map_append]
    have hall : (changes.zipIdx.filter (fun (_,i) => i ∈ moved changes)++
        changes.zipIdx.filter fun (_,i) => i ∉ moved changes).Perm changes.zipIdx := by
      simpa using List.filter_append_perm (fun x : RecentChange × ℕ => decide (x.2 ∈ moved changes))
        changes.zipIdx
    have hfst := hall.map Prod.fst
    rwa [List.zipIdx_map_fst] at hfst
  · have hsub : ((changes.zipIdx.filter fun (_,i) => i ∉ moved changes).map Prod.fst).Sublist
        (changes.zipIdx.map Prod.fst) := List.filter_sublist.map Prod.fst
    rw [compact_rest hrange]
    rwa [List.zipIdx_map_fst] at hsub
  · intro e he
    obtain ⟨ns,-,he⟩ := List.mem_flatMap.mp ((compact_entries hrange).mem_iff.mp he)
    exact sound_entries hrows he
  · exact fun ns run hin hfits hlong c hc => long_run_moved hin hfits hlong hc

instance : Std.TransCmp entryOrder :=
  inferInstanceAs (Std.TransCmp (compareLex (compareOn firstInstant) (compareOn CreatedObjects.ns)))

def secretCreated (name timestamp : String) : RecentChange where
  kind := "Secret".toList
  apiVersion := "v1".toList
  ns := "shop".toList
  name := name.toList
  changeType := "add".toList
  summary := "add".toList
  timestamp := timestamp.toList
  changeCategory := changeCategoryLifecycle
  rankReason := lifecycleRankReason

theorem expandable_without_consumers {changes : List RecentChange}
    (h : ∀ c ∈ changes, (ZonedTime.parse c.timestamp).isSome = true ∧ c.consumedBy = [] ∧
      c.runningPreviousValue = none ∧ c.updatesInWindow = 0 ∧ c.firstUpdateAt = []) :
    ∀ c ∈ changes, Expandable c := by
  intro c hc
  obtain ⟨htime,hconsumed,hrest⟩ := h c hc
  exact ⟨htime,by simp [hconsumed],fun _ => hrest⟩

def secretsCreated : List RecentChange :=
  ["a","b","c","d","e"].map fun name => secretCreated name "2024-03-31T01:59:59Z"

theorem compact_lossless_secrets :
    ((CompactCreates id (.stable entryOrder) secretsCreated).2.flatMap expand++
        (CompactCreates id (.stable entryOrder) secretsCreated).1).Perm secretsCreated ∧
      (CompactCreates id (.stable entryOrder) secretsCreated).1 = [] := by
  constructor
  · apply (compact_lossless (fun l => List.Perm.refl l) _).1
    exact expandable_without_consumers (by decide +kernel)
  · decide +kernel

/-- Creates at one instant, of which the middle ones are written in another zone. -/
def twoZones : List RecentChange :=
  ["a1","a2","a3"].map (fun name => secretCreated name "2024-01-01T00:00:00Z")++
  ["b1","b2","b3","b4","b5"].map (fun name => secretCreated name "2024-01-01T03:00:00+03:00")++
  ["c1","c2","c3"].map (fun name => secretCreated name "2024-01-01T00:00:00Z")

/-- Moving the middle creates leaves the others as neighbours, enough for a run. -/
theorem rest_has_run : (∀ c ∈ twoZones, Expandable c) ∧ ¬∀ ns run,
    run <:+: sortedCandidates (CompactCreates id (.stable entryOrder) twoZones).1 ns →
      run.IsChain Fits → ¬createRunMinSize ≤ run.length := by
  constructor
  · exact expandable_without_consumers (by decide +kernel)
  · intro h
    apply h "shop".toList _ (List.infix_refl _)
    · decide +kernel
    · decide +kernel

end Lossless

end Radar.Changes
