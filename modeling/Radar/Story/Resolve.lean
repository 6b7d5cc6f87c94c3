import Radar.Base.Decimal
import Radar.Story.SplitStory

/-!
# Refs and the items that cite them

The parser's table holds the index of the one item that cites a ref. Rewriting
its markers is replacing each marker of the tokenizer by the one that names
that index.
-/

set_option autoImplicit false

namespace Radar.Story

open Radar.Scan

/-- The indices of the items that cite the ref. -/
def citing (items : List CaseItemRequest) (ref : Text) : List ℕ :=
  (items.zipIdx.filter (·.1.ref = ref)).map (·.2)

/-- The index of the one item that cites the ref. -/
def resolve (items : List CaseItemRequest) : StoryRefResolver := fun ref =>
  match citing items ref with
  | [i] => some i
  | _ => none

theorem indexByRef_eq (items : List CaseItemRequest) (ref : Text) :
    indexByRef items ref =
      match citing items ref with
      | [] => none
      | [i] => some (i : ℤ)
      | _ => some (-1) := by
  unfold indexByRef citing
  induction items.zipIdx using List.reverseRecOn with
  | nil => rfl
  | append_singleton entries entry ih =>
    rw [List.foldl_append, List.foldl_cons, List.foldl_nil, List.filter_append, List.map_append,
      addRef]
    by_cases href : entry.1.ref = ref
    · have hone : [entry].filter (·.1.ref = ref) = [entry] := by simp [href]
      rw [href, Function.update_self, ih, hone, List.map_singleton]
      cases (entries.filter (·.1.ref = ref)).map (·.2) with
      | nil => rfl
      | cons i rest => cases rest <;> rfl
    · have hnone : [entry].filter (·.1.ref = ref) = [] := by simp [href]
      rw [Function.update_of_ne (Ne.symm href), ih, hnone, List.map_nil, List.append_nil]

/-- A ref that resolves is cited by an item. -/
theorem exists_citing {items : List CaseItemRequest} {ref : Text} {i : ℕ}
    (h : i ∈ citing items ref) : ∃ item ∈ items, item.ref = ref := by
  obtain ⟨entry,hentry,_⟩ := List.mem_map.mp h
  obtain ⟨hin,href⟩ := List.mem_filter.mp hentry
  have hitem : entry.1 ∈ items := (List.mem_zipIdx' hin).2 ▸ List.getElem_mem _
  exact ⟨entry.1,hitem,of_decide_eq_true href⟩

def digitsOf (n : ℕ) : Many Char.isDigit where
  text := (toString n).toList
  nonempty := by
    rw [Nat.toString_eq_repr, Nat.toList_repr]
    exact Nat.toDigits_ne_nil
  all := List.all_eq_true.mpr fun _ hc => Decimal.nat_text_digit hc

theorem number_digitsOf (n : ℕ) : number (digitsOf n).text = n := by
  have hvalue : Nat.ofDigitChars 10 (toString n).toList 0 = n := by
    rw [Nat.toString_eq_repr, Nat.toList_repr]
    exact Nat.ofDigitChars_ten_toDigits
  exact congrArg Nat.cast hvalue

/-- What the parser makes of a live marker. -/
def canonical (items : List CaseItemRequest) (m : Marker) : Marker :=
  match m.target with
  | .index _ => m
  | .ref name =>
    match citing items name.text with
    | [i] => ⟨.index (digitsOf i),m.compact⟩
    | _ => m

/-- Nothing but the target changes, and the target is the same item. -/
theorem canonical_index (items : List CaseItemRequest) (m : Marker) :
    markerIndex none (canonical items m) = markerIndex (some (resolve items)) m := by
  obtain ⟨target,compact⟩ := m
  cases target with
  | index digits => rfl
  | ref name =>
    unfold canonical
    simp only [markerIndex, Option.bind_some, resolve]
    cases citing items name.text with
    | nil => rfl
    | cons i rest =>
      cases rest with
      | nil =>
        show number (digitsOf i).text = if (i : ℤ) < 0 then unresolvedStoryIndex else (i : ℤ)
        rw [number_digitsOf, if_neg (by omega)]
      | cons j rest => rfl

theorem canonical_compact (items : List CaseItemRequest) (m : Marker) :
    (canonical items m).compact = m.compact := by
  unfold canonical
  split
  · rfl
  · split <;> rfl

/-- Only a marker of the parser's form changes. -/
theorem exists_ref_of_canonical_ne {items : List CaseItemRequest} {m : Marker}
    (h : canonical items m ≠ m) : ∃ k : RefMarker, k.wide = m := by
  obtain ⟨target,compact⟩ := m
  cases target with
  | index digits => exact absurd rfl h
  | ref name =>
    simp only [canonical] at h
    split at h
    · rename_i i hciting
      have hin : i ∈ citing items name.text := by simp [hciting]
      obtain ⟨item,_,href⟩ := exists_citing hin
      obtain hempty | ⟨r,hr⟩ := item.ok
      · exact absurd (href.symm.trans hempty) name.nonempty
      · refine ⟨⟨r,compact⟩,?_⟩
        obtain ⟨text,nonempty,all⟩ := name
        obtain rfl : text = r.text := href.symm.trans hr
        rfl
    · exact absurd rfl h

theorem canonical_wide (items : List CaseItemRequest) (k : RefMarker) :
    (canonical items k.wide).text = rewriteMarker items k := by
  simp only [canonical, RefMarker.wide, rewriteMarker, indexByRef_eq]
  cases citing items k.ref.text with
  | nil => exact k.wide_text.symm
  | cons i rest =>
    cases rest with
    | nil =>
      have hpos : (0 : ℤ) ≤ i := by omega
      simp only [if_pos hpos]
      rfl
    | cons j rest => exact k.wide_text.symm

/-- The parser's rewriting in the tokenizer's terms. -/
theorem rewrite_eq (items : List CaseItemRequest) (text : Text) :
    rewrite items text =
      storyPlacementRe.replaceAll (fun m => (canonical items m).text) text := by
  have hwide : ∀ k, storyRefMarkerRe.text k = storyPlacementRe.text k.wide := RefMarker.wide_text
  refine Pattern.replaceAll_narrow story_separate hwide (canonical_wide items) (fun m hm => ?_) text
  by_cases h : canonical items m = m
  · exact congrArg Marker.text h
  · obtain ⟨k,hk⟩ := exists_ref_of_canonical_ne h
    exact absurd hk (hm k)

end Radar.Story
