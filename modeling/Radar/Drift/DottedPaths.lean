import Radar.Base.Decimal
import Radar.Base.Join
import Radar.Drift.Entries

/-!
# Dotted paths and pointers

A dotted path is read as the list of the names between its dots. A pointer hides
what its own names begin, which is what lies at or below the place it addresses
as long as no key holds a dot or looks like an index.
-/

set_option autoImplicit false

namespace Radar.Drift
open Radar.JsonTree Radar.JsonTree.Value Radar.Runes

section Names

/-- A segment as it stands in a path. -/
def segmentText (seg : Text) : Text := if isAllDigits seg then '['::(seg++[']']) else seg

/-- The names that a segment adds to a path. -/
def segmentNames (seg : Text) : List Text := (segmentText seg).splitOn '.'

def namesOf (path : Text) : List Text := path.splitOn '.'

theorem joinPath_eq {path : Text} (h : path ≠ []) (seg : Text) :
    joinPath path seg = path++ '.'::segmentText seg := by
  rw [joinPath, if_neg h, segmentText]
  split_ifs
  · simp
  · simp

theorem joinPath_ne_nil {path : Text} (h : path ≠ []) (seg : Text) : joinPath path seg ≠ [] := by
  rw [joinPath_eq h]
  exact List.append_ne_nil_of_left_ne_nil h _

theorem namesOf_foldl {path : Text} (h : path ≠ []) (segs : List Text) :
    namesOf (segs.foldl joinPath path) = namesOf path++segs.flatMap segmentNames := by
  induction segs generalizing path with
  | nil => simp
  | cons seg segs ih =>
    rw [List.foldl_cons, ih (joinPath_ne_nil h seg), List.flatMap_cons, ← List.append_assoc,
      joinPath_eq h]
    congr 1
    exact List.splitOn_append_cons_self path (segmentText seg)

theorem pathMatchesAnyPrefix_iff {path : Text} {prefixes : List Text} :
    pathMatchesAnyPrefix path prefixes = true ↔ ∃ p ∈ prefixes, namesOf p <+: namesOf path := by
  rw [pathMatchesAnyPrefix, List.any_eq_true]
  apply exists_congr
  intro p
  apply and_congr_right
  intro _
  rw [namesOf, namesOf, Join.splitOn_prefix_iff, Bool.or_eq_true, Bool.or_eq_true, beq_iff_eq,
    List.isPrefixOf_iff_prefix, List.isPrefixOf_iff_prefix]
  constructor
  · rintro ((h | ⟨r,hr⟩) | ⟨r,hr⟩)
    · exact .inl h
    · exact .inr ⟨r,by rw [← hr, List.append_assoc]; rfl⟩
    · exact .inr ⟨'['::r,by rw [← hr, List.append_assoc]; rfl⟩
  · rintro (h | ⟨r,hr⟩)
    · exact .inl (.inl h)
    · exact .inl (.inr ⟨r,by rw [hr, List.append_assoc]; rfl⟩)

end Names

section Places

/-- The path of the tree that is compared. -/
def root : Text := "spec".toList

/-- The reference tokens from the document down to a place of the tree. -/
def placeTokens (p : Place) : List Text := root::p.map tokenText

/-- The names of a place. -/
def placeNames (p : Place) : List Text := root::(p.map tokenText).flatMap segmentNames

theorem namesOf_placePath (p : Place) : namesOf (placePath root p) = placeNames p := by
  have hfold : placePath root p = (p.map tokenText).foldl joinPath root := by
    rw [placePath, List.foldl_map]
  rw [hfold, namesOf_foldl (by decide)]
  rfl

theorem placePath_inj {p q : Place} :
    placePath root p = placePath root q ↔ placeNames p = placeNames q := by
  rw [← namesOf_placePath, ← namesOf_placePath]
  constructor
  · exact congrArg namesOf
  · intro h
    have hjoin (path : Text) : [ '.'].intercalate (namesOf path) = path :=
      List.intercalate_splitOn '.'
    rw [← hjoin (placePath root p), ← hjoin (placePath root q), h]

end Places

section Pointers

/-- Of a reference token: `~` and `/` are escaped. -/
def escapeToken (c : Char) : Text :=
  if c = '~' then "~0".toList else if c = '/' then "~1".toList else [c]

/-- A pointer of reference tokens as it is written. -/
def pointerText (tokens : List Text) : Text := tokens.flatMap fun t => '/'::t.flatMap escapeToken

/-- The segments that a written pointer is read as. -/
def pointerSegments (pointer : Text) : List Text :=
  ((trimPrefix '/' pointer).splitOn '/').map decodeJSONPointerSegment

/-- The names that a pointer's segments spell; empty ones in front are dropped. -/
def spelledNames (segs : List Text) : List Text :=
  match segs.dropWhile List.isEmpty with
  | [] => [[]]
  | seg::segs => namesOf seg++segs.flatMap segmentNames

theorem namesOf_pointer (pointer : Text) :
    namesOf (pointerToDotPath pointer) = spelledNames (pointerSegments pointer) := by
  have hfold : pointerToDotPath pointer = (pointerSegments pointer).foldl joinPath [] := by
    rw [pointerToDotPath, pointerSegments, List.foldl_map]
  rw [hfold]
  induction pointerSegments pointer with
  | nil => rfl
  | cons seg segs ih =>
    by_cases hseg : seg = []
    · rw [hseg]
      exact ih
    · have hempty : seg.isEmpty = false := by simpa using hseg
      have hjoin : joinPath [] seg = seg := by rw [joinPath, if_pos rfl]
      rw [List.foldl_cons, hjoin, namesOf_foldl hseg, spelledNames,
        List.dropWhile_cons_of_neg (by simp [hempty])]

/-- The names of the place go on from the names that the pointer spells. -/
def Hides (pointer : Text) (p : Place) : Prop :=
  trimSpace pointer ≠ [] ∧ spelledNames (pointerSegments (trimSpace pointer)) <+: placeNames p

instance (pointer : Text) (p : Place) : Decidable (Hides pointer p) :=
  inferInstanceAs (Decidable (_ ∧ _))

theorem filterIgnoredPaths_eq {f : Place → DriftEntry} (hf : ∀ p, (f p).path = placePath root p)
    (places : List Place) (pointers : List Text) : filterIgnoredPaths (places.map f) pointers =
      (places.filter fun p => ¬∃ pointer ∈ pointers, Hides pointer p).map f := by
  have hmatch : ∀ p, pathMatchesAnyPrefix (f p).path
      (((pointers.map trimSpace).filter (· ≠ [])).map pointerToDotPath) = true ↔
        ∃ pointer ∈ pointers, Hides pointer p := by
    intro p
    rw [pathMatchesAnyPrefix_iff, hf, namesOf_placePath]
    constructor
    · rintro ⟨dotted,hdotted,h⟩
      obtain ⟨text,htext,rfl⟩ := List.mem_map.mp hdotted
      obtain ⟨hmem,hne⟩ := List.mem_filter.mp htext
      obtain ⟨pointer,hpointer,rfl⟩ := List.mem_map.mp hmem
      exact ⟨pointer,hpointer,of_decide_eq_true hne,by rwa [← namesOf_pointer]⟩
    · rintro ⟨pointer,hpointer,hne,h⟩
      refine ⟨pointerToDotPath (trimSpace pointer),List.mem_map_of_mem ?_,by rwa [namesOf_pointer]⟩
      exact List.mem_filter.mpr ⟨List.mem_map_of_mem hpointer,decide_eq_true hne⟩
  rw [filterIgnoredPaths]
  split_ifs with hnil
  · rw [hnil]
    simp
  · rw [List.filter_map]
    congr 1
    apply List.filter_congr
    intro p _
    rw [Function.comp_apply, decide_not]
    congr 1
    rw [Bool.eq_iff_iff, hmatch, decide_eq_true_iff]

end Pointers

section Ambiguity

variable {desired live : Value} {pointers : List (List Text)}

/-- Some pointer addresses the place or one above it. -/
def Addressed (pointers : List (List Text)) (p : Place) : Prop :=
  ∃ tokens ∈ pointers, tokens <+: placeTokens p

instance (pointers : List (List Text)) (p : Place) : Decidable (Addressed pointers p) :=
  inferInstanceAs (Decidable (∃ tokens ∈ pointers, _))

/-- Where the trees differ, the names between the dots tell the places apart and tell the
places that are addressed from the others. -/
structure Unambiguous (desired live : Value) (pointers : List (List Text)) : Prop where
  places : ∀ p q, FirstDiffer desired live p → FirstDiffer desired live q →
    placeNames p = placeNames q → p = q
  ignored : ∀ p, FirstDiffer desired live p →
    ((∃ tokens ∈ pointers, Hides (pointerText tokens) p) ↔ Addressed pointers p)

/-- The entries of the places have distinct paths, and those are removed whose places are
addressed. -/
def IgnoresExactly (pointers : List (List Text)) (places : List Place) (entries : List DriftEntry) :
    Prop :=
  (entries.map DriftEntry.path).Nodup ∧
    filterIgnoredPaths entries (pointers.map pointerText) =
      ((places.zip entries).filter fun e => ¬Addressed pointers e.1).map Prod.snd

theorem entryAt_path (desired live : Value) (path : Text) (p : Place) :
    (entryAt path desired live p).path = placePath path p := by
  unfold entryAt
  split_ifs <;> rfl

theorem ignoresExactly_iff {places : List Place} (h : Lists places desired live) :
    IgnoresExactly pointers places (places.map (entryAt root desired live)) ↔
      Unambiguous desired live pointers := by
  have hpaths : (places.map (entryAt root desired live)).map DriftEntry.path =
      places.map (placePath root) := by
    rw [List.map_map]
    exact List.map_congr_left fun p _ => entryAt_path desired live root p
  have hfilter := filterIgnoredPaths_eq (entryAt_path desired live root)
    places (pointers.map pointerText)
  have hzip : ((places.zip (places.map (entryAt root desired live))).filter fun e =>
      ¬Addressed pointers e.1).map Prod.snd =
        (places.filter fun p => ¬Addressed pointers p).map (entryAt root desired live) := by
    rw [List.zip_map_right, List.zip_eq_zipWith, List.zipWith_self, List.map_map, List.filter_map,
      List.map_map]
    rfl
  rw [IgnoresExactly, hpaths, hfilter, hzip]
  constructor
  · rintro ⟨hnodup,hsame⟩
    have hinj := List.inj_on_of_nodup_map hnodup
    refine ⟨fun p q hp hq hnames => ?_,fun p hp => ?_⟩
    · exact hinj ((h.2 p).mpr hp) ((h.2 q).mpr hq) (placePath_inj.mpr hnames)
    · have hmem := (h.2 p).mpr hp
      have hkept : ∀ keep : Place → Bool,
          entryAt root desired live p ∈ (places.filter keep).map (entryAt root desired live) ↔
            keep p = true := by
        intro keep
        constructor
        · intro hin
          obtain ⟨q,hq,heq⟩ := List.mem_map.mp hin
          obtain ⟨hqmem,hkeep⟩ := List.mem_filter.mp hq
          have hpath := congrArg DriftEntry.path heq
          rw [entryAt_path, entryAt_path] at hpath
          exact hinj hqmem hmem hpath ▸ hkeep
        · exact fun hkeep => List.mem_map_of_mem (List.mem_filter.mpr ⟨hmem,hkeep⟩)
      have hiff := hkept fun p => ¬∃ pointer ∈ pointers.map pointerText, Hides pointer p
      rw [hsame, hkept, decide_eq_true_iff, decide_eq_true_iff, not_iff_not] at hiff
      simpa using hiff.symm
  · rintro ⟨hplaces,hignored⟩
    constructor
    · apply List.Nodup.map_on _ h.1
      intro p hp q hq hpath
      exact hplaces p q ((h.2 p).mp hp) ((h.2 q).mp hq) (placePath_inj.mp hpath)
    · congr 1
      apply List.filter_congr
      intro p hp
      rw [decide_eq_decide, not_iff_not, ← hignored p ((h.2 p).mp hp)]
      simp

end Ambiguity

end Radar.Drift
