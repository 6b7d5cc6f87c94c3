import Radar.Story.Resolve

/-!
# The live markers of a line

Outside code spans a line is scanned for markers. The parser cuts the line at
its backticks and then looks for markers, the tokenizer looks for markers and
then counts the backticks between them: both find the same.
-/

set_option autoImplicit false

namespace Radar.Story

open Radar.Scan Radar.CharRuns
open Radar.Scan.Pattern (render)

/-- A character as it is, or a live marker. -/
abbrev Span := Char ⊕ Marker

def segmentSpans (openRun : ℕ) (segment : Text) : List Span :=
  if openRun = 0 then storyPlacementRe.scan segment else segment.map .inl

def spansOf : List (Text × ℕ) → Text → ℕ → List Span
  | [], tail, openRun => segmentSpans openRun tail
  | (segment,run)::runs, tail, openRun =>
    segmentSpans openRun segment++((List.replicate run '`').map .inl++
      spansOf runs tail (toggle openRun run))

def lineSpans (openRun : ℕ) (line : Text) : List Span :=
  spansOf (splitRuns '`' line).1 (splitRuns '`' line).2 openRun

theorem text_outside {c : Char} (hc : isMarkerChar c = false) (m : Marker) :
    c ∉ storyPlacementRe.text m := Marker.not_mem hc

theorem bracket_mem (m : Marker) : '[' ∈ storyPlacementRe.text m := by
  obtain ⟨rest,h⟩ := m.head
  show '[' ∈ m.text
  rw [h]
  exact List.mem_cons_self

section Runs

variable {before rest : Text} {n : ℕ} (hbefore : '`' ∉ before) (hrest : rest.head? ≠ some '`')

theorem codeSpanAfter_free {s : Text} (h : '`' ∉ s) (openRun : ℕ) :
    codeSpanAfter s openRun = openRun := by rw [codeSpanAfter, splitRuns_free h]; rfl

include hbefore hrest in
theorem codeSpanAfter_run (openRun : ℕ) :
    codeSpanAfter (before++(List.replicate (n+1) '`'++rest)) openRun =
      codeSpanAfter rest (toggle openRun (n+1)) := by
  rw [codeSpanAfter, splitRuns_run n hbefore hrest]
  rfl

theorem lineSpans_free {s : Text} (h : '`' ∉ s) (openRun : ℕ) :
    lineSpans openRun s = segmentSpans openRun s := by rw [lineSpans, splitRuns_free h]; rfl

include hbefore hrest in
theorem lineSpans_run (openRun : ℕ) :
    lineSpans openRun (before++(List.replicate (n+1) '`'++rest)) =
      segmentSpans openRun before++((List.replicate (n+1) '`').map .inl++
        lineSpans (toggle openRun (n+1)) rest) := by
  rw [lineSpans, splitRuns_run n hbefore hrest]
  rfl

end Runs

theorem segmentSpans_text (openRun : ℕ) (segment : Text) :
    render Marker.text (segmentSpans openRun segment) = segment := by
  unfold segmentSpans
  split_ifs
  · exact Pattern.render_scan (P := storyPlacementRe) segment
  · exact Pattern.render_chars _ segment

theorem lineSpans_text (openRun : ℕ) (line : Text) :
    render Marker.text (lineSpans openRun line) = line := by
  induction line using runs_induction '`' generalizing openRun with
  | free s hs => rw [lineSpans_free hs, segmentSpans_text]
  | run before n rest hbefore hrest ih =>
    rw [lineSpans_run hbefore hrest, Pattern.render_append, Pattern.render_append,
      segmentSpans_text, Pattern.render_chars, ih]

/-- The parser rewrites the live markers. -/
theorem rewriteOutsideCodeSpans_eq (items : List CaseItemRequest) (line : Text) (openRun : ℕ) :
    rewriteOutsideCodeSpans line openRun (rewrite items) =
      (render (fun m => (canonical items m).text) (lineSpans openRun line),
        codeSpanAfter line openRun) := by
  have hsegment (openRun : ℕ) (segment : Text) :
      (if openRun = 0 then rewrite items segment else segment) =
        render (fun m => (canonical items m).text) (segmentSpans openRun segment) := by
    unfold segmentSpans
    split_ifs
    · exact rewrite_eq items segment
    · exact (Pattern.render_chars _ segment).symm
  induction line using runs_induction '`' generalizing openRun with
  | free s hs =>
    rw [rewriteOutsideCodeSpans, splitRuns_free hs, lineSpans_free hs, codeSpanAfter_free hs,
      ← hsegment]
    rfl
  | run before n rest hbefore hrest ih =>
    have hnext := ih (toggle openRun (n+1))
    rw [rewriteOutsideCodeSpans] at hnext
    rw [rewriteOutsideCodeSpans, splitRuns_run n hbefore hrest, lineSpans_run hbefore hrest,
      codeSpanAfter_run hbefore hrest, Pattern.render_append, Pattern.render_append,
      Pattern.render_chars, ← hsegment]
    simp only [rewriteSegments, hnext]

section Tokenizer

/-- Where the first text does not end, or the second start, in a run. -/
theorem codeSpanAfter_append {s t : Text} (h : s.getLast? ≠ some '`' ∨ t.head? ≠ some '`')
    (openRun : ℕ) : codeSpanAfter (s++t) openRun = codeSpanAfter t (codeSpanAfter s openRun) := by
  induction s using runs_induction '`' generalizing openRun with
  | free s hs =>
    rw [codeSpanAfter_free hs]
    induction t using runs_induction '`' with
    | free t ht =>
      rw [codeSpanAfter_free ht, codeSpanAfter_free]
      simp [hs, ht]
    | run before n rest hbefore hrest _ =>
      rw [codeSpanAfter_run hbefore hrest, ← List.append_assoc, codeSpanAfter_run _ hrest]
      simp [hs, hbefore]
  | run before n rest hbefore hrest ih =>
    rw [codeSpanAfter_run hbefore hrest, List.append_assoc, List.append_assoc]
    cases rest with
    | nil =>
      have ht : t.head? ≠ some '`' := by
        refine h.resolve_left (not_not.mpr ?_)
        simp [List.replicate_succ']
      rw [List.nil_append, codeSpanAfter_run hbefore ht, codeSpanAfter_free List.not_mem_nil]
    | cons c rest =>
      rw [codeSpanAfter_run hbefore (by simpa using hrest)]
      apply ih
      refine h.imp_left fun hlast => ?_
      simpa [List.getLast?_append, List.getLast?_cons] using hlast

variable (resolveRef : Option StoryRefResolver)

/-- The tokenizer's loop, with a text that it has read and not yet counted. -/
def rewriteRest (read : Text) (ts : List Span) (openRun : ℕ) : Text × ℕ :=
  rewriteMatches resolveRef (groups (read.map .inl++ts)).1 (groups (read.map .inl++ts)).2 openRun

theorem groups_chars (read : Text) (ts : List Span) :
    groups (read.map .inl++ts) =
      match groups ts with
      | ([],tail) => ([],read++tail)
      | ((before,m)::rest,tail) => ((read++before,m)::rest,tail) := by
  induction read with
  | nil =>
    rw [List.map_nil, List.nil_append]
    rcases groups ts with ⟨_ | ⟨_,_⟩,_⟩ <;> rfl
  | cons c read ih =>
    rw [List.map_cons, List.cons_append, groups, ih]
    rcases groups ts with ⟨_ | ⟨_,_⟩,_⟩ <;> rfl

theorem rewriteRest_nil (read : Text) (openRun : ℕ) :
    rewriteRest resolveRef read [] openRun = (read,codeSpanAfter read openRun) := by
  rw [rewriteRest, groups_chars]
  simp [groups, rewriteMatches]

theorem rewriteRest_char (read : Text) (c : Char) (ts : List Span) (openRun : ℕ) :
    rewriteRest resolveRef read (.inl c::ts) openRun =
      rewriteRest resolveRef (read++[c]) ts openRun := by
  rw [rewriteRest, rewriteRest, List.map_append, List.append_assoc]
  rfl

theorem rewriteRest_match (read : Text) (m : Marker) (ts : List Span) (openRun : ℕ) :
    rewriteRest resolveRef read (.inr m::ts) openRun =
      (read++((if 0 < codeSpanAfter read openRun then m.text
          else referenceLink m (markerIndex resolveRef m))++
        (rewriteRest resolveRef [] ts (codeSpanAfter read openRun)).1),
        (rewriteRest resolveRef [] ts (codeSpanAfter read openRun)).2) := by
  rw [rewriteRest, groups_chars]
  simp [groups, rewriteMatches, rewriteRest]

/-- What was read can be counted where no run is cut. -/
theorem rewriteRest_flush {read : Text} {ts : List Span}
    (h : read.getLast? ≠ some '`' ∨ ts.head? ≠ some (.inl '`')) (openRun : ℕ) :
    rewriteRest resolveRef read ts openRun =
      (read++(rewriteRest resolveRef [] ts (codeSpanAfter read openRun)).1,
        (rewriteRest resolveRef [] ts (codeSpanAfter read openRun)).2) := by
  have hmore (next : Text) (ts : List Span)
      (h : read.getLast? ≠ some '`' ∨ (next.map .inl++ts : List Span).head? ≠ some (.inl '`')) :
      rewriteRest resolveRef (read++next) ts openRun =
        (read++(rewriteRest resolveRef next ts (codeSpanAfter read openRun)).1,
          (rewriteRest resolveRef next ts (codeSpanAfter read openRun)).2) := by
    induction ts generalizing next with
    | nil =>
      rw [rewriteRest_nil, rewriteRest_nil, codeSpanAfter_append]
      cases next with
      | nil => exact .inr (by simp)
      | cons c next => simpa using h
    | cons t ts ih =>
      cases t with
      | inl c =>
        rw [rewriteRest_char, rewriteRest_char, List.append_assoc]
        exact ih (next++[c]) (by simpa using h)
      | inr m =>
        rw [rewriteRest_match, rewriteRest_match, codeSpanAfter_append, List.append_assoc]
        cases next with
        | nil => exact .inr (by simp)
        | cons c next => simpa using h
  have hall := hmore [] ts (by simpa using h)
  rwa [List.append_nil] at hall

/-- A span without a backtick. -/
def Plain (ts : List Span) : Prop := .inl '`' ∉ ts

/-- Spans without a backtick leave the open run, and their markers are live if it is none. -/
theorem rewriteRest_plain {read : Text} {ts : List Span} (hread : '`' ∉ read) (hts : Plain ts)
    (rest : List Span) (openRun : ℕ) :
    rewriteRest resolveRef read (ts++rest) openRun =
      (read++((if openRun = 0 then render (fun m => referenceLink m (markerIndex resolveRef m)) ts
          else render Marker.text ts)++(rewriteRest resolveRef [] rest openRun).1),
        (rewriteRest resolveRef [] rest openRun).2) := by
  induction ts generalizing read with
  | nil =>
    have hlast : read.getLast? ≠ some '`' := fun h => hread (List.mem_of_getLast? h)
    rw [List.nil_append, rewriteRest_flush resolveRef (.inl hlast), codeSpanAfter_free hread]
    simp
  | cons t ts ih =>
    have hrest : Plain ts := fun h => hts (List.mem_cons_of_mem t h)
    cases t with
    | inl c =>
      have hc : c ≠ '`' := by
        rintro rfl
        exact hts List.mem_cons_self
      have hmore : '`' ∉ read++[c] := by simp [hread, Ne.symm hc]
      rw [List.cons_append, rewriteRest_char, ih hmore hrest]
      split_ifs <;> simp
    | inr m =>
      rw [List.cons_append, rewriteRest_match, codeSpanAfter_free hread,
        ih List.not_mem_nil hrest]
      by_cases hzero : openRun = 0
      · simp [hzero]
      · simp [hzero, Nat.pos_of_ne_zero hzero]

theorem scan_head (s : Text) (h : s.head? ≠ some '`') :
    (storyPlacementRe.scan s).head? ≠ some (.inl '`') := by
  intro hhead
  have htext := Pattern.render_scan (P := storyPlacementRe) s
  cases hscan : storyPlacementRe.scan s with
  | nil =>
    rw [hscan] at hhead
    simp at hhead
  | cons t ts =>
    rw [hscan] at hhead htext
    obtain rfl := Option.some.inj hhead
    rw [← htext] at h
    exact h rfl

theorem scan_plain {s : Text} (h : '`' ∉ s) : Plain (storyPlacementRe.scan s) := by
  intro hin
  apply h
  have htext := Pattern.render_scan (P := storyPlacementRe) s
  rw [← htext, Pattern.render, List.mem_flatMap]
  exact ⟨_,hin,List.mem_singleton_self _⟩

/-- The tokenizer writes a live marker as a link. -/
theorem rewriteInlineMarkers_eq (line : Text) (openRun : ℕ) :
    rewriteInlineMarkers line resolveRef openRun =
      (render (fun m => referenceLink m (markerIndex resolveRef m)) (lineSpans openRun line),
        codeSpanAfter line openRun) := by
  have hrest : ∀ line openRun, rewriteInlineMarkers line resolveRef openRun =
      rewriteRest resolveRef [] (storyPlacementRe.scan line) openRun := fun _ _ => rfl
  have hsegment : ∀ (segment : Text) (openRun : ℕ),
      (if openRun = 0 then render (fun m => referenceLink m (markerIndex resolveRef m))
          (storyPlacementRe.scan segment)
        else render Marker.text (storyPlacementRe.scan segment)) =
      render (fun m => referenceLink m (markerIndex resolveRef m)) (segmentSpans openRun segment) := by
    intro segment openRun
    unfold segmentSpans
    split_ifs
    · rfl
    · rw [Pattern.render_chars]
      exact Pattern.render_scan (P := storyPlacementRe) segment
  rw [hrest]
  induction line using runs_induction '`' generalizing openRun with
  | free s hs =>
    have hplain := rewriteRest_plain resolveRef List.not_mem_nil (scan_plain hs) [] openRun
    rw [List.append_nil, List.nil_append, rewriteRest_nil, hsegment, List.append_nil,
      codeSpanAfter_free List.not_mem_nil] at hplain
    rw [hplain, lineSpans_free hs, codeSpanAfter_free hs]
  | run before n rest hbefore hhead ih =>
    have hchars : ∀ n, rewriteRest resolveRef []
        (List.replicate n (.inl '`') ++ storyPlacementRe.scan rest) openRun =
          rewriteRest resolveRef (List.replicate n '`') (storyPlacementRe.scan rest) openRun := by
      intro n
      rw [rewriteRest, rewriteRest, List.map_replicate]
      rfl
    have hrun : codeSpanAfter (List.replicate (n+1) '`') openRun = toggle openRun (n+1) := by
      have hnil := codeSpanAfter_run (n := n) List.not_mem_nil (by simp : ([] : Text).head? ≠ some '`')
        openRun
      rw [List.nil_append, List.append_nil] at hnil
      exact hnil
    rw [Pattern.scan_cuts (text_outside (by decide)), rewriteRest_plain resolveRef List.not_mem_nil
        (scan_plain hbefore), hsegment, hchars,
      rewriteRest_flush resolveRef (.inr (scan_head rest hhead)), hrun, ih,
      lineSpans_run hbefore hhead, codeSpanAfter_run hbefore hhead, Pattern.render_append,
      Pattern.render_append, Pattern.render_chars]
    rfl

end Tokenizer

section Canonical

variable (items : List CaseItemRequest)

/-- The characters of no marker come from the characters. -/
theorem mem_render_outside {c : Char} (hc : isMarkerChar c = false) {f : Marker → Marker}
    {ts : List Span} : c ∈ render (fun m => (f m).text) ts ↔ .inl c ∈ ts := by
  rw [Pattern.render, List.mem_flatMap]
  constructor
  · rintro ⟨t,ht,hin⟩
    cases t with
    | inl d =>
      obtain rfl := List.mem_singleton.mp hin
      exact ht
    | inr m => exact absurd hin (Marker.not_mem hc)
  · exact fun hin => ⟨_,hin,List.mem_singleton_self c⟩

theorem head_render_outside {c : Char} (hc : isMarkerChar c = false) {f : Marker → Marker}
    {ts : List Span} :
    (render (fun m => (f m).text) ts).head? = some c ↔ ts.head? = some (.inl c) := by
  cases ts with
  | nil => simp [Pattern.render]
  | cons t ts =>
    cases t with
    | inl d => simp [Pattern.render]
    | inr m =>
      obtain ⟨rest,h⟩ := (f m).head
      have hne : '[' ≠ c := by
        rintro rfl
        exact Bool.noConfusion hc
      simp [Pattern.render, h, hne]

/-- What is written for a line has the same live markers, each made canonical. -/
theorem lineSpans_canonical (line : Text) (openRun : ℕ) :
    lineSpans openRun (render (fun m => (canonical items m).text) (lineSpans openRun line)) =
        (lineSpans openRun line).map (Sum.map id (canonical items)) ∧
      codeSpanAfter (render (fun m => (canonical items m).text) (lineSpans openRun line)) openRun =
        codeSpanAfter line openRun := by
  have hsegment : ∀ (segment : Text) (openRun : ℕ),
      segmentSpans openRun (render (fun m => (canonical items m).text) (segmentSpans openRun segment)) =
        (segmentSpans openRun segment).map (Sum.map id (canonical items)) := by
    intro segment openRun
    unfold segmentSpans
    split_ifs
    · exact Pattern.scan_replaced story_separate (canonical items) segment
    · rw [Pattern.render_chars, List.map_map]
      rfl
  have hfree : ∀ {s : Text} (openRun : ℕ), '`' ∉ s →
      '`' ∉ render (fun m => (canonical items m).text) (segmentSpans openRun s) := by
    intro s openRun hs hin
    apply hs
    rw [← segmentSpans_text openRun s]
    exact (mem_render_outside (f := id) (by decide)).mpr
      ((mem_render_outside (by decide)).mp hin)
  induction line using runs_induction '`' generalizing openRun with
  | free s hs =>
    rw [lineSpans_free hs, lineSpans_free (hfree openRun hs), codeSpanAfter_free hs,
      codeSpanAfter_free (hfree openRun hs)]
    exact ⟨hsegment s openRun,rfl⟩
  | run before n rest hbefore hhead ih =>
    obtain ⟨hspans,hafter⟩ := ih (toggle openRun (n+1))
    have hnext : (render (fun m => (canonical items m).text)
        (lineSpans (toggle openRun (n+1)) rest)).head? ≠ some '`' := by
      rw [← lineSpans_text (toggle openRun (n+1)) rest] at hhead
      exact fun h => hhead ((head_render_outside (f := id) (by decide)).mpr
        ((head_render_outside (by decide)).mp h))
    rw [lineSpans_run hbefore hhead, Pattern.render_append, Pattern.render_append,
      Pattern.render_chars, lineSpans_run (hfree openRun hbefore) hnext, hsegment, hspans,
      codeSpanAfter_run (hfree openRun hbefore) hnext, hafter, codeSpanAfter_run hbefore hhead]
    rw [List.map_append, List.map_append, List.map_map]
    exact ⟨rfl,rfl⟩

end Canonical

end Radar.Story
