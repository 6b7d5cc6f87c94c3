import Mathlib.Data.List.Forall2
import Radar.Story.Lines

/-!
# The parser and the tokenizer agree

What the tokenizer makes of a report that the parser has rewritten is what it
makes of the report when refs resolve to the one item that cites them: the same
segments, with the same links, and beside the links the same text.
-/

set_option autoImplicit false

namespace Radar.Story

open Radar.Scan Radar.CharRuns Radar.Runes
open Radar.Scan.Pattern

section Placements

theorem space_outside {c : Char} (h : isWhiteSpace c = true) : isMarkerChar c = false := by
  rcases Bool.or_eq_true_iff.mp h with h | h
  · have hall : [ '\t', '\n', '\x0b', '\x0c', '\r', ' ', '\u00a0', '\u1680', '\u2028', '\u2029',
        '\u202f', '\u205f', '\u3000', '\ufeff'].all (fun c => !isMarkerChar c) = true := by decide
    have hc := List.all_eq_true.mp hall c (of_decide_eq_true h)
    simpa using hc
  · have hlow : '\u2000' ≤ c := of_decide_eq_true (Bool.and_eq_true_iff.mp h).1
    have hhigh : 8192 ≤ c.val.toNat := UInt32.le_iff_toNat_le.mp hlow
    have halnum : c.isAlphanum = ((decide (65 ≤ c.val ∧ c.val ≤ 90) ||
      (decide (97 ≤ c.val) && decide (c.val ≤ 122))) ||
        (decide (48 ≤ c.val) && decide (c.val ≤ 57))) := rfl
    have hletter : c.isAlphanum = false := by
      rw [halnum]
      simp only [Bool.or_eq_false_iff, Bool.and_eq_false_iff, decide_eq_false_iff_not,
        UInt32.le_iff_toNat_le]
      have h90 : (90 : UInt32).toNat = 90 := rfl
      have h122 : (122 : UInt32).toNat = 122 := rfl
      have h57 : (57 : UInt32).toNat = 57 := rfl
      omega
    have hother : c ∉ [ '[', ']', '|', ':', '-', '=', '_'] := by
      intro hin
      have hsmall : [ '[', ']', '|', ':', '-', '=', '_'].all (fun c => decide (c < '\u2000')) =
        true := by decide
      exact absurd hlow (Char.not_le.mpr (of_decide_eq_true (List.all_eq_true.mp hsmall c hin)))
    simp only [isMarkerChar, hletter, hother, decide_false, Bool.or_self]

theorem spaces_outside {s : Text} (h : s.all isWhiteSpace = true) {c : Char} (hc : c ∈ s)
    (m : Marker) : c ∉ storyPlacementRe.text m :=
  text_outside (space_outside (List.all_eq_true.mp h c hc)) m

theorem blockPlacementRe_iff {line : Text} {m : Marker} :
    blockPlacementRe line = some m ↔ ∃ l r, l.all isWhiteSpace = true ∧
      r.all isWhiteSpace = true ∧ l.length ≤ 3 ∧ line = l++(m.text++r) := by
  constructor
  · intro h
    unfold blockPlacementRe at h
    split_ifs at h with hlen
    obtain ⟨hread,hrest⟩ := Option.filter_eq_some_iff.mp h
    obtain ⟨r,hr⟩ := (readMarker_iff _ _).mp hread
    refine ⟨_,r,List.all_takeWhile,?_,hlen,?_⟩
    · rwa [← hr, List.drop_left] at hrest
    · rw [hr, List.takeWhile_append_dropWhile]
  · rintro ⟨l,r,hl,hr,hlen,rfl⟩
    obtain ⟨rest,hm⟩ := m.head
    have htake : (l++(m.text++r)).takeWhile isWhiteSpace = l := by
      rw [hm, List.cons_append]
      exact takeWhile_stop hl (by simp [isWhiteSpace])
    have hdrop : (l++(m.text++r)).dropWhile isWhiteSpace = m.text++r := by
      have hsplit := List.takeWhile_append_dropWhile (p := isWhiteSpace) (l := l++(m.text++r))
      rw [htake] at hsplit
      exact List.append_cancel_left hsplit
    unfold blockPlacementRe
    rw [htake, if_pos hlen, hdrop, Option.filter_eq_some_iff]
    refine ⟨(readMarker_iff _ _).mpr (List.prefix_append _ _),?_⟩
    rwa [List.drop_left]

/-- A placement is scanned as one marker and white space around it. -/
theorem scan_placement {l r : Text} (hl : l.all isWhiteSpace = true) (hr : r.all isWhiteSpace = true)
    (m : Marker) :
    storyPlacementRe.scan (l++(m.text++r)) = l.map .inl++(.inr m::r.map .inl) := by
  have hbracket : '[' ∉ r := fun h => absurd (List.all_eq_true.mp hr _ h) (by decide)
  rw [scan_outside (fun c hc => spaces_outside hl hc), ← scan_free bracket_mem hbracket]
  exact congrArg (l.map .inl ++ ·) (scan_match (P := storyPlacementRe) m r)

theorem placement_free {line : Text} {m : Marker} (h : blockPlacementRe line = some m) :
    '`' ∉ line := by
  obtain ⟨l,r,hl,hr,-,rfl⟩ := blockPlacementRe_iff.mp h
  intro hin
  rcases List.mem_append.mp hin with hin | hin
  · exact absurd (List.all_eq_true.mp hl _ hin) (by decide)
  · rcases List.mem_append.mp hin with hin | hin
    · exact Marker.not_mem (by decide) hin
    · exact absurd (List.all_eq_true.mp hr _ hin) (by decide)

theorem map_inl_of_map {s : Text} {ts : List Span} {f : Marker → Marker}
    (h : ts.map (Sum.map id f) = s.map .inl) : ts = s.map .inl := by
  induction s generalizing ts with
  | nil => simpa using h
  | cons c s ih =>
    cases ts with
    | nil => simp at h
    | cons t ts =>
      obtain ⟨ht,hts⟩ := List.cons.inj h
      cases t with
      | inl d => rw [ih hts, ← Sum.inl.inj ht]; rfl
      | inr m => simp at ht

/-- A line is a placement exactly if the rewritten one is. -/
theorem placement_canonical (items : List CaseItemRequest) (line : Text) :
    blockPlacementRe (render (fun m => (canonical items m).text) (lineSpans 0 line)) =
      (blockPlacementRe line).map (canonical items) := by
  have hwritten : ∀ {l r : Text} {m : Marker},
      lineSpans 0 line = l.map .inl++(.inr m::r.map .inl) →
        line = l++(m.text++r) ∧ render (fun m => (canonical items m).text) (lineSpans 0 line) =
          l++((canonical items m).text++r) := by
    intro l r m hts
    rw [hts, render_append, render_match, render_chars, render_chars]
    refine ⟨?_,rfl⟩
    rw [← lineSpans_text 0 line, hts, render_append, render_match, render_chars, render_chars]
  have hcanonical := (lineSpans_canonical items line 0).1
  generalize hout : render (fun m => (canonical items m).text) (lineSpans 0 line) = out
    at hwritten hcanonical
  ext k
  rw [Option.map_eq_some_iff]
  constructor
  · intro h
    have hfree := placement_free h
    obtain ⟨l,r,hl,hr,hlen,hline⟩ := blockPlacementRe_iff.mp h
    have hscan := scan_placement hl hr k
    rw [← hline] at hscan
    rw [lineSpans_free hfree, segmentSpans, if_pos rfl, hscan] at hcanonical
    obtain ⟨before,rest,hts,hbefore,hrest⟩ := List.map_eq_append_iff.mp hcanonical.symm
    obtain ⟨t,after,rfl,ht,hafter⟩ := List.map_eq_cons_iff.mp hrest
    cases t with
    | inl c => simp at ht
    | inr m =>
      rw [map_inl_of_map hbefore, map_inl_of_map hafter] at hts
      exact ⟨m,blockPlacementRe_iff.mpr ⟨l,r,hl,hr,hlen,(hwritten hts).1⟩,Sum.inr.inj ht⟩
  · rintro ⟨m,h,rfl⟩
    have hfree := placement_free h
    obtain ⟨l,r,hl,hr,hlen,hline⟩ := blockPlacementRe_iff.mp h
    have hts : lineSpans 0 line = l.map .inl++(.inr m::r.map .inl) := by
      rw [lineSpans_free hfree, segmentSpans, if_pos rfl, hline, scan_placement hl hr]
    exact blockPlacementRe_iff.mpr ⟨l,r,hl,hr,hlen,(hwritten hts).2⟩

end Placements

section Texts

variable (items : List CaseItemRequest) {a b c d : Text}

def canonicalLink (m : Marker) : Text :=
  referenceLink (canonical items m) (markerIndex (some (resolve items)) m)

def resolvedLink (m : Marker) : Text := referenceLink m (markerIndex (some (resolve items)) m)

/-- The same characters and the same links, which may show the canonical marker for the written
one. -/
def SameText (a b : Text) : Prop :=
  ∃ ts : List Span, a = render (canonicalLink items) ts ∧ b = render (resolvedLink items) ts

inductive SameSegment : StorySegment → StorySegment → Prop where
  | prose {a b : Text} (h : SameText items a b) : SameSegment (.prose a) (.prose b)
  | placement (index : ℤ) (compact : Bool) :
    SameSegment (.placement index compact) (.placement index compact)

theorem canonicalLink_opens : Opens (canonicalLink items) := fun _ => ⟨_,rfl⟩

theorem resolvedLink_opens : Opens (resolvedLink items) := fun _ => ⟨_,rfl⟩

theorem referenceLink_closes (m : Marker) (index : ℤ) :
    ∃ rest, (referenceLink m index).reverse = ')'::rest := by
  refine ⟨('['::(m.text++("](".toList++storyReferenceHref index))).reverse,?_⟩
  rw [← List.reverse_concat]
  congr 1
  simp [referenceLink]

variable {items}

theorem SameText.refl (s : Text) : SameText items s s :=
  ⟨s.map .inl,by rw [render_chars],by rw [render_chars]⟩

theorem SameText.append (h : SameText items a b) (h' : SameText items c d) :
    SameText items (a++c) (b++d) := by
  obtain ⟨ts,rfl,rfl⟩ := h
  obtain ⟨us,rfl,rfl⟩ := h'
  exact ⟨ts++us,by rw [render_append],by rw [render_append]⟩

theorem SameText.nil_iff (h : SameText items a b) : a = [] ↔ b = [] := by
  obtain ⟨ts,rfl,rfl⟩ := h
  have hhead := head_render (canonicalLink_opens items) (resolvedLink_opens items) ts
  rw [← List.head?_eq_none_iff, hhead, List.head?_eq_none_iff]

theorem SameText.dropWhile (h : SameText items a b) {p : Char → Bool} (hp : p '[' = false) :
    SameText items (a.dropWhile p) (b.dropWhile p) := by
  obtain ⟨ts,rfl,rfl⟩ := h
  exact ⟨_,render_dropWhile ((canonicalLink_opens items).stops hp) ts,
    render_dropWhile ((resolvedLink_opens items).stops hp) ts⟩

theorem SameText.rdropWhile (h : SameText items a b) {p : Char → Bool} (hp : p ')' = false) :
    SameText items (a.rdropWhile p) (b.rdropWhile p) := by
  obtain ⟨ts,rfl,rfl⟩ := h
  have hstops : ∀ (m : Marker) (index : ℤ), ∃ c rest,
      (referenceLink m index).reverse = c::rest ∧ p c = false := by
    intro m index
    obtain ⟨rest,hm⟩ := referenceLink_closes m index
    exact ⟨_,rest,hm,hp⟩
  exact ⟨_,render_rdropWhile (fun m => hstops _ _) ts,render_rdropWhile (fun m => hstops _ _) ts⟩

theorem SameText.intercalate {as bs : List Text} (h : List.Forall₂ (SameText items) as bs)
    (s : Text) : SameText items (s.intercalate as) (s.intercalate bs) := by
  induction h with
  | nil => exact SameText.refl _
  | cons hab hrest ih =>
    cases hrest with
    | nil => simpa using hab
    | cons _ _ =>
      rw [List.intercalate_cons_cons, List.intercalate_cons_cons]
      exact (hab.append (SameText.refl s)).append ih

theorem SameText.markdownOf {as bs : List Text} (h : List.Forall₂ (SameText items) as bs) :
    SameText items (markdownOf as) (markdownOf bs) :=
  ((SameText.intercalate h ['\n']).dropWhile (by decide)).rdropWhile (by decide)

end Texts

section Simulation

variable {items : List CaseItemRequest}

/-- Two pages alike but for what their links show. -/
structure SamePage (items : List CaseItemRequest) (p q : Page) : Prop where
  prose : List.Forall₂ (SameText items) p.prose q.prose
  segments : List.Forall₂ (SameSegment items) p.segments q.segments

theorem SamePage.push {p q : Page} (h : SamePage items p q) {a b : Text}
    (hab : SameText items a b) : SamePage items (p.push a) (q.push b) where
  prose := List.rel_append h.prose (.cons hab .nil)
  segments := h.segments

theorem SamePage.place {p q : Page} (h : SamePage items p q) (index : ℤ) (compact : Bool) :
    SamePage items (p.place index compact) (q.place index compact) where
  prose := h.prose
  segments := List.rel_append h.segments (.cons (.placement index compact) .nil)

theorem SamePage.flush {p q : Page} (h : SamePage items p q) : SamePage items p.flush q.flush where
  prose := .nil
  segments := by
    have htext := SameText.markdownOf h.prose
    unfold Page.flush
    by_cases hnil : Radar.Story.markdownOf p.prose = []
    · rw [if_pos hnil, if_pos (htext.nil_iff.mp hnil)]
      exact h.segments
    · rw [if_neg hnil, if_neg fun hq => hnil (htext.nil_iff.mpr hq)]
      exact List.rel_append h.segments (.cons (.prose htext) .nil)

/-- The parser and the two runs of the tokenizer are at the same place. -/
structure Agree (items : List CaseItemRequest) (st : LineState) (t u : Tokenizer) : Prop where
  page : SamePage items t.toPage u.toPage
  fence : t.fence =
    if st.fenceLen = 0 then none else some (List.replicate st.fenceLen st.fenceChar)
  fence' : u.fence = t.fence
  openRun : t.openRun = st.openRun
  openRun' : u.openRun = st.openRun

theorem canonicalProse_open {st : LineState} (hlen : st.fenceLen = 0) (line : Text) :
    canonicalProse items st line =
      if trimSpace line = [] then (line,{ st with openRun := 0 })
      else if quotedLineRe line = true then (line,st)
      else (render (fun m => (canonical items m).text) (lineSpans st.openRun line),
        { st with openRun := codeSpanAfter line st.openRun }) := by
  rw [canonicalProse, if_neg (by omega), rewriteOutsideCodeSpans_eq]

/-- A line in a fence. -/
theorem agree_fenced {st : LineState} {t u : Tokenizer} {line : Text} (h : Agree items st t u)
    (hspaces : SameSpaces line) (hlen : 0 < st.fenceLen) :
    Agree items (canonicalLine items st line).2
      (t.step none (canonicalLine items st line).1) (u.step (some (resolve items)) line) := by
  have hfence : t.fence = some (List.replicate st.fenceLen st.fenceChar) := by
    rw [h.fence, if_neg (by omega)]
  have hsame : SameText items line line := SameText.refl line
  have hpage := h.page.push hsame
  rw [canonicalLine_fenced items hspaces hlen, Tokenizer.step, Tokenizer.step, h.fence', hfence]
  dsimp only
  split_ifs with hcloses
  · exact ⟨hpage,rfl,rfl,h.openRun,h.openRun'⟩
  · exact ⟨hpage,h.fence,h.fence',h.openRun,h.openRun'⟩

/-- A line that opens a fence. -/
theorem agree_opens {st : LineState} {t u : Tokenizer} {line run : Text} (h : Agree items st t u)
    (hlen : st.fenceLen = 0) (hrun : fenceRe line = some run) :
    Agree items (canonicalLine items st line).2
      (t.step none (canonicalLine items st line).1) (u.step (some (resolve items)) line) := by
  have hfence : t.fence = none := by rw [h.fence, if_pos hlen]
  have hline : SameText items line line := SameText.refl line
  have hpage := h.page.push hline
  obtain ⟨-,hlong,c,-,hchars⟩ := fenceRe_eq_some_iff.mp hrun
  have hsame : run = List.replicate run.length (run.headD '\x00') := by
    rw [List.eq_replicate_iff]
    refine ⟨rfl,fun d hd => ?_⟩
    have hall : ∀ e ∈ run, e = c := fun e he =>
      of_decide_eq_true (List.mem_takeWhile_imp (p := (· = c)) (hchars ▸ he))
    cases run with
    | nil => simp at hlong
    | cons e run => rw [List.headD_cons, hall d hd, hall e List.mem_cons_self]
  rw [canonicalLine_opens items hrun hlen, Tokenizer.step, Tokenizer.step, h.fence', hfence]
  simp only [hrun]
  refine ⟨hpage,?_,rfl,rfl,rfl⟩
  show some run = _
  rw [if_neg (show run.length ≠ 0 by omega), ← hsame]

/-- A line of prose. -/
theorem agree_prose {st : LineState} {t u : Tokenizer} {line : Text} (h : Agree items st t u)
    (hspaces : SameSpaces line) (hlen : st.fenceLen = 0) (hrun : fenceRe line = none) :
    Agree items (canonicalLine items st line).2
      (t.step none (canonicalLine items st line).1) (u.step (some (resolve items)) line) := by
  have hfence : t.fence = none := by rw [h.fence, if_pos hlen]
  have hblank : trim isWhiteSpace line = [] ↔ trimSpace line = [] := by
    rw [trimSpace, trim_eq_nil, trim_eq_nil, hspaces.all (List.Subset.refl line)]
  have htext : render Marker.text (lineSpans st.openRun line) = line := lineSpans_text _ _
  rw [canonicalLine_plain items hrun, canonicalProse_open hlen, Tokenizer.step, Tokenizer.step,
    h.fence', hfence]
  by_cases hempty : trimSpace line = []
  · rw [if_pos hempty]
    simp only [hrun, if_pos (hblank.mpr hempty)]
    exact ⟨h.page.flush,h.fence,h.fence',rfl,rfl⟩
  rw [if_neg hempty]
  have hmore : ¬trim isWhiteSpace line = [] := fun hnil => hempty (hblank.mp hnil)
  by_cases hquoted : quotedLineRe line = true
  · rw [if_pos hquoted]
    rw [quotedLineRe_eq] at hquoted
    simp only [hrun, if_neg hmore, hquoted, if_true]
    exact ⟨h.page.push (SameText.refl line),h.fence,h.fence',h.openRun,h.openRun'⟩
  rw [if_neg hquoted]
  dsimp only
  -- What the tokenizer asks of the line, it finds of the rewritten one.
  have hrun' := fenceRe_render (canonical_opens items) text_opens (lineSpans st.openRun line)
  have hmore' := blank_render (canonical_opens items) text_opens (p := isWhiteSpace) (by decide)
    (lineSpans st.openRun line)
  have hquoted' := quotedLineRe_render (canonical_opens items) text_opens (lineSpans st.openRun line)
  obtain ⟨hspans,hafter⟩ := lineSpans_canonical items line st.openRun
  have hplace := placement_canonical items line
  rw [htext] at hrun' hmore' hquoted'
  generalize hout : render (fun m => (canonical items m).text) (lineSpans st.openRun line) = out
    at hrun' hmore' hquoted' hspans hafter
  have hinline : SameText items (rewriteInlineMarkers out none st.openRun).1
      (rewriteInlineMarkers line (some (resolve items)) st.openRun).1 := by
    rw [rewriteInlineMarkers_eq, rewriteInlineMarkers_eq, hspans, render_map]
    refine ⟨lineSpans st.openRun line,?_,rfl⟩
    simp only [canonical_index]
    rfl
  have hquoted : (blockquoteRe line || indentedCodeRe line) = false := by
    rw [← quotedLineRe_eq]
    simpa using hquoted
  rw [quotedLineRe_eq, quotedLineRe_eq] at hquoted'
  simp only [hrun'.trans hrun, hrun, if_neg hmore, if_neg fun hnil => hmore (hmore'.mp hnil),
    hquoted, hquoted'.trans hquoted, Bool.false_eq_true, if_false, h.openRun, h.openRun']
  have hrest : Agree items { st with openRun := codeSpanAfter line st.openRun }
      { t.write (t.push (rewriteInlineMarkers out none st.openRun).1) with
        openRun := (rewriteInlineMarkers out none st.openRun).2 }
      { u.write (u.push (rewriteInlineMarkers line (some (resolve items)) st.openRun).1) with
        openRun := (rewriteInlineMarkers line (some (resolve items)) st.openRun).2 } := by
    refine ⟨h.page.push hinline,h.fence,h.fence',?_,?_⟩
    · rw [rewriteInlineMarkers_eq]
      exact hafter
    · rw [rewriteInlineMarkers_eq]
  by_cases hzero : st.openRun = 0
  · rw [if_pos hzero, if_pos hzero]
    rw [hzero] at hout
    rw [hout] at hplace
    cases hm : blockPlacementRe line with
    | none =>
      rw [hm, Option.map_none] at hplace
      rw [hplace]
      exact hrest
    | some m =>
      rw [hm, Option.map_some] at hplace
      rw [hplace]
      have hindex := canonical_index items m
      have hcompact := canonical_compact items m
      have hfree : codeSpanAfter line st.openRun = 0 := by
        rw [hzero, codeSpanAfter_free (placement_free hm)]
      rw [hfree]
      dsimp only
      rw [hindex, hcompact]
      exact ⟨h.page.flush.place _ _,h.fence,h.fence',rfl,rfl⟩
  · rw [if_neg hzero, if_neg hzero]
    exact hrest

theorem agree_step {st : LineState} {t u : Tokenizer} {line : Text} (h : Agree items st t u)
    (hspaces : SameSpaces line) :
    Agree items (canonicalLine items st line).2
      (t.step none (canonicalLine items st line).1) (u.step (some (resolve items)) line) := by
  by_cases hlen : st.fenceLen = 0
  · cases hrun : fenceRe line with
    | none => exact agree_prose h hspaces hlen hrun
    | some run => exact agree_opens h hlen hrun
  · exact agree_fenced h hspaces (by omega)

theorem agree_lines {st : LineState} {t u : Tokenizer} {lines : List Text}
    (h : Agree items st t u) (hspaces : ∀ line ∈ lines, SameSpaces line) :
    SamePage items ((canonicalLines items st lines).foldl (Tokenizer.step none) t).toPage
      (lines.foldl (Tokenizer.step (some (resolve items))) u).toPage := by
  induction lines generalizing st t u with
  | nil => exact h.page
  | cons line lines ih =>
    have hstep := agree_step h (hspaces line List.mem_cons_self)
    exact ih hstep fun l hl => hspaces l (List.mem_cons_of_mem line hl)

end Simulation

theorem mem_dropReturns {line : Text} {lines : List Text} (h : line ∈ dropReturns lines) :
    ∃ l ∈ lines, line ⊆ l := by
  induction lines with
  | nil => simp [dropReturns] at h
  | cons l lines ih =>
    cases lines with
    | nil => exact ⟨line,h,List.Subset.refl line⟩
    | cons next lines =>
      rcases List.mem_cons.mp h with rfl | h
      · refine ⟨l,List.mem_cons_self,?_⟩
        unfold dropReturn
        split_ifs
        · exact (List.dropLast_prefix l).subset
        · exact List.Subset.refl l
      · obtain ⟨k,hk,hin⟩ := ih h
        exact ⟨k,List.mem_cons_of_mem l hk,hin⟩

/-- The segments of the rewritten report, without a resolver, are those of the report when refs
resolve to the item that cites them. -/
theorem stories_agree (items : List CaseItemRequest) {report : Text} (hnext : '\u0085' ∉ report)
    (hmark : '\ufeff' ∉ report) :
    List.Forall₂ (SameSegment items) (splitStory (canonicalStoryMarkers report items) none)
      (splitStory report (some (resolve items))) := by
  have hspaces := sameSpaces hnext hmark
  have hlines : ∀ line ∈ splitLines report, SameSpaces line := by
    intro line hline c hc
    rw [splitLines_eq] at hline
    obtain ⟨l,hl,hin⟩ := mem_dropReturns hline
    exact hspaces c ((mem_splitOn hl).2.subset (hin hc))
  have hstart : Agree items {} {} {} := ⟨⟨.nil,.nil⟩,rfl,rfl,rfl,rfl⟩
  rw [splitStory, splitStory, splitLines_canonical items hspaces]
  exact (agree_lines hstart hlines).flush.segments

def citedPart : RefPart := ⟨List.replicate 26 'a',by decide,by decide⟩

def citedMarker : RefMarker := ⟨⟨citedPart,citedPart⟩,true⟩

def citedItem : CaseItemRequest := ⟨citedMarker.ref.text,.inr ⟨_,rfl⟩⟩

/-- A marker in a code span, and one behind it. -/
def citedReport : Text := "`".toList++(citedMarker.text++("` ".toList++citedMarker.text))

theorem stories_agree_cited : canonicalStoryMarkers citedReport [citedItem] ≠ citedReport ∧
    List.Forall₂ (SameSegment [citedItem])
      (splitStory (canonicalStoryMarkers citedReport [citedItem]) none)
      (splitStory citedReport (some (resolve [citedItem]))) :=
  ⟨by decide +kernel,stories_agree [citedItem] (by decide) (by decide)⟩

end Radar.Story
