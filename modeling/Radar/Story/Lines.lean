import Radar.Story.Spans

/-!
# The lines of a story

Which lines are fenced, blank or quoted does not depend on what is written for
their markers, the parser and the tokenizer tell them apart alike, and a
carriage return at the end of a line changes nothing.
-/

set_option autoImplicit false

namespace Radar.Story

open Radar.Scan Radar.CharRuns Radar.Runes
open Radar.Scan.Pattern

theorem trim_eq_nil {p : Char → Bool} {s : Text} : trim p s = [] ↔ s.all p = true := by
  rw [trim, List.rdropWhile_eq_nil_iff, List.all_eq_true]
  constructor
  · intro h c hc
    rw [← List.takeWhile_append_dropWhile (p := p) (l := s)] at hc
    rcases List.mem_append.mp hc with hc | hc
    · exact List.mem_takeWhile_imp hc
    · exact h c hc
  · exact fun h c hc => h c ((List.dropWhile_suffix p).subset hc)

section Shapes

variable {f g : Marker → Text}

/-- What is written for a marker starts with a bracket. -/
def Opens (f : Marker → Text) : Prop := ∀ m, ∃ rest, f m = '['::rest

theorem Opens.stops (h : Opens f) {p : Char → Bool} (hp : p '[' = false) : Stops p f := by
  intro m
  obtain ⟨rest,hm⟩ := h m
  exact ⟨_,rest,hm,hp⟩

theorem text_opens : Opens Marker.text := Marker.head

theorem canonical_opens (items : List CaseItemRequest) :
    Opens fun m => (canonical items m).text := fun m => (canonical items m).head

theorem takeWhile_render (hf : Opens f) (hg : Opens g) {p : Char → Bool} (hp : p '[' = false)
    (ts : List Span) : (render f ts).takeWhile p = (render g ts).takeWhile p := by
  rw [render_takeWhile (hf.stops hp), render_takeWhile (hg.stops hp), render_passing]

theorem head_render (hf : Opens f) (hg : Opens g) (ts : List Span) :
    (render f ts).head? = (render g ts).head? := by
  cases ts with
  | nil => rfl
  | cons t ts =>
    cases t with
    | inl c => rfl
    | inr m =>
      obtain ⟨rest,hm⟩ := hf m
      obtain ⟨rest',hm'⟩ := hg m
      rw [render_match, render_match, hm, hm']
      rfl

theorem head_dropWhile_render (hf : Opens f) (hg : Opens g) {p : Char → Bool} (hp : p '[' = false)
    (ts : List Span) : ((render f ts).dropWhile p).head? = ((render g ts).dropWhile p).head? := by
  rw [render_dropWhile (hf.stops hp), render_dropWhile (hg.stops hp)]
  exact head_render hf hg _

theorem quotedLineRe_eq (line : Text) :
    quotedLineRe line = (blockquoteRe line || indentedCodeRe line) := Bool.or_assoc ..

theorem quotedLineRe_render (hf : Opens f) (hg : Opens g) (ts : List Span) :
    quotedLineRe (render f ts) = quotedLineRe (render g ts) := by
  rw [quotedLineRe, quotedLineRe, takeWhile_render hf hg (by decide),
    head_dropWhile_render hf hg (by decide), head_render hf hg]

/-- The group of a fence: its characters, if there are enough. -/
theorem fenceRe_eq_some_iff {line run : Text} :
    fenceRe line = some run ↔ (line.takeWhile (· = ' ')).length ≤ 3 ∧ 3 ≤ run.length ∧
      ∃ c, (c = '`' ∨ c = '~') ∧ run = (line.dropWhile (· = ' ')).takeWhile (· = c) := by
  unfold fenceRe
  cases line.dropWhile (· = ' ') with
  | nil =>
    refine ⟨fun h => by simp at h,?_⟩
    rintro ⟨-,hlen,c,-,rfl⟩
    simp at hlen
  | cons c rest =>
    simp only [Option.ite_none_right_eq_some, Option.some.injEq]
    constructor
    · rintro ⟨⟨hindent,hc,hlen⟩,rfl⟩
      exact ⟨hindent,hlen,c,hc,rfl⟩
    · rintro ⟨hindent,hlen,d,hd,rfl⟩
      have hcd : c = d := by
        by_contra hne
        rw [List.takeWhile_cons_of_neg (by simpa using hne)] at hlen
        simp at hlen
      subst hcd
      exact ⟨⟨hindent,hd,hlen⟩,rfl⟩

theorem fenceRe_render (hf : Opens f) (hg : Opens g) (ts : List Span) :
    fenceRe (render f ts) = fenceRe (render g ts) := by
  ext run
  have hrun : ∀ c, (c = '`' ∨ c = '~') →
      ((render f ts).dropWhile (· = ' ')).takeWhile (· = c) =
        ((render g ts).dropWhile (· = ' ')).takeWhile (· = c) := by
    intro c hc
    have hbracket : decide ('[' = c) = false := by rcases hc with rfl | rfl <;> decide
    rw [render_dropWhile (hf.stops (by decide)), render_dropWhile (hg.stops (by decide))]
    exact takeWhile_render hf hg hbracket _
  rw [fenceRe_eq_some_iff, fenceRe_eq_some_iff, takeWhile_render hf hg (by decide)]
  have hchars : (∃ c, (c = '`' ∨ c = '~') ∧
      run = ((render f ts).dropWhile (· = ' ')).takeWhile (· = c)) ↔
        ∃ c, (c = '`' ∨ c = '~') ∧ run = ((render g ts).dropWhile (· = ' ')).takeWhile (· = c) := by
    refine exists_congr fun c => and_congr_right fun hc => ?_
    rw [hrun c hc]
  rw [hchars]

theorem blank_render (hf : Opens f) (hg : Opens g) {p : Char → Bool} (hp : p '[' = false)
    (ts : List Span) : trim p (render f ts) = [] ↔ trim p (render g ts) = [] := by
  rw [trim_eq_nil, trim_eq_nil, render_all (hf.stops hp), render_all (hg.stops hp)]

end Shapes

section Parser

variable (items : List CaseItemRequest) {st : LineState} {line : Text}

/-- Both take the same characters for white space. -/
def SameSpaces (s : Text) : Prop := ∀ c ∈ s, isSpace c = isWhiteSpace c

theorem sameSpaces {s : Text} (hnext : '\u0085' ∉ s) (hmark : '\ufeff' ∉ s) : SameSpaces s := by
  intro c hc
  have hnext' : c ≠ '\u0085' := fun h => hnext (h ▸ hc)
  have hmark' : c ≠ '\ufeff' := fun h => hmark (h ▸ hc)
  simp [isSpace, isWhiteSpace, hnext', hmark']

theorem SameSpaces.all {s t : Text} (h : SameSpaces s) (ht : t ⊆ s) :
    t.all isSpace = t.all isWhiteSpace := by
  rw [Bool.eq_iff_iff, List.all_eq_true, List.all_eq_true]
  exact forall₂_congr fun c hc => by rw [h c (ht hc)]

theorem takeWhile_spaces (line : Text) :
    line.length-(line.dropWhile (· = ' ')).length = (line.takeWhile (· = ' ')).length := by
  have h := congrArg List.length (List.takeWhile_append_dropWhile (p := (· = ' ')) (l := line))
  rw [List.length_append] at h
  omega

/-- The parser's test for a fence. -/
theorem fence_iff {run : Text} (line : Text) :
    fenceRe line = some run ↔
      (line.length-(line.dropWhile (· = ' ')).length ≤ 3 ∧
        3 ≤ leadingRun (line.dropWhile (· = ' ')) ∧
        ((line.dropWhile (· = ' ')).head? = some '`' ∨
          (line.dropWhile (· = ' ')).head? = some '~')) ∧
      run = List.replicate (leadingRun (line.dropWhile (· = ' ')))
        ((line.dropWhile (· = ' ')).headD '\x00') := by
  rw [takeWhile_spaces, fenceRe]
  cases line.dropWhile (· = ' ') with
  | nil => simp [leadingRun]
  | cons c rest =>
    have hrun : (c::rest).takeWhile (· = c) =
        List.replicate ((c::rest).takeWhile (· = c)).length c := by
      refine List.eq_replicate_iff.mpr ⟨rfl,fun d hd => ?_⟩
      exact of_decide_eq_true (List.mem_takeWhile_imp (p := (· = c)) hd)
    simp only [Option.ite_none_right_eq_some, Option.some.injEq, leadingRun, List.head?_cons,
      List.headD_cons, ← hrun]
    constructor
    · rintro ⟨⟨hindent,hc,hlen⟩,rfl⟩
      exact ⟨⟨hindent,hlen,hc⟩,rfl⟩
    · rintro ⟨⟨hindent,hlen,hc⟩,rfl⟩
      exact ⟨⟨hindent,hc,hlen⟩,rfl⟩

theorem canonicalLine_plain (h : fenceRe line = none) :
    canonicalLine items st line = canonicalProse items st line := by
  unfold canonicalLine
  rw [if_neg]
  intro hfence
  exact absurd ((fence_iff line).mpr ⟨hfence,rfl⟩) (by simp [h])

theorem canonicalLine_opens {run : Text} (h : fenceRe line = some run) (hlen : st.fenceLen = 0) :
    canonicalLine items st line =
      (line,{ fenceChar := run.headD '\x00', fenceLen := run.length, openRun := 0 }) := by
  obtain ⟨hfence,rfl⟩ := (fence_iff line).mp h
  have hlong := hfence.2.1
  unfold canonicalLine
  rw [if_pos hfence, if_pos hlen, List.length_replicate]
  obtain ⟨n,hn⟩ := Nat.exists_eq_add_of_lt (show 0 < leadingRun (line.dropWhile (· = ' ')) by omega)
  rw [hn]
  rfl

theorem canonicalProse_fenced (hlen : 0 < st.fenceLen) :
    canonicalProse items st line = (line,st) := by rw [canonicalProse, if_pos hlen]

/-- In a fence a line either closes it or is left. -/
theorem canonicalLine_fenced (hspaces : SameSpaces line) (hlen : 0 < st.fenceLen) :
    canonicalLine items st line =
      (line,if closes (List.replicate st.fenceLen st.fenceChar) line = true then
        { st with fenceChar := '\x00', fenceLen := 0 } else st) := by
  obtain ⟨n,hn⟩ : ∃ n, st.fenceLen = n+1 := ⟨_,(Nat.succ_pred_eq_of_pos hlen).symm⟩
  cases hfence : fenceRe line with
  | none =>
    have hopen : closes (List.replicate st.fenceLen st.fenceChar) line = false := by
      rw [closes, fenceCloseRe, hfence]
      rfl
    rw [canonicalLine_plain items hfence, canonicalProse_fenced items hlen, hopen]
    rfl
  | some run =>
    obtain ⟨htest,hrun⟩ := (fence_iff line).mp hfence
    generalize hrest : line.dropWhile (· = ' ') = rest at htest hrun
    have hsub : rest.drop run.length ⊆ line := by
      rw [← hrest]
      exact fun c hc => (List.dropWhile_suffix _).subset ((List.drop_suffix ..).subset hc)
    have hcloses : closes (List.replicate st.fenceLen st.fenceChar) line = true ↔
        rest.head? = some st.fenceChar ∧ st.fenceLen ≤ leadingRun rest ∧
          trimSpace (rest.drop (leadingRun rest)) = [] := by
      have hlong := htest.2.1
      obtain ⟨k,hk⟩ := Nat.exists_eq_add_of_lt (show 0 < leadingRun rest by omega)
      have hlength : run.length = leadingRun rest := by rw [hrun, List.length_replicate]
      have hhead : run.head? = rest.head? := by
        rw [hrun, hk]
        cases rest with
        | nil => simp [leadingRun] at hk
        | cons c rest => rfl
      rw [trimSpace, trim_eq_nil, ← hlength, hspaces.all hsub, closes, fenceCloseRe, hfence, hrest]
      by_cases hall : (rest.drop run.length).all isWhiteSpace = true
      · have hfirst : (List.replicate st.fenceLen st.fenceChar).head? = some st.fenceChar := by
          rw [hn, List.replicate_succ, List.head?_cons]
        simp only [Option.filter_some, hall, if_true, decide_eq_true_eq, Bool.and_eq_true, hhead,
          List.length_replicate, hfirst, and_true]
      · simp [Option.filter_some, hall]
    unfold canonicalLine
    rw [hrest, if_pos htest, if_neg (by omega)]
    by_cases hclose : closes (List.replicate st.fenceLen st.fenceChar) line = true
    · rw [if_pos (hcloses.mp hclose), if_pos hclose]
    · rw [if_neg (fun h => hclose (hcloses.mpr h)), if_neg hclose, canonicalProse_fenced items hlen]

/-- A line is left, or its live markers are made canonical. -/
theorem canonicalLine_writes (st : LineState) (line : Text) :
    (canonicalLine items st line).1 = line ∨ ∃ openRun, (canonicalLine items st line).1 =
      render (fun m => (canonical items m).text) (lineSpans openRun line) := by
  have hprose : (canonicalProse items st line).1 = line ∨ ∃ openRun,
      (canonicalProse items st line).1 =
        render (fun m => (canonical items m).text) (lineSpans openRun line) := by
    unfold canonicalProse
    split_ifs
    · exact .inl rfl
    · exact .inl rfl
    · exact .inl rfl
    · exact .inr ⟨st.openRun,by rw [rewriteOutsideCodeSpans_eq]⟩
  unfold canonicalLine
  dsimp only
  split_ifs
  · exact .inl rfl
  · exact .inl rfl
  · exact hprose
  · exact hprose

theorem canonicalLine_mem {c : Char} (hc : isMarkerChar c = false) :
    c ∈ (canonicalLine items st line).1 ↔ c ∈ line := by
  rcases canonicalLine_writes items st line with h | ⟨openRun,h⟩
  · rw [h]
  · rw [h, mem_render_outside hc, ← mem_render_outside (f := id) hc]
    show c ∈ render Marker.text _ ↔ _
    rw [lineSpans_text]

end Parser

section Return

variable (items : List CaseItemRequest) {st : LineState} {line : Text}

theorem takeWhile_stopped {p : Char → Bool} {c : Char} (hp : p c = false) (s : Text) :
    (s++[c]).takeWhile p = s.takeWhile p := by
  induction s with
  | nil => simp [hp]
  | cons d s ih => rw [List.cons_append, List.takeWhile_cons, List.takeWhile_cons, ih]

theorem dropWhile_stopped {p : Char → Bool} {c : Char} (hp : p c = false) (s : Text) :
    (s++[c]).dropWhile p = s.dropWhile p++[c] := by
  induction s with
  | nil => simp [hp]
  | cons d s ih =>
    rw [List.cons_append, List.dropWhile_cons, List.dropWhile_cons, ih]
    split_ifs <;> rfl

theorem fenceRe_return (line : Text) : fenceRe (line++['\r']) = fenceRe line := by
  ext run
  rw [fenceRe_eq_some_iff, fenceRe_eq_some_iff, takeWhile_stopped (by decide),
    dropWhile_stopped (by decide)]
  have hchars : (∃ c, (c = '`' ∨ c = '~') ∧
      run = (line.dropWhile (· = ' ')++['\r']).takeWhile (· = c)) ↔
        ∃ c, (c = '`' ∨ c = '~') ∧ run = (line.dropWhile (· = ' ')).takeWhile (· = c) := by
    refine exists_congr fun c => and_congr_right fun hc => ?_
    have hreturn : decide ('\r' = c) = false := by rcases hc with rfl | rfl <;> decide
    rw [takeWhile_stopped hreturn]
  rw [hchars]

theorem closes_return (fence line : Text) : closes fence (line++['\r']) = closes fence line := by
  rw [closes, closes, fenceCloseRe, fenceCloseRe, fenceRe_return]
  cases h : fenceRe line with
  | none => rfl
  | some run =>
    obtain ⟨-,-,c,-,hrun⟩ := fenceRe_eq_some_iff.mp h
    have hlen : run.length ≤ (line.dropWhile (· = ' ')).length := by
      rw [hrun]
      exact (List.takeWhile_prefix _).length_le
    have hrest : (((line++['\r']).dropWhile (· = ' ')).drop run.length).all isWhiteSpace =
        ((line.dropWhile (· = ' ')).drop run.length).all isWhiteSpace := by
      rw [dropWhile_stopped (by decide), List.drop_append_of_le_length hlen, List.all_append]
      simp [isWhiteSpace]
    rw [Option.filter_some, Option.filter_some, hrest]

theorem quotedLineRe_return (line : Text) :
    quotedLineRe (line++['\r']) = quotedLineRe line := by
  have hquote : ((line.dropWhile (· = ' ')++['\r']).head? = some '>') ↔
      (line.dropWhile (· = ' ')).head? = some '>' := by
    cases line.dropWhile (· = ' ') <;> simp
  have htab : ((line++['\r']).head? = some '\t') ↔ line.head? = some '\t' := by
    cases line <;> simp
  simp only [quotedLineRe, takeWhile_stopped (p := (· = ' ')) (c := '\r') (by decide),
    dropWhile_stopped (p := (· = ' ')) (c := '\r') (by decide), hquote, htab]

theorem segmentSpans_return (openRun : ℕ) (s : Text) :
    segmentSpans openRun (s++['\r']) = segmentSpans openRun s++[.inl '\r'] := by
  unfold segmentSpans
  split_ifs
  · exact scan_cut (text_outside (by decide)) s []
  · simp

theorem lineSpans_return (openRun : ℕ) (s : Text) :
    lineSpans openRun (s++['\r']) = lineSpans openRun s++[.inl '\r'] := by
  induction s using runs_induction '`' generalizing openRun with
  | free s hs =>
    have hmore : '`' ∉ s++['\r'] := by simp [hs]
    rw [lineSpans_free hs, lineSpans_free hmore, segmentSpans_return]
  | run before n rest hbefore hrest ih =>
    have hmore : (rest++['\r']).head? ≠ some '`' := by
      cases rest with
      | nil => simp
      | cons c rest => exact hrest
    rw [lineSpans_run hbefore hrest, List.append_assoc, List.append_assoc,
      lineSpans_run hbefore hmore, ih, List.append_assoc, List.append_assoc]

theorem codeSpanAfter_return (s : Text) (openRun : ℕ) :
    codeSpanAfter (s++['\r']) openRun = codeSpanAfter s openRun := by
  rw [codeSpanAfter_append (.inr (by simp)), codeSpanAfter_free (by simp)]

theorem canonicalProse_return :
    canonicalProse items st (line++['\r']) =
      ((canonicalProse items st line).1++['\r'],(canonicalProse items st line).2) := by
  have hblank : trimSpace (line++['\r']) = [] ↔ trimSpace line = [] := by
    rw [trimSpace, trimSpace, trim_eq_nil, trim_eq_nil, List.all_append, Bool.and_eq_true]
    exact and_iff_left (by decide)
  unfold canonicalProse
  by_cases hlen : 0 < st.fenceLen
  · rw [if_pos hlen, if_pos hlen]
  rw [if_neg hlen, if_neg hlen]
  by_cases hempty : trimSpace line = []
  · rw [if_pos hempty, if_pos (hblank.mpr hempty)]
  rw [if_neg hempty, if_neg fun h => hempty (hblank.mp h), quotedLineRe_return]
  split_ifs
  · rfl
  · simp only [rewriteOutsideCodeSpans_eq, lineSpans_return, codeSpanAfter_return]
    simp

/-- The parser treats a line alike with a carriage return at its end. -/
theorem canonicalLine_return (hspaces : SameSpaces line) :
    canonicalLine items st (line++['\r']) =
      ((canonicalLine items st line).1++['\r'],(canonicalLine items st line).2) := by
  by_cases hlen : st.fenceLen = 0
  · cases h : fenceRe line with
    | none =>
      rw [canonicalLine_plain items h, canonicalLine_plain items (by rw [fenceRe_return, h]),
        canonicalProse_return]
    | some run =>
      rw [canonicalLine_opens items h hlen,
        canonicalLine_opens items (by rw [fenceRe_return, h]) hlen]
  · have hmore : SameSpaces (line++['\r']) := by
      intro c hc
      rcases List.mem_append.mp hc with hc | hc
      · exact hspaces c hc
      · rw [List.mem_singleton.mp hc]
        decide
    rw [canonicalLine_fenced items hspaces (by omega), canonicalLine_fenced items hmore (by omega),
      closes_return]

end Return

section Split

variable (items : List CaseItemRequest) {st : LineState}

def dropReturn (line : Text) : Text := if line.getLast? = some '\r' then line.dropLast else line

/-- Without the return at the end of every line but the last. -/
def dropReturns : List Text → List Text
  | [] => []
  | [line] => [line]
  | line::next::lines => dropReturn line::dropReturns (next::lines)

theorem mem_splitOn {c : Char} {s line : Text} (h : line ∈ s.splitOn c) :
    c ∉ line ∧ line <:+: s := by
  induction s generalizing line with
  | nil =>
    rw [List.splitOn_nil, List.mem_singleton] at h
    rw [h]
    exact ⟨List.not_mem_nil,List.infix_rfl⟩
  | cons d s ih =>
    have hin : ∀ {l}, l <:+: s → l <:+: d::s := fun h => h.trans (List.suffix_cons d s).isInfix
    rw [List.splitOn_cons_eq_if_modifyHead] at h
    split_ifs at h with hd
    · rcases List.mem_cons.mp h with rfl | h
      · exact ⟨List.not_mem_nil,List.nil_infix⟩
      · exact ⟨(ih h).1,hin (ih h).2⟩
    · have hhead : ∃ rest, s = (s.splitOn c).headD []++rest := by
        have hjoin : [c].intercalate (s.splitOn c) = s := List.intercalate_splitOn c
        cases hs : s.splitOn c with
        | nil => exact absurd hs (List.splitOn_ne_nil c s)
        | cons l ls =>
          rw [hs] at hjoin
          cases ls with
          | nil => exact ⟨[],by rw [← hjoin]; simp⟩
          | cons m ls => exact ⟨[c]++[c].intercalate (m::ls),by rw [← hjoin]; simp⟩
      cases hs : s.splitOn c with
      | nil => exact absurd hs (List.splitOn_ne_nil c s)
      | cons l ls =>
        rw [hs, List.modifyHead_cons] at h
        rcases List.mem_cons.mp h with rfl | h
        · obtain ⟨rest,hrest⟩ := hhead
          rw [hs, List.headD_cons] at hrest
          refine ⟨fun hc => ?_,?_⟩
          · rcases List.mem_cons.mp hc with rfl | hc
            · exact hd (beq_self_eq_true _)
            · exact (ih (by rw [hs]; exact List.mem_cons_self)).1 hc
          · refine List.IsPrefix.isInfix ⟨rest,?_⟩
            rw [List.cons_append, ← hrest]
        · have hmem : line ∈ s.splitOn c := by
            rw [hs]
            exact List.mem_cons_of_mem l h
          exact ⟨(ih hmem).1,hin (ih hmem).2⟩

/-- The tokenizer's lines are those between the newlines, without the returns. -/
theorem splitLines_eq (s : Text) : splitLines s = dropReturns (s.splitOn '\n') := by
  induction s with
  | nil => rfl
  | cons c s ih =>
    rw [List.splitOn_cons_eq_if_modifyHead]
    by_cases hc : c = '\n'
    · subst hc
      rw [if_pos (beq_self_eq_true _), splitLines, ih]
      cases hs : s.splitOn '\n' with
      | nil => exact absurd hs (List.splitOn_ne_nil _ s)
      | cons l ls => rfl
    rw [if_neg (by simpa using hc)]
    cases hs : s.splitOn '\n' with
    | nil => exact absurd hs (List.splitOn_ne_nil _ s)
    | cons l ls =>
      rw [hs] at ih
      by_cases hreturn : c = '\r' ∧ ∃ rest, s = '\n'::rest
      · obtain ⟨rfl,rest,rfl⟩ := hreturn
        rw [List.splitOn_cons_eq_if_modifyHead, if_pos (beq_self_eq_true _)] at hs
        obtain ⟨rfl,rfl⟩ := List.cons.inj hs
        have hshort : splitLines ('\n'::rest) = []::splitLines rest := rfl
        have hlong : splitLines ('\r':: '\n'::rest) = []::splitLines rest := rfl
        rw [hshort] at ih
        rw [hlong, ih]
        cases hrest : rest.splitOn '\n' with
        | nil => exact absurd hrest (List.splitOn_ne_nil _ rest)
        | cons l ls => rfl
      · have hplain : splitLines (c::s) = (splitLines s).modifyHead (c::·) := by
          rw [splitLines]
          · exact hc
          · exact fun rest hreturn' hrest => hreturn ⟨hreturn',rest,hrest⟩
        rw [hplain, ih, List.modifyHead_cons]
        cases ls with
        | nil => rfl
        | cons next lines =>
          rw [dropReturns, dropReturns, List.modifyHead_cons]
          congr 1
          unfold dropReturn
          cases l with
          | nil =>
            have hnewline : s = '\n'::['\n'].intercalate (next::lines) := by
              have hjoin : ['\n'].intercalate (s.splitOn '\n') = s := List.intercalate_splitOn '\n'
              rw [← hjoin, hs]
              simp
            have hother : c ≠ '\r' := fun h => hreturn ⟨h,_,hnewline⟩
            simp [hother]
          | cons d l =>
            rw [List.getLast?_cons_cons]
            split_ifs <;> rfl

theorem splitLines_intercalate {lines : List Text} (hne : lines ≠ []) (h : ∀ l ∈ lines, '\n' ∉ l) :
    splitLines (['\n'].intercalate lines) = dropReturns lines := by
  rw [splitLines_eq, List.splitOn_intercalate '\n' h hne]

theorem last_render {f : Marker → Text} {g : Marker → Marker} (hf : ∀ m, f m = (g m).text)
    {ts : List Span} (h : (render f ts).getLast? = some '\r') : ts.getLast? = some (.inl '\r') := by
  induction ts using List.reverseRecOn with
  | nil => simp at h
  | append_singleton ts t _ =>
    rw [List.getLast?_concat]
    cases t with
    | inl c => simpa using h
    | inr m =>
      obtain ⟨rest,hm⟩ := (g m).head
      have htext : (render f [.inr m]).getLast? = some '\r' := by
        rwa [render_append, List.getLast?_append_of_ne_nil _ (by simp [hf, hm])] at h
      have hin : '\r' ∈ (g m).text := by
        rw [← hf]
        simpa using List.mem_of_getLast? htext
      exact absurd hin (Marker.not_mem (by decide))

theorem canonicalLine_last {line : Text}
    (h : (canonicalLine items st line).1.getLast? = some '\r') : line.getLast? = some '\r' := by
  rcases canonicalLine_writes items st line with hout | ⟨openRun,hout⟩
  · rwa [hout] at h
  · rw [hout] at h
    have hlast := last_render (g := canonical items) (fun _ => rfl) h
    rw [← lineSpans_text openRun line]
    obtain ⟨ts,hts⟩ := List.getLast?_eq_some_iff.mp hlast
    rw [hts, render_append]
    simp

theorem canonicalLine_dropReturn (st : LineState) {line : Text} (hspaces : SameSpaces line) :
    canonicalLine items st (dropReturn line) =
      (dropReturn (canonicalLine items st line).1,(canonicalLine items st line).2) := by
  by_cases hlast : line.getLast? = some '\r'
  · obtain ⟨body,rfl⟩ := List.getLast?_eq_some_iff.mp hlast
    have hbody : SameSpaces body := fun c hc => hspaces c (List.mem_append_left _ hc)
    rw [canonicalLine_return items hbody]
    simp [dropReturn]
  · rw [dropReturn, if_neg hlast, dropReturn,
      if_neg fun h => hlast (canonicalLine_last items h)]

theorem dropReturns_canonical {lines : List Text} (hspaces : ∀ line ∈ lines, SameSpaces line) :
    dropReturns (canonicalLines items st lines) = canonicalLines items st (dropReturns lines) := by
  induction lines generalizing st with
  | nil => rfl
  | cons line lines ih =>
    cases lines with
    | nil => rfl
    | cons next lines =>
      have hline := canonicalLine_dropReturn items st (hspaces line List.mem_cons_self)
      have hrest : dropReturns (canonicalLines items (canonicalLine items st line).2 (next::lines)) =
          canonicalLines items (canonicalLine items st line).2 (dropReturns (next::lines)) :=
        ih fun l hl => hspaces l (List.mem_cons_of_mem line hl)
      show _ = (canonicalLine items st (dropReturn line)).1::
        canonicalLines items (canonicalLine items st (dropReturn line)).2 (dropReturns (next::lines))
      rw [hline, ← hrest]
      rfl

/-- Nothing is rewritten where no ref marker opens. -/
theorem canonicalLines_plain {lines : List Text} (h : ∀ line ∈ lines, ¬refOpening <:+: line) :
    canonicalLines items st lines = lines := by
  induction lines generalizing st with
  | nil => rfl
  | cons line lines ih =>
    have hline : (canonicalLine items st line).1 = line := by
      rcases canonicalLine_writes items st line with hout | ⟨openRun,hout⟩
      · exact hout
      · rw [hout]
        nth_rewrite 2 [← lineSpans_text openRun line]
        refine render_congr fun m hm => ?_
        by_contra hne
        obtain ⟨k,rfl⟩ := exists_ref_of_canonical_ne fun heq => hne (by rw [heq])
        apply h line List.mem_cons_self
        have hin : k.wide.text <:+: line := by
          obtain ⟨before,after,hts⟩ := List.append_of_mem hm
          refine ⟨render Marker.text before,render Marker.text after,?_⟩
          rw [← lineSpans_text openRun line, hts, render_append, render_match, List.append_assoc]
        rw [← RefMarker.wide_text] at hin
        exact (List.prefix_append refOpening _).isInfix.trans hin
    rw [canonicalLines, hline, ih fun l hl => h l (List.mem_cons_of_mem line hl)]

/-- The early return changes nothing. -/
theorem canonicalStoryMarkers_eq (report : Text) :
    canonicalStoryMarkers report items =
      ['\n'].intercalate (canonicalLines items {} (report.splitOn '\n')) := by
  unfold canonicalStoryMarkers
  split_ifs with hopening
  · rfl
  · rw [canonicalLines_plain items fun line hline h => hopening (h.trans (mem_splitOn hline).2),
      List.intercalate_splitOn]

theorem canonicalLines_free {lines : List Text} (h : ∀ line ∈ lines, '\n' ∉ line) :
    ∀ line ∈ canonicalLines items st lines, '\n' ∉ line := by
  induction lines generalizing st with
  | nil => simp [canonicalLines]
  | cons line lines ih =>
    intro l hl
    rcases List.mem_cons.mp hl with rfl | hl
    · rw [canonicalLine_mem items (by decide)]
      exact h line List.mem_cons_self
    · exact ih (fun l hl => h l (List.mem_cons_of_mem line hl)) l hl

/-- The lines that the tokenizer reads are rewritten as those of the parser. -/
theorem splitLines_canonical {report : Text} (hspaces : SameSpaces report) :
    splitLines (canonicalStoryMarkers report items) =
      canonicalLines items {} (splitLines report) := by
  have hne : canonicalLines items {} (report.splitOn '\n') ≠ [] := by
    cases hlines : report.splitOn '\n' with
    | nil => exact absurd hlines (List.splitOn_ne_nil _ report)
    | cons line lines => simp [canonicalLines]
  rw [canonicalStoryMarkers_eq, splitLines_intercalate hne
      (canonicalLines_free items fun line hline => (mem_splitOn hline).1),
    dropReturns_canonical items fun line hline c hc =>
      hspaces c ((mem_splitOn hline).2.subset hc), splitLines_eq]

end Split

end Radar.Story
