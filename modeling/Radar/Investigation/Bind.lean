import Radar.Investigation.ParseSound
import Radar.Story.Resolve

/-!
# Bound evidence

`Bind` promotes the agent's citations. An item is linked at the place where the
agent wrote it, what is not shown is counted, and a story marker that was
rewritten names the item whose ref it replaced.
-/

set_option autoImplicit false

namespace Radar.Investigation

open Radar.Scan Radar.CharRuns Radar.Runes Radar.Story
open Radar.Scan.Pattern (render)

section Model

variable (linked : Text → Bool)

def bindRootCause (v : Verdict) (request : ReferenceRequest) : Verdict :=
  { v with
    rootCauseEvidence :=
      if v.rootCause = [] then none
      else if request.invalid then some { status := .invalid }
      else if request.present = false ∨ request.refs = [] then some { status := .missing }
      else if request.refs.all linked then some { status := .linked, refs := request.refs }
      else some { status := .invalid } }

def shown (item : CaseItem) : EvidenceItem where
  status := .linked
  ref := item.ref.text
  role := some item.role
  claim := item.claim
  gap := item.gap
  subject := item.subject

def bindItem (item : Option CaseItem) : EvidenceItem :=
  match item with
  | some item => if linked item.ref.text then shown item else { status := .unlinked }
  | none => { status := .unlinked }

/-- The entry points at an item that is linked. -/
def stands (items : List EvidenceItem) (entry : RuledOut) : Bool :=
  (items[entry.evidenceIndex]?).any (·.status = .linked)

def bindCase (v : Verdict) (request : CaseRequest) : Verdict :=
  let items := request.items.map (bindItem linked)
  let unlinked := items.countP (·.status = .unlinked)
  if request.items = [] then
    { v with
      evidence := []
      ruledOut := []
      unlinkedEvidence := request.dropped
      evidenceMalformed := request.malformed }
  else
    { v with
      evidence := items
      ruledOut := request.ruledOut.filter (stands items)
      unlinkedEvidence := request.dropped+unlinked
      evidenceMalformed := request.malformed
      omittedEntries := v.omittedEntries+request.overflowRuledOut.countP (stands items) }

def bind (p : Parsed) : Verdict :=
  bindCase linked (bindRootCause linked p.verdict p.citations.rootCause) p.citations.theCase

end Model

section Spec

variable (J : Json) (linked : Text → Bool) (text : Text)

/-- The entries of the agent's evidence list. -/
def writtenItems : List Raw := (entries J (rawOf J text).evidence).getD []

/-- The well-formed hypotheses of the agent's list. -/
def hypotheses : List RuledOut :=
  ((entries J (rawOf J text).ruledOut).getD []).filterMap (parseRuledOut J)

/-- The story as the agent wrote it. -/
def storyOf : Text :=
  match lastBlock J (jsonBlockRe.scan (trimSpace text)) with
  | none => trimSpace text
  | some (before,fenced,rest) =>
    if (J.verdict fenced.block).isNone then trimSpace text
    else if trimSpace (render Fenced.text rest) ≠ [] then trimSpace (render Fenced.text rest)
    else trimSpace (jsonBlockRe.replaceAll (fun _ => []) (render Fenced.text before))

/-- The item that the agent wrote at a place within the cap, if it is well formed. -/
def itemAt (i : ℕ) : Option CaseItem :=
  (((writtenItems J text).take maxEvidenceItems)[i]?).bind (parseCaseItem J)

def indexMarker (i : ℕ) (compact : Bool) : Text :=
  "[[radar:evidence=".toList++((toString (i : ℤ)).toList++closing compact)

/-- One text is the other with index markers in the place of ref markers: each
names a place at which the agent's item carries the ref. -/
inductive Rewritten (item : ℕ → Option CaseItem) : Text → Text → Prop where
  | nil : Rewritten item [] []
  | char (c : Char) {s t : Text} (h : Rewritten item s t) : Rewritten item (c::s) (c::t)
  | marker (m : RefMarker) {i : ℕ} {cited : CaseItem} (hitem : item i = some cited)
      (href : cited.ref = m.ref) {s t : Text} (h : Rewritten item s t) :
      Rewritten item (m.text++s) (indexMarker i m.compact++t)

/-- The evidence of a bound verdict, in terms of what the agent wrote. -/
structure Bound (v : Verdict) : Prop where
  length : v.evidence.length = min (writtenItems J text).length maxEvidenceItems
  linked_iff : ∀ i e, v.evidence[i]? = some e →
    (e.status = .linked ↔ ∃ item, itemAt J text i = some item ∧ linked item.ref.text = true)
  carries : ∀ i e, v.evidence[i]? = some e → e.status = .linked →
    ∃ item, itemAt J text i = some item ∧ e = shown item
  empty : ∀ e ∈ v.evidence, e.status ≠ .linked → e = { status := .unlinked }
  rootCause : ∀ c, v.rootCauseEvidence = some c → c.status = .linked →
    v.rootCause ≠ [] ∧ J.refs (rawOf J text).evidenceRefs = some c.refs ∧
      1 ≤ c.refs.length ∧ c.refs.length ≤ maxRootCauseRefs ∧ c.refs.Nodup ∧
      ∀ ref ∈ c.refs, (∃ r : Ref, r.text = ref) ∧ linked ref = true
  ruledOut : v.ruledOut = ((hypotheses J text).take maxRuledOut).filter (stands v.evidence)
  ruledOut_length : v.ruledOut.length ≤ maxRuledOut
  ruledOut_linked : ∀ entry ∈ v.ruledOut,
    ∃ e, v.evidence[entry.evidenceIndex]? = some e ∧ e.status = .linked
  omitted : v.omittedEntries = (parse J text).verdict.omittedEntries+
    ((hypotheses J text).drop maxRuledOut).countP (stands v.evidence)
  unlinked : v.unlinkedEvidence+v.evidence.countP (·.status = .linked) =
    (writtenItems J text).length
  markers : Rewritten (itemAt J text) (storyOf J text) v.report

end Spec

section Markers

variable {item : ℕ → Option CaseItem}

theorem Rewritten.refl (s : Text) : Rewritten item s s := by
  induction s with
  | nil => exact .nil
  | cons c s ih => exact .char c ih

theorem Rewritten.append {a b s t : Text} (h : Rewritten item a b) (k : Rewritten item s t) :
    Rewritten item (a++s) (b++t) := by
  induction h with
  | nil => exact k
  | char c _ ih => exact .char c ih
  | marker m hitem href _ ih =>
    rw [List.append_assoc, List.append_assoc]
    exact .marker m hitem href ih

theorem Rewritten.intercalate {ls rs : List Text} (h : List.Forall₂ (Rewritten item) ls rs)
    (sep : Text) : Rewritten item (sep.intercalate ls) (sep.intercalate rs) := by
  induction h with
  | nil => exact .nil
  | cons hhead htail ih =>
    cases htail with
    | nil => simpa using hhead
    | cons =>
      rw [List.intercalate_cons_cons, List.intercalate_cons_cons]
      exact (hhead.append (.refl sep)).append ih

theorem ref_text_inj {r s : Ref} (h : r.text = s.text) : r = s := by
  have hread (r : Ref) : readRef r.text = some r := by
    have hstop := readRef_stop r (t := []) nofun
    rwa [List.append_nil] at hstop
  have hr := hread r
  rw [h, hread s] at hr
  exact (Option.some.inj hr).symm

theorem citing_item {items : List (Option CaseItem)} {r : Ref} {i : ℕ}
    (h : i ∈ citing (cited items) r.text) :
    ∃ item, items[i]? = some (some item) ∧ item.ref = r := by
  obtain ⟨entry,hentry,rfl⟩ := List.mem_map.mp h
  obtain ⟨hin,href⟩ := List.mem_filter.mp hentry
  have hplace : (cited items)[entry.2]? = some entry.1 := List.mem_zipIdx_iff_getElem?.mp hin
  rw [cited, List.getElem?_map, Option.map_eq_some_iff] at hplace
  obtain ⟨request,hrequest,heq⟩ := hplace
  have htext := of_decide_eq_true href
  rw [← heq] at htext
  cases request with
  | none => nomatch htext
  | some item => exact ⟨item,hrequest,ref_text_inj htext⟩

variable {items : List (Option CaseItem)} (hitems : ∀ i cited, items[i]? = some (some cited) →
  item i = some cited)

include hitems

theorem rewriteMarker_rewritten (m : RefMarker) :
    Rewritten item m.text (rewriteMarker (cited items) m) := by
  rw [rewriteMarker, indexByRef_eq]
  cases hciting : citing (cited items) m.ref.text with
  | nil => exact .refl m.text
  | cons i rest =>
    cases rest with
    | nil =>
      obtain ⟨cited,hplace,href⟩ := citing_item (r := m.ref) (by rw [hciting]; exact .head _)
      have hmarker := Rewritten.marker m (hitems i cited hplace) href .nil
      rw [List.append_nil, List.append_nil] at hmarker
      dsimp only
      rw [if_pos (by omega)]
      exact hmarker
    | cons j rest => exact .refl m.text

theorem rewrite_rewritten (s : Text) : Rewritten item s (rewrite (cited items) s) := by
  unfold rewrite
  induction s using storyRefMarkerRe.scan_induction with
  | nil => exact .nil
  | hmatch m s ih =>
    rw [Pattern.replaceAll, Pattern.scan_match, Pattern.render_match]
    exact (rewriteMarker_rewritten hitems m).append ih
  | char c s hread ih =>
    rw [Pattern.replaceAll, Pattern.scan_cons hread, Pattern.render_char]
    exact .char c ih

theorem rewriteOutsideCodeSpans_rewritten (line : Text) (openRun : ℕ) :
    Rewritten item line (rewriteOutsideCodeSpans line openRun (rewrite (cited items))).1 := by
  have hsegment (openRun : ℕ) (s : Text) :
      Rewritten item s (if openRun = 0 then rewrite (cited items) s else s) := by
    split_ifs
    · exact rewrite_rewritten hitems s
    · exact .refl s
  unfold rewriteOutsideCodeSpans
  induction line using runs_induction '`' generalizing openRun with
  | free s hs =>
    rw [splitRuns_free hs]
    exact hsegment openRun s
  | run before n rest hbefore hrest ih =>
    rw [splitRuns_run n hbefore hrest]
    exact (hsegment openRun before).append ((Rewritten.refl _).append (ih (toggle openRun (n+1))))

theorem canonicalLine_rewritten (st : LineState) (line : Text) :
    Rewritten item line (canonicalLine (cited items) st line).1 := by
  have hprose : Rewritten item line (canonicalProse (cited items) st line).1 := by
    unfold canonicalProse
    split_ifs
    · exact .refl line
    · exact .refl line
    · exact .refl line
    · exact rewriteOutsideCodeSpans_rewritten hitems line st.openRun
  unfold canonicalLine
  dsimp only
  split_ifs
  · exact .refl line
  · exact .refl line
  · exact hprose
  · exact hprose

theorem canonicalStoryMarkers_rewritten (report : Text) :
    Rewritten item report (canonicalStoryMarkers report (cited items)) := by
  have hlines : ∀ (lines : List Text) (st : LineState),
      List.Forall₂ (Rewritten item) lines (canonicalLines (cited items) st lines) := by
    intro lines
    induction lines with
    | nil => exact fun _ => .nil
    | cons line lines ih => exact fun st => .cons (canonicalLine_rewritten hitems st line) (ih _)
  unfold canonicalStoryMarkers
  split_ifs
  · have hreport := Rewritten.intercalate (hlines (report.splitOn '\n') {}) [ '\n']
    rwa [List.intercalate_splitOn] at hreport
  · exact .refl report

end Markers

section Items

variable (J : Json) (linked : Text → Bool)

theorem bindItem_linked_iff (item : Option CaseItem) : (bindItem linked item).status = .linked ↔
    ∃ c, item = some c ∧ linked c.ref.text = true := by
  cases item with
  | none => simp [bindItem]
  | some c => by_cases hlinked : linked c.ref.text = true <;> simp [bindItem, shown, hlinked]

theorem bindItem_cases (item : Option CaseItem) :
    (∃ c, item = some c ∧ linked c.ref.text = true ∧ bindItem linked item = shown c) ∨
      bindItem linked item = { status := .unlinked } := by
  cases item with
  | none => exact .inr rfl
  | some c =>
    by_cases hlinked : linked c.ref.text = true
    · exact .inl ⟨c,rfl,hlinked,if_pos hlinked⟩
    · exact .inr (if_neg hlinked)

theorem bindItem_count (items : List (Option CaseItem)) :
    (items.map (bindItem linked)).countP (·.status = .unlinked)+
      (items.map (bindItem linked)).countP (·.status = .linked) = items.length := by
  induction items with
  | nil => rfl
  | cons item items ih =>
    rw [List.map_cons, List.countP_cons, List.countP_cons, List.length_cons]
    obtain ⟨c,_,_,hshown⟩ | hnone := bindItem_cases linked item
    · simp only [hshown, shown, reduceCtorEq, decide_false, decide_true, Bool.false_eq_true,
        if_false, if_true]
      omega
    · simp only [hnone, reduceCtorEq, decide_false, decide_true, Bool.false_eq_true, if_false,
        if_true]
      omega

/-- Without items there is no early return to tell apart. -/
theorem bindCase_eq (v : Verdict) (request : CaseRequest) :
    bindCase linked v request =
      { v with
        evidence := request.items.map (bindItem linked)
        ruledOut := request.ruledOut.filter (stands (request.items.map (bindItem linked)))
        unlinkedEvidence := request.dropped+
          (request.items.map (bindItem linked)).countP (·.status = .unlinked)
        evidenceMalformed := request.malformed
        omittedEntries := v.omittedEntries+
          request.overflowRuledOut.countP (stands (request.items.map (bindItem linked))) } := by
  unfold bindCase
  dsimp only
  split_ifs with hnone
  · have hstands : stands [] = fun _ => false := by
      funext entry
      simp [stands]
    simp [hnone, hstands]
  · rfl

end Items

section Parsed

variable (J : Json) (linked : Text → Bool) (text : Text)

/-- A parsed text is prose, or what the block's fields make of it. -/
theorem parse_cases : (rawOf J text = {} ∧ storyOf J text = trimSpace text ∧
      parse J text = { verdict := { report := trimSpace text } }) ∨
    ∃ block before rest, parse J text = readVerdict J (rawOf J text) block before rest ∧
      storyOf J text = if rest ≠ [] then rest else before := by
  cases hlast : lastBlock J (jsonBlockRe.scan (trimSpace text)) with
  | none => exact .inl ⟨by simp [rawOf, hlast],by simp [storyOf, hlast],by simp [parse, hlast]⟩
  | some split =>
    obtain ⟨before,fenced,rest⟩ := split
    cases hverdict : J.verdict fenced.block with
    | none =>
      exact .inl ⟨by simp [rawOf, hlast, hverdict],by simp [storyOf, hlast, hverdict],
        by simp [parse, hlast, hverdict]⟩
    | some raw =>
      refine .inr ⟨fenced.block,
        trimSpace (jsonBlockRe.replaceAll (fun _ => []) (render Fenced.text before)),
        trimSpace (render Fenced.text rest),?_,?_⟩
      · simp [parse, rawOf, hlast, hverdict]
      · simp [storyOf, hlast, hverdict]

theorem parse_citations : (parse J text).citations =
    ⟨parseReferenceRequest J (rawOf J text).evidenceRefs,
      parseCaseRequest J (rawOf J text).evidence (rawOf J text).ruledOut⟩ := by
  obtain ⟨hraw,_,hparse⟩ | ⟨block,before,rest,hparse,_⟩ := parse_cases J text
  · rw [hparse, hraw]
    rfl
  · rw [hparse]
    rfl

theorem parse_items : (parse J text).citations.theCase.items =
    ((writtenItems J text).take maxEvidenceItems).map (parseCaseItem J) := by
  rw [parse_citations]
  rfl

theorem parse_ruledOut : (parse J text).citations.theCase.ruledOut =
      (hypotheses J text).take maxRuledOut ∧
    (parse J text).citations.theCase.overflowRuledOut = (hypotheses J text).drop maxRuledOut := by
  rw [parse_citations]
  exact Prod.mk.inj (capped_eq maxRuledOut (hypotheses J text))

theorem readVerdict_items (raw : RawVerdict) (block before rest : Text) :
    (readVerdict J raw block before rest).citations.theCase.items =
      (parseCaseRequest J raw.evidence raw.ruledOut).items := rfl

theorem parse_report : Rewritten (itemAt J text) (storyOf J text) (parse J text).verdict.report := by
  obtain ⟨_,hstory,hparse⟩ | ⟨block,before,rest,hparse,hstory⟩ := parse_cases J text
  · rw [hparse, hstory]
    exact .refl _
  · rw [hparse, hstory]
    apply canonicalStoryMarkers_rewritten
    intro i cited hplace
    rw [← readVerdict_items, ← hparse, parse_items, List.getElem?_map,
      Option.map_eq_some_iff] at hplace
    obtain ⟨entry,hentry,hcited⟩ := hplace
    rw [itemAt, hentry]
    exact hcited

/-- A request that carries refs carries those of the agent's list. -/
theorem parseReferenceRequest_refs {raw : Raw} (h : (parseReferenceRequest J raw).refs ≠ []) :
    J.refs raw = some (parseReferenceRequest J raw).refs ∧
      (parseReferenceRequest J raw).refs.length ≤ maxRootCauseRefs ∧
      (parseReferenceRequest J raw).refs.Nodup ∧
      ∀ ref ∈ (parseReferenceRequest J raw).refs, ∃ r : Ref, r.text = ref := by
  unfold parseReferenceRequest at h ⊢
  split_ifs at h ⊢ with habsent hnull
  · exact absurd rfl h
  · exact absurd rfl h
  · cases hrefs : J.refs raw with
    | none =>
      rw [hrefs] at h
      exact absurd rfl h
    | some refs =>
      simp only [hrefs] at h ⊢
      split_ifs at h ⊢ with hvalid
      · refine ⟨rfl,hvalid.1,hvalid.2.2,fun ref href => ?_⟩
        obtain ⟨r,hr⟩ := Option.isSome_iff_exists.mp (hvalid.2.1 ref href)
        exact ⟨r,of_decide_eq_true (Option.filter_eq_some_iff.mp hr).2⟩
      · exact absurd rfl h

theorem bind_evidence (p : Parsed) : (bind linked p).evidence =
    p.citations.theCase.items.map (bindItem linked) := by rw [bind, bindCase_eq]

theorem bind_place {i : ℕ} {e : EvidenceItem}
    (h : (bind linked (parse J text)).evidence[i]? = some e) :
    ∃ entry, ((writtenItems J text).take maxEvidenceItems)[i]? = some entry ∧
      e = bindItem linked (parseCaseItem J entry) := by
  rw [bind_evidence, parse_items, List.map_map, List.getElem?_map, Option.map_eq_some_iff] at h
  obtain ⟨entry,hentry,rfl⟩ := h
  exact ⟨entry,hentry,rfl⟩

/-- Evidence is bound where the agent wrote it, and every loss is counted. -/
theorem bind_bound : Bound J linked text (bind linked (parse J text)) := by
  obtain ⟨hkept,hover⟩ := parse_ruledOut J text
  have hruledOut : (bind linked (parse J text)).ruledOut =
      ((hypotheses J text).take maxRuledOut).filter
        (stands (bind linked (parse J text)).evidence) := by
    rw [bind_evidence, bind, bindCase_eq, hkept]
  constructor
  case length =>
    rw [bind_evidence, List.length_map, parse_items, List.length_map, List.length_take, min_comm]
  case linked_iff =>
    intro i e h
    obtain ⟨entry,hentry,rfl⟩ := bind_place J linked text h
    rw [bindItem_linked_iff, itemAt, hentry]
    rfl
  case carries =>
    intro i e h hstatus
    obtain ⟨entry,hentry,rfl⟩ := bind_place J linked text h
    rw [itemAt, hentry]
    obtain ⟨item,hitem,_,hshown⟩ | hnone := bindItem_cases linked (parseCaseItem J entry)
    · exact ⟨item,hitem,hshown⟩
    · rw [hnone] at hstatus
      nomatch hstatus
  case empty =>
    intro e h hstatus
    obtain ⟨i,hi⟩ := List.mem_iff_getElem?.mp h
    obtain ⟨entry,hentry,rfl⟩ := bind_place J linked text hi
    obtain ⟨item,_,_,hshown⟩ | hnone := bindItem_cases linked (parseCaseItem J entry)
    · exact absurd (by rw [hshown]; rfl) hstatus
    · exact hnone
  case rootCause =>
    intro c h hstatus
    have hrequest : (parse J text).citations.rootCause =
        parseReferenceRequest J (rawOf J text).evidenceRefs := by rw [parse_citations]
    rw [bind, bindCase_eq] at h ⊢
    simp only [bindRootCause, hrequest] at h ⊢
    split_ifs at h with hcause hinvalid hmissing hlinked
    · obtain rfl := Option.some.inj h
      nomatch hstatus
    · obtain rfl := Option.some.inj h
      nomatch hstatus
    · obtain rfl := Option.some.inj h
      have hsome := fun hempty => hmissing (.inr hempty)
      obtain ⟨hrefs,hlength,hnodup,hvalid⟩ := parseReferenceRequest_refs J hsome
      exact ⟨hcause,hrefs,List.length_pos_iff.mpr hsome,hlength,hnodup,fun ref href =>
        ⟨hvalid ref href,List.all_eq_true.mp hlinked ref href⟩⟩
    · obtain rfl := Option.some.inj h
      nomatch hstatus
  case ruledOut => exact hruledOut
  case ruledOut_length =>
    rw [hruledOut]
    exact (List.length_filter_le _ _).trans (List.length_take_le _ _)
  case ruledOut_linked =>
    intro entry hentry
    rw [hruledOut] at hentry
    have hstands := (List.mem_filter.mp hentry).2
    obtain ⟨e,he,hlinked⟩ := (Option.any_eq_true _ _).mp hstands
    exact ⟨e,he,of_decide_eq_true hlinked⟩
  case omitted =>
    rw [bind_evidence, bind, bindCase_eq, hover]
    rfl
  case unlinked =>
    have hdropped : (parse J text).citations.theCase.dropped =
        (writtenItems J text).length-maxEvidenceItems := by
      rw [parse_citations]
      rfl
    have hcount := bindItem_count linked (parse J text).citations.theCase.items
    have hlength : (parse J text).citations.theCase.items.length =
        min maxEvidenceItems (writtenItems J text).length := by
      rw [parse_items, List.length_map, List.length_take]
    rw [bind_evidence, bind, bindCase_eq, hdropped]
    dsimp only
    omega
  case markers =>
    have hreport : (bind linked (parse J text)).report = (parse J text).verdict.report := by
      rw [bind, bindCase_eq]
      rfl
    rw [hreport]
    exact parse_report J text

end Parsed

end Radar.Investigation
