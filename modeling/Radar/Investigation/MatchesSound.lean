import Radar.Investigation.Matches

/-!
# A linked ref is one genuine read result

What the two passes leave under a call and under a ref is the list of what was
read for it. A match is valid when the list has one entry and the entry is
admissible, however the refs are placed in the log.
-/

set_option autoImplicit false

namespace Radar.Investigation

open Radar.Runes Radar.Story Radar.Keyed

section Turns

variable {events : List StreamEvent}

theorem getElem?_turnsFrom {t i : ℕ} {event : StreamEvent} (h : events[i]? = some event) :
    (turnsFrom t events)[i]? = some (t+turnOf events i) := by
  induction events generalizing t i with
  | nil => simp at h
  | cons e events ih =>
    rw [turnsFrom, turnOf, List.take_succ_cons, List.countP_cons]
    cases i with
    | zero =>
      by_cases he : e.type = .turn <;> simp [he]
    | succ i =>
      rw [List.getElem?_cons_succ] at h ⊢
      rw [ih h, turnOf]
      by_cases he : e.type = .turn
      · simp only [he, if_true, decide_true]
        congr 1
        omega
      · simp [he]

theorem getElem?_numbered {i : ℕ} {e : ℕ × StreamEvent} :
    ((turnsFrom 0 events).zip events)[i]? = some e ↔
      events[i]? = some e.2 ∧ e.1 = turnOf events i := by
  rw [List.getElem?_zip_eq_some]
  constructor
  · rintro ⟨hturn,hevent⟩
    rw [getElem?_turnsFrom hevent, Option.some_inj, Nat.zero_add] at hturn
    exact ⟨hevent,hturn.symm⟩
  · rintro ⟨hevent,hturn⟩
    rw [getElem?_turnsFrom hevent, Nat.zero_add, hturn]
    exact ⟨rfl,hevent⟩

theorem turnStart_le_iff {i : ℕ} (hi : i < events.length) :
    turnStart events ≤ i ↔ InCurrentTurn events i := by
  rw [turnStart]
  cases hfind : events.reverse.findIdx? (fun event => event.type = .turn) with
  | none =>
    simp only [List.findIdx?_eq_none_iff, List.mem_reverse, decide_eq_false_iff_not] at hfind
    constructor
    · intro h
      change events.length ≤ i at h
      omega
    · rintro ⟨j,-,event,hj,hturn,-⟩
      exact absurd hturn (hfind event (List.mem_of_getElem? hj))
  | some k =>
    obtain ⟨hk,hturn,hlast⟩ := List.findIdx?_eq_some_iff_getElem.mp hfind
    rw [List.length_reverse] at hk
    simp only [List.getElem_reverse, decide_eq_true_eq] at hturn hlast
    change events.length-k ≤ i ↔ _
    have hafter : ∀ m event, events.length-1-k < m → events[m]? = some event →
        event.type ≠ .turn := by
      intro m event hm hget
      obtain ⟨hlt,rfl⟩ := List.getElem?_eq_some_iff.mp hget
      have := hlast (events.length-1-m) (by omega)
      have hback : events.length-1-(events.length-1-m) = m := by omega
      simpa only [hback] using this
    constructor
    · intro h
      exact ⟨events.length-1-k,by omega,_,List.getElem?_eq_getElem (by omega),hturn,hafter⟩
    · rintro ⟨j,hj,event,hget,hevent,hnone⟩
      -- no marker follows the one at `j`, the last one included
      have hle : events.length-1-k ≤ j := by
        by_contra hgt
        exact hnone _ _ (by omega) (List.getElem?_eq_getElem (by omega)) hturn
      omega

end Turns

section Tools

variable {events : List StreamEvent} {turn : ℕ} {id tool : Text}

/-- What the first pass reads of an event: a call and its tool. -/
def readTool (e : ℕ × StreamEvent) : Option (StepKey × Text) :=
  e.2.step.bind fun step =>
    if e.2.type ≠ .step ∨ step.id = [] ∨ step.tool = [] then none
    else some ((e.1,step.id),normalizeToolName step.tool)

theorem noteTool_eq (tools : StepKey → ToolIdentity) (e : ℕ × StreamEvent) :
    noteTool tools e.1 e.2 = updateAt readTool ToolIdentity.note tools e := by
  rw [noteTool, updateAt, readTool]
  cases e.2.step with
  | none => rfl
  | some step =>
    simp only [Option.bind_some]
    split_ifs <;> rfl

/-- The tools named for a call, in their order. -/
def names (events : List StreamEvent) (key : StepKey) : List Text :=
  valuesAt readTool key ((turnsFrom 0 events).zip events)

theorem toolsByStep_eq (events : List StreamEvent) (key : StepKey) :
    toolsByStep events key = (names events key).foldl ToolIdentity.note {} := by
  rw [toolsByStep]
  simp only [noteTool_eq]
  exact foldl_updateAt ToolIdentity.note _ _ key

theorem stepAt_eq_some {i : ℕ} {step : StepInfo} :
    stepAt events i = some step ↔ events[i]? = some ⟨.step,some step⟩ := by
  rw [stepAt]
  cases events[i]? with
  | none => simp
  | some event =>
    obtain ⟨type,step'⟩ := event
    by_cases htype : type = .step <;> simp [htype]

theorem mem_names (hid : id ≠ []) :
    tool ∈ names events (turn,id) ↔ CallNames events turn id tool := by
  rw [names, mem_valuesAt]
  constructor
  · rintro ⟨e,he,hread⟩
    obtain ⟨j,hj⟩ := List.mem_iff_getElem?.mp he
    obtain ⟨hevent,hturn⟩ := getElem?_numbered.mp hj
    obtain ⟨t,type,step⟩ := e
    cases step with
    | none => nomatch hread
    | some step =>
      rw [readTool, Option.bind_some] at hread
      split_ifs at hread with hskip
      simp only [not_or, not_not] at hskip
      simp only [Option.some_inj, Prod.mk.injEq] at hread
      obtain ⟨⟨rfl,rfl⟩,rfl⟩ := hread
      obtain ⟨rfl,-,htool⟩ := hskip
      exact ⟨j,step,stepAt_eq_some.mpr hevent,hturn.symm,rfl,htool,rfl⟩
  · rintro ⟨j,step,hstep,rfl,rfl,htool,rfl⟩
    refine ⟨(turnOf events j,⟨.step,some step⟩),?_,?_⟩
    · exact List.mem_of_getElem? (getElem?_numbered.mpr ⟨stepAt_eq_some.mp hstep,rfl⟩)
    · simp [readTool, hid, htool]

theorem note_foldl (name : Text) (conflicts : Bool) (rest : List Text) :
    rest.foldl ToolIdentity.note ⟨name,true,conflicts⟩ =
      ⟨name,true,conflicts || rest.any fun other => name ≠ other⟩ := by
  induction rest generalizing conflicts with
  | nil => simp
  | cons other rest ih =>
    rw [List.foldl_cons, List.any_cons, ToolIdentity.note]
    by_cases hname : name = other
    · simpa [hname] using ih conflicts
    · simpa [hname] using ih true

/-- An identity stands where one tool alone was named. -/
theorem identity_iff (tools : List Text) (P : Text → Bool) :
    ((tools.foldl ToolIdentity.note {}).known && !(tools.foldl ToolIdentity.note {}).conflicts &&
        P (tools.foldl ToolIdentity.note {}).name) = true ↔
      ∃ tool ∈ tools, (∀ other ∈ tools, other = tool) ∧ P tool = true := by
  cases tools with
  | nil => simp
  | cons name rest =>
    have hfirst : (({} : ToolIdentity).note name) = ⟨name,true,false⟩ := rfl
    rw [List.foldl_cons, hfirst, note_foldl]
    simp only [Bool.false_or, Bool.true_and, Bool.and_eq_true, Bool.not_eq_true',
      List.any_eq_false, decide_eq_true_eq, not_not]
    constructor
    · rintro ⟨hrest,hP⟩
      refine ⟨name,List.mem_cons_self,fun other hother => ?_,hP⟩
      rcases List.mem_cons.mp hother with rfl | hother
      · rfl
      · exact (hrest other hother).symm
    · rintro ⟨tool,-,hall,hP⟩
      obtain rfl := hall name List.mem_cons_self
      exact ⟨fun other hother => (hall other (List.mem_cons_of_mem _ hother)).symm,hP⟩

end Tools

section Scopes

variable {d : Diagnosis}

theorem takeWhile_part {p : Text} (hp : p.all isBase32 = true) (t : Text) :
    (p++ '_'::t).takeWhile isBase32 = p := by
  rw [List.takeWhile_append_of_pos (List.all_eq_true.mp hp), List.takeWhile_cons_of_neg (by decide),
    List.append_nil]

/-- A well-formed ref carries a scope where its first part is the scope. -/
theorem carries_iff (scope : Text) (ref : Ref) :
    (validScope scope && (scopePrefix scope).isPrefixOf ref.text) = true ↔
      ref.first.text = scope := by
  rw [Bool.and_eq_true, List.isPrefixOf_iff_prefix, scopePrefix, Ref.text,
    List.prefix_append_right_inj]
  constructor
  · rintro ⟨hvalid,t,ht⟩
    rw [validScope, Bool.and_eq_true] at hvalid
    have hscope := takeWhile_part hvalid.1 t
    have hfirst := takeWhile_part ref.first.all ref.second.text
    have happend : scope++"_".toList++t = scope++ '_'::t := by simp
    rw [← ht, happend, hscope] at hfirst
    exact hfirst.symm
  · rintro rfl
    refine ⟨?_,ref.second.text,by simp⟩
    simp [validScope, ref.first.all, ref.first.long]

theorem authenticated_iff {ref : Ref} {current : Bool} {step : StepInfo}
    (href : step.evidenceRef = ref.text) :
    authenticated d current step = true ↔
      (current = true ∧ ref.first.text = d.evidenceScope ∧
          d.issuedEvidence ref.text = some step.result) ∨
        (current = false ∧ ref.first.text ≠ d.evidenceScope) := by
  have hcarries := carries_iff d.evidenceScope ref
  rw [authenticated, href]
  cases current with
  | true =>
    cases hissued : d.issuedEvidence ref.text with
    | none => simp
    | some payload =>
      simp only [if_true, true_and, Bool.true_eq_false, false_and, or_false, Option.some_inj]
      rw [Bool.and_eq_true, hcarries, beq_iff_eq]
      exact and_congr_right fun _ => eq_comm
  | false =>
    simp only [Bool.false_eq_true, if_false, false_and, false_or, true_and, ne_eq, ← hcarries]
    rw [← Bool.not_and, Bool.not_eq_true', Bool.not_eq_true]

end Scopes

section Matches

variable {events : List StreamEvent} {d : Diagnosis}

/-- What the second pass reads of an event: a ref and the judgement of its step. -/
def readCitation (d : Diagnosis) (tools : StepKey → ToolIdentity) (start : ℕ)
    (e : (ℕ × StreamEvent) × ℕ) : Option (Text × Bool) :=
  e.1.2.step.bind fun step =>
    if e.1.2.type ≠ .step ∨ step.evidenceRef = [] then none
    else some (step.evidenceRef,admissible d tools (decide (start ≤ e.2)) e.1.1 step)

def EvidenceMatch.cite (m : EvidenceMatch) (ok : Bool) : EvidenceMatch :=
  ⟨m.count+1,m.count+1 == 1 && ok⟩

theorem noteMatch_eq (tools : StepKey → ToolIdentity) (start : ℕ) (found : Text → EvidenceMatch)
    (e : (ℕ × StreamEvent) × ℕ) :
    noteMatch d tools start found e.1.1 e.1.2 e.2 =
      updateAt (readCitation d tools start) EvidenceMatch.cite found e := by
  rw [noteMatch, updateAt, readCitation]
  cases e.1.2.step with
  | none => rfl
  | some step =>
    simp only [Option.bind_some]
    split_ifs <;> rfl

theorem cite_foldl (oks : List Bool) :
    oks.foldl EvidenceMatch.cite {} = ⟨oks.length,decide (oks = [true])⟩ := by
  induction oks using List.reverseRecOn with
  | nil => rfl
  | append_singleton oks ok ih =>
    rw [List.foldl_append, ih, List.foldl_cons, List.foldl_nil, EvidenceMatch.cite]
    cases oks with
    | nil => cases ok <;> rfl
    | cons o oks => simp

theorem refLinked_iff_single (ref : Text) :
    refLinked events d ref = true ↔
      valuesAt (readCitation d (toolsByStep events) (turnStart events)) ref
        ((turnsFrom 0 events).zip events).zipIdx = [true] := by
  have hfold : runEvidenceMatches events d ref =
      (valuesAt (readCitation d (toolsByStep events) (turnStart events)) ref
        ((turnsFrom 0 events).zip events).zipIdx).foldl EvidenceMatch.cite {} := by
    rw [runEvidenceMatches]
    simp only [noteMatch_eq]
    exact foldl_updateAt EvidenceMatch.cite _ _ ref
  rw [refLinked, hfold, cite_foldl, Bool.and_eq_true, beq_iff_eq, decide_eq_true_eq]
  constructor
  · exact fun h => h.2
  · intro h
    exact ⟨by rw [h]; rfl,h⟩

theorem getElem?_indexed {i : ℕ} {e : (ℕ × StreamEvent) × ℕ} :
    (((turnsFrom 0 events).zip events).zipIdx)[i]? = some e ↔
      events[i]? = some e.1.2 ∧ e.1.1 = turnOf events i ∧ e.2 = i := by
  rw [List.getElem?_zipIdx, Option.map_eq_some_iff]
  constructor
  · rintro ⟨a,ha,rfl⟩
    obtain ⟨hevent,hturn⟩ := getElem?_numbered.mp ha
    exact ⟨hevent,hturn,Nat.zero_add i⟩
  · rintro ⟨hevent,hturn,hi⟩
    refine ⟨e.1,getElem?_numbered.mpr ⟨hevent,hturn⟩,?_⟩
    rw [Nat.zero_add, ← hi]

theorem readCitation_iff {tools : StepKey → ToolIdentity} {start i : ℕ} {ref : Ref} {ok : Bool} :
    (∃ e, (((turnsFrom 0 events).zip events).zipIdx)[i]? = some e ∧
        readCitation d tools start e = some (ref.text,ok)) ↔
      ∃ step, stepAt events i = some step ∧ step.evidenceRef = ref.text ∧
        admissible d tools (decide (start ≤ i)) (turnOf events i) step = ok := by
  have hne : ref.text ≠ [] := by simp [Ref.text]
  constructor
  · rintro ⟨⟨⟨t,type,step⟩,k⟩,he,hread⟩
    obtain ⟨hevent,hturn,hindex⟩ := getElem?_indexed.mp he
    change t = _ at hturn
    change k = i at hindex
    subst hturn hindex
    cases step with
    | none => cases hread
    | some step =>
      rw [readCitation, Option.bind_some] at hread
      split_ifs at hread with hskip
      rw [not_or, not_not] at hskip
      obtain ⟨rfl,-⟩ := hskip
      rw [Option.some_inj, Prod.mk.injEq] at hread
      exact ⟨step,stepAt_eq_some.mpr hevent,hread.1,hread.2⟩
  · rintro ⟨step,hstep,href,hok⟩
    refine ⟨((turnOf events i,⟨.step,some step⟩),i),
      getElem?_indexed.mpr ⟨stepAt_eq_some.mp hstep,rfl,rfl⟩,?_⟩
    simp [readCitation, href, hne, hok]

theorem admissible_iff {i : ℕ} {step : StepInfo} {ref : Ref} (hstep : stepAt events i = some step)
    (href : step.evidenceRef = ref.text) :
    admissible d (toolsByStep events) (decide (turnStart events ≤ i)) (turnOf events i) step = true ↔
      step.ReadResult ∧ step.id ≠ [] ∧
        (∃ tool, CallNames events (turnOf events i) step.id tool ∧
          (∀ other, CallNames events (turnOf events i) step.id other → other = tool) ∧
          isReadOnlyTool tool = true) ∧
        Authentic events d ref i step := by
  have hi : i < events.length := (List.getElem?_eq_some_iff.mp (stepAt_eq_some.mp hstep)).1
  have hauth : authenticated d (decide (turnStart events ≤ i)) step = true ↔
      Authentic events d ref i step := by
    rw [authenticated_iff href, decide_eq_true_eq, decide_eq_false_iff_not, turnStart_le_iff hi]
    rfl
  have htool (hid : step.id ≠ []) := identity_iff (names events (turnOf events i,step.id)) isReadOnlyTool
  simp only [← toolsByStep_eq, Bool.and_eq_true] at htool
  simp only [admissible, Bool.and_eq_true, hauth, decide_eq_true_eq, beq_iff_eq]
  constructor
  · rintro ⟨⟨⟨⟨⟨⟨⟨⟨⟨hauth,hradar⟩,hid⟩,hknown⟩,hconflicts⟩,hread⟩,hdone⟩,hsuccess⟩,hwhole⟩,hnonempty⟩
    obtain ⟨tool,hmem,hall,hread⟩ := (htool hid).mp ⟨⟨hknown,hconflicts⟩,hread⟩
    simp only [mem_names hid] at hmem hall
    exact ⟨⟨hdone,hsuccess,by simpa using hwhole,hnonempty,hradar⟩,hid,⟨tool,hmem,hall,hread⟩,hauth⟩
  · rintro ⟨hresult,hid,⟨tool,hmem,hall,hread⟩,hauth⟩
    simp only [← mem_names hid] at hmem hall
    obtain ⟨⟨hknown,hconflicts⟩,hread⟩ := (htool hid).mpr ⟨tool,hmem,hall,hread⟩
    exact ⟨⟨⟨⟨⟨⟨⟨⟨⟨hauth,hresult.radar⟩,hid⟩,hknown⟩,hconflicts⟩,hread⟩,hresult.done⟩,
      hresult.success⟩,by simpa using hresult.whole⟩,hresult.nonempty⟩

theorem refLinked_iff (ref : Ref) :
    refLinked events d ref.text = true ↔ Genuine events d ref := by
  rw [refLinked_iff_single, valuesAt_eq_singleton_iff, Genuine]
  constructor
  · rintro ⟨i,e,he,hread,halone⟩
    obtain ⟨step,hstep,href,hok⟩ := readCitation_iff.mp ⟨e,he,hread⟩
    refine ⟨i,step,hstep,href,fun j step' hstep' href' => ?_,(admissible_iff hstep href).mp hok⟩
    obtain ⟨e',he',hread'⟩ := readCitation_iff.mpr ⟨step',hstep',href',rfl⟩
    exact halone j e' _ he' hread'
  · rintro ⟨i,step,hstep,href,halone,hgenuine⟩
    obtain ⟨e,he,hread⟩ := readCitation_iff.mpr ⟨step,hstep,href,(admissible_iff hstep href).mpr hgenuine⟩
    refine ⟨i,e,he,hread,fun j e' ok he' hread' => ?_⟩
    obtain ⟨step',hstep',href',-⟩ := readCitation_iff.mp ⟨e',he',hread'⟩
    exact halone j step' hstep' href'

/-- An item of the bound verdict is linked where the item at its place is well formed
and its ref is genuine. -/
theorem evidence_linked_iff {i : ℕ} {e : EvidenceItem}
    (he : (bindRootCauseEvidence events d).verdict.evidence[i]? = some e) :
    e.status = .linked ↔
      ∃ item, d.citations.theCase.items[i]? = some (some item) ∧ Genuine events d item.ref := by
  have hevidence : (bindRootCauseEvidence events d).verdict.evidence =
      d.citations.theCase.items.map (bindItem (refLinked events d)) := by
    rw [bindRootCauseEvidence, bind, bindCase]
    by_cases hitems : d.citations.theCase.items = [] <;> simp [hitems]
  rw [hevidence, List.getElem?_map, Option.map_eq_some_iff] at he
  obtain ⟨item,hitem,rfl⟩ := he
  rw [hitem]
  cases item with
  | none => simp [bindItem]
  | some item =>
    simp only [Option.some_inj, exists_eq_left', ← refLinked_iff, bindItem]
    by_cases hlinked : refLinked events d item.ref.text = true <;> simp [hlinked, shown]

end Matches

end Radar.Investigation
