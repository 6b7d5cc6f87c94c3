import Radar.Investigation.Parse

/-!
# What a parsed verdict says of the agent's lists

The step that Apply performs is the one the agent's index designates, in the
list the agent wrote, unless that list holds entries and none of them is a step.
-/

set_option autoImplicit false

namespace Radar.Investigation

open Radar.Scan Radar.Runes Radar.Story
open Radar.Scan.Pattern (render)

section Caps

variable {α β : Type*}

theorem capped_eq (cap : ℕ) (l : List α) : capped cap l = (l.take cap,l.drop cap) := by
  unfold capped
  induction l using List.reverseRecOn with
  | nil => simp
  | append_singleton l a ih =>
    rw [List.foldl_append, List.foldl_cons, List.foldl_nil, ih, List.take_append,
      List.drop_append, List.length_take]
    by_cases hlong : cap ≤ l.length
    · rw [if_pos (min_eq_left hlong), Nat.sub_eq_zero_of_le hlong, List.take_zero, List.drop_zero,
        List.append_nil]
    · have hroom : 1 ≤ cap-l.length := by omega
      rw [if_neg (by omega), List.take_of_length_le (l := [a]) hroom,
        List.drop_of_length_le (l := [a]) hroom, List.append_nil]

/-- What a place of the valid entries holds, and where it came from. -/
theorem filterMap_place {f : α → Option β} {l : List α} {n k o : ℕ} {b : β}
    (h : ((l.zipIdx n).filterMap fun entry => (f entry.1).map fun b => (b,entry.2))[k]? =
      some (b,o)) :
    ∃ before a rest, l = before++a::rest ∧ before.length+n = o ∧ f a = some b ∧
      (before.filterMap f).length = k := by
  induction l generalizing n k with
  | nil => nomatch h
  | cons a l ih =>
    rw [List.zipIdx_cons, List.filterMap_cons] at h
    cases ha : f a with
    | none =>
      simp only [ha, Option.map_none] at h
      obtain ⟨before,c,rest,rfl,hlength,hc,hcount⟩ := ih h
      refine ⟨a::before,c,rest,rfl,?_,hc,?_⟩
      · rw [List.length_cons]
        omega
      · rw [List.filterMap_cons_none ha, hcount]
    | some d =>
      simp only [ha, Option.map_some] at h
      cases k with
      | zero =>
        obtain ⟨rfl,rfl⟩ := Prod.mk.inj (Option.some.inj h)
        exact ⟨[],a,l,rfl,Nat.zero_add n,ha,rfl⟩
      | succ k =>
        obtain ⟨before,c,rest,rfl,hlength,hc,hcount⟩ := ih h
        refine ⟨a::before,c,rest,rfl,?_,hc,?_⟩
        · rw [List.length_cons]
          omega
        · rw [List.filterMap_cons_some ha, List.length_cons, hcount]

theorem filterMap_tagged (f : α → Option β) (l : List α) (n : ℕ) :
    ((l.zipIdx n).filterMap fun entry => (f entry.1).map fun b => (b,entry.2)).map (·.1) =
      l.filterMap f := by
  induction l generalizing n with
  | nil => rfl
  | cons a l ih =>
    rw [List.zipIdx_cons]
    cases ha : f a with
    | none => rw [List.filterMap_cons_none ha, List.filterMap_cons_none (by simp [ha]), ih]
    | some b =>
      rw [List.filterMap_cons_some ha, List.filterMap_cons_some (by simp [ha]; rfl),
        List.map_cons, ih]

end Caps

section Headline

theorem trim_length_le (s : Text) : (trimSpace s).length ≤ s.length :=
  (List.rdropWhile_prefix _ _).length_le.trans (List.dropWhile_suffix _).length_le

theorem clampSummary_short (value : Text) (limit : ℕ) :
    ∃ t : Text, t.length ≤ limit ∧
      (clampSummary value limit = t ∨ clampSummary value limit = t++[ '…']) := by
  have hcut (i : ℕ) : (trimSpace ((value.take limit).take i)).length ≤ limit :=
    (trim_length_le _).trans ((List.length_take_le' _ _).trans (List.length_take_le _ _))
  unfold clampSummary
  split_ifs with hlong
  · exact ⟨value,hlong,.inl rfl⟩
  · dsimp only
    split
    · exact ⟨_,hcut _,.inl rfl⟩
    · split
      · exact ⟨_,hcut _,.inr rfl⟩
      · exact ⟨_,(trim_length_le _).trans (List.length_take_le _ _),.inr rfl⟩

end Headline

section Steps

theorem translate_origin {stepOrigins : List ℕ} {r : ℤ} {k : ℕ}
    (h : translate stepOrigins r = k+1) : ∃ o : ℕ, stepOrigins[k]? = some o ∧ (o : ℤ) = r-1 := by
  unfold translate at h
  induction stepOrigins using List.reverseRecOn with
  | nil => nomatch h
  | append_singleton origins o ih =>
    rw [List.zipIdx_append, List.foldl_append, List.zipIdx_singleton, List.foldl_cons,
      List.foldl_nil] at h
    by_cases ho : (o : ℤ) = r-1
    · rw [if_pos ho] at h
      refine ⟨o,?_,ho⟩
      have hk : k = origins.length := by simpa using h.symm
      rw [hk, List.getElem?_concat_length]
    · rw [if_neg ho] at h
      obtain ⟨p,hp,hr⟩ := ih h
      refine ⟨p,?_,hr⟩
      have hlt := (List.getElem?_eq_some_iff.mp hp).1
      rw [List.getElem?_append_left hlt, hp]

end Steps

section Spec

variable (J : Json)

/-- The fields of the block that is the verdict. -/
def rawOf (text : Text) : RawVerdict :=
  ((lastBlock J (jsonBlockRe.scan (trimSpace text))).bind fun block =>
    J.verdict block.2.1.block).getD {}

def validSteps (raw : RawVerdict) : List Step := (rawSteps J raw.steps).filterMap (readStep J)

def openItems (raw : RawVerdict) : List Text := (raw.unresolved.map trimSpace).filter (· ≠ [])

/-- The entry at the agent's index, from 1, in the steps it wrote: a mitigation
without precondition, which is the one at `idx`, from 1, in the verdict. -/
def NamesStep (raw : RawVerdict) (v : Verdict) (r : ℤ) (idx : ℕ) : Prop :=
  ∃ before entry rest step, rawSteps J raw.steps = before++entry::rest ∧
    (before.length : ℤ) = r-1 ∧ readStep J entry = some step ∧
    idx = (before.filterMap (readStep J)).length+1 ∧ v.steps[idx-1]? = some step ∧
    v.remediation[idx-1]? = some step.text ∧ step.kind = .mitigate ∧ step.precondition = []

/-- What the recommended index names in the list that the agent wrote. -/
def Designated (raw : RawVerdict) (v : Verdict) (r : ℤ) (idx : ℕ) : Prop :=
  1 ≤ idx ∧ idx ≤ v.remediation.length ∧
    if rawSteps J raw.steps ≠ [] then NamesStep J raw v r idx
    else v.steps = [] ∧ v.remediation = raw.remediation ∧ (idx : ℤ) = r

/-- The caps on the lists of an answer and on its headline, which a cut marks. -/
structure Within (p : Parsed) : Prop where
  steps : p.verdict.steps.length ≤ maxSteps
  unresolved : p.verdict.unresolved.length ≤ maxUnresolved
  items : p.citations.theCase.items.length ≤ maxEvidenceItems
  ruledOut : p.citations.theCase.ruledOut.length ≤ maxRuledOut
  refs : p.citations.rootCause.refs.length ≤ maxRootCauseRefs
  summary : ∃ t : Text, t.length ≤ maxSummaryRunes ∧
    (p.verdict.summary = t ∨ p.verdict.summary = t++[ '…'])

/-- A verdict does not contradict itself, and tells what the caps left out. -/
structure Settled (raw : RawVerdict) (p : Parsed) : Prop where
  cause_healthy : ¬(p.verdict.rootCause ≠ [] ∧ p.verdict.healthy = true)
  cause_inconclusive : ¬(p.verdict.rootCause ≠ [] ∧ p.verdict.inconclusive = true)
  healthy_inconclusive : ¬(p.verdict.healthy = true ∧ p.verdict.inconclusive = true)
  established : p.verdict.certainty = some .established → p.verdict.unresolved = []
  certainty : p.verdict.certainty ≠ none → p.verdict.summary ≠ []
  remediation : p.verdict.steps ≠ [] → p.verdict.remediation = p.verdict.steps.map (·.text)
  steps : p.verdict.steps <+: validSteps J raw
  unresolved : p.verdict.unresolved <+: openItems raw
  omitted : p.verdict.omittedEntries =
    ((validSteps J raw).length-p.verdict.steps.length)+
      ((openItems raw).length-p.verdict.unresolved.length)
  caps : Within p

/-- A parsed answer, in terms of what the agent wrote. -/
structure Consistent (text : Text) (p : Parsed) : Prop where
  prose : (∀ fenced, .inr fenced ∈ jsonBlockRe.scan (trimSpace text) →
    isVerdictBlock J fenced.block = false) → p = { verdict := { report := trimSpace text } }
  settled : Settled J (rawOf J text) p
  recommended : ∀ idx, p.verdict.recommendedIndex = some idx →
    ∃ r, (rawOf J text).recommendedIndex = some r ∧ Designated J (rawOf J text) p.verdict r idx

/-- Steps are written and none is one, and the index is one of the remediation's. -/
def Strays (raw : RawVerdict) : Prop :=
  rawSteps J raw.steps ≠ [] ∧ validSteps J raw = [] ∧
    ∃ r, raw.recommendedIndex = some r ∧ 1 ≤ r ∧ r ≤ raw.remediation.length

end Spec

section Parsed

variable (J : Json)

theorem parseStepsIndexed_steps (raw : RawVerdict) :
    (parseStepsIndexed J raw.steps).1 = (validSteps J raw).take maxSteps := by
  unfold parseStepsIndexed validSteps
  simp only [capped_eq, List.map_take, filterMap_tagged]

theorem parseStepsIndexed_omitted (raw : RawVerdict) :
    (parseStepsIndexed J raw.steps).2.2 =
      (validSteps J raw).length-(parseStepsIndexed J raw.steps).1.length := by
  rw [parseStepsIndexed_steps]
  unfold parseStepsIndexed validSteps
  simp only [capped_eq, List.length_drop, List.length_take]
  have hlength := congrArg List.length (filterMap_tagged (readStep J) (rawSteps J raw.steps) 0)
  rw [List.length_map] at hlength
  omega

/-- The place that a translated index names, and where its entry came from. -/
theorem translate_names {raw : RawVerdict} {r : ℤ} {k : ℕ}
    (h : translate (parseStepsIndexed J raw.steps).2.1 r = k+1) :
    ∃ before entry rest step, rawSteps J raw.steps = before++entry::rest ∧
      (before.length : ℤ) = r-1 ∧ readStep J entry = some step ∧
      (before.filterMap (readStep J)).length = k ∧
      (parseStepsIndexed J raw.steps).1[k]? = some step := by
  obtain ⟨o,ho,hr⟩ := translate_origin h
  unfold parseStepsIndexed at ho ⊢
  simp only [capped_eq, List.getElem?_map, Option.map_eq_some_iff] at ho ⊢
  obtain ⟨⟨step,origin⟩,hentry,rfl⟩ := ho
  have hplace := hentry
  rw [List.getElem?_take] at hplace
  split_ifs at hplace
  obtain ⟨before,entry,rest,hwritten,hlength,hstep,hcount⟩ := filterMap_place hplace
  refine ⟨before,entry,rest,step,hwritten,?_,hstep,hcount,_,hentry,rfl⟩
  rw [← hr, ← hlength, Nat.add_zero]

section Read

variable (raw : RawVerdict) (block before rest : Text)

theorem readVerdict_within : Within (readVerdict J raw block before rest) where
  steps := by
    show (parseStepsIndexed J raw.steps).1.length ≤ maxSteps
    rw [parseStepsIndexed_steps]
    exact List.length_take_le _ _
  unresolved := by
    show (capped maxUnresolved (openItems raw)).1.length ≤ maxUnresolved
    rw [capped_eq]
    exact List.length_take_le _ _
  items := by
    show (((entries J raw.evidence).getD []).take maxEvidenceItems |>.map (parseCaseItem J)).length ≤
      maxEvidenceItems
    rw [List.length_map]
    exact List.length_take_le _ _
  ruledOut := by
    show (capped maxRuledOut _).1.length ≤ maxRuledOut
    rw [capped_eq]
    exact List.length_take_le _ _
  refs := by
    show (parseReferenceRequest J raw.evidenceRefs).refs.length ≤ maxRootCauseRefs
    unfold parseReferenceRequest
    split_ifs
    · exact Nat.zero_le _
    · exact Nat.zero_le _
    · split
      · exact Nat.zero_le _
      · split_ifs with hrefs
        · exact hrefs.1
        · exact Nat.zero_le _
  summary := clampSummary_short _ _

theorem settleFlags_cases (rootCause : Text) (steps : List Step) (remediation : List Text)
    (healthy inconclusive : Bool) :
    let flags := settleFlags rootCause steps remediation healthy inconclusive
    (rootCause ≠ [] → flags = (false,false)) ∧ ¬(flags.1 = true ∧ flags.2 = true) := by
  unfold settleFlags
  split_ifs with hcause hinconclusive
  · exact ⟨fun _ => rfl,by simp⟩
  · exact ⟨fun h => absurd (.inl h) hcause,by simp⟩
  · exact ⟨fun h => absurd (.inl h) hcause,fun h => hinconclusive h.2⟩

theorem settleCertainty_cases (certainty : Option Certainty) (unresolved : List Text) :
    (settleCertainty certainty unresolved = some .established → unresolved = []) ∧
      (settleCertainty certainty unresolved ≠ none → certainty ≠ none) := by
  unfold settleCertainty
  split_ifs with h
  · exact ⟨nofun,fun _ => by rw [h.1]; nofun⟩
  · exact ⟨fun hestablished => by_contra fun hopen => h ⟨hestablished,hopen⟩,id⟩

theorem readVerdict_settled : Settled J raw (readVerdict J raw block before rest) := by
  have hflags := settleFlags_cases (stripStoryMarkers raw.rootCause)
    (parseStepsIndexed J raw.steps).1
    (readVerdict J raw block before rest).verdict.remediation (raw.healthy.getD false)
    (raw.inconclusive.getD false)
  have hopen : (readVerdict J raw block before rest).verdict.unresolved =
      (openItems raw).take maxUnresolved := by
    show (capped maxUnresolved (openItems raw)).1 = _
    rw [capped_eq]
  constructor
  case cause_healthy =>
    rintro ⟨hcause,hhealthy⟩
    have hnone := congrArg Prod.fst (hflags.1 hcause)
    exact Bool.false_ne_true (hnone.symm.trans hhealthy)
  case cause_inconclusive =>
    rintro ⟨hcause,hinconclusive⟩
    have hnone := congrArg Prod.snd (hflags.1 hcause)
    exact Bool.false_ne_true (hnone.symm.trans hinconclusive)
  case healthy_inconclusive => exact hflags.2
  case established => exact (settleCertainty_cases _ _).1
  case certainty =>
    intro h
    have hknown := (settleCertainty_cases _ _).2 h
    exact of_not_not fun hempty => hknown (if_neg hempty)
  case remediation =>
    intro h
    exact if_pos h
  case steps =>
    show (parseStepsIndexed J raw.steps).1 <+: _
    rw [parseStepsIndexed_steps]
    exact List.take_prefix _ _
  case unresolved =>
    rw [hopen]
    exact List.take_prefix _ _
  case omitted =>
    rw [hopen]
    show (capped maxUnresolved (openItems raw)).2.length+(parseStepsIndexed J raw.steps).2.2 =
      ((validSteps J raw).length-(parseStepsIndexed J raw.steps).1.length)+
        ((openItems raw).length-((openItems raw).take maxUnresolved).length)
    rw [capped_eq, parseStepsIndexed_omitted, List.length_drop, List.length_take]
    omega
  case caps => exact readVerdict_within J raw block before rest

theorem recommend_eq_some {steps : List Step} {stepOrigins : List ℕ} {remediation : List Text}
    {recommended : Option ℤ} {idx : ℕ}
    (h : recommend steps stepOrigins remediation recommended = some idx) :
    ∃ r, recommended = some r ∧ 1 ≤ r ∧ 1 ≤ idx ∧ idx ≤ remediation.length ∧
      applicable steps idx = true ∧
      idx = if steps ≠ [] then translate stepOrigins r else r.toNat := by
  cases recommended with
  | none => nomatch h
  | some r =>
    simp only [recommend] at h
    generalize hj : (if steps ≠ [] then translate stepOrigins r else r.toNat) = j at h
    split_ifs at h with hr hin
    obtain rfl := Option.some.inj h
    exact ⟨r,rfl,hr,hin.1,hin.2.1,hin.2.2,hj.symm⟩

theorem validSteps_nil (h : (parseStepsIndexed J raw.steps).1 = []) : validSteps J raw = [] := by
  rw [parseStepsIndexed_steps, List.take_eq_nil_iff] at h
  exact h.resolve_left (by decide)

theorem readVerdict_recommended (hraw : ¬Strays J raw) {idx : ℕ}
    (h : (readVerdict J raw block before rest).verdict.recommendedIndex = some idx) :
    ∃ r, raw.recommendedIndex = some r ∧
      Designated J raw (readVerdict J raw block before rest).verdict r idx := by
  obtain ⟨r,hr,hpos,hidx,hle,happlicable,heq⟩ := recommend_eq_some h
  refine ⟨r,hr,hidx,hle,?_⟩
  by_cases hsteps : (parseStepsIndexed J raw.steps).1 = []
  · have hremediation : (readVerdict J raw block before rest).verdict.remediation =
        raw.remediation := if_neg (not_not.mpr hsteps)
    rw [if_neg (not_not.mpr hsteps)] at heq
    have hnone : rawSteps J raw.steps = [] := by
      by_contra hwritten
      refine hraw ⟨hwritten,validSteps_nil J raw hsteps,r,hr,hpos,?_⟩
      have hbound := hle.trans_eq (congrArg List.length hremediation)
      omega
    rw [if_neg (not_not.mpr hnone)]
    exact ⟨hsteps,hremediation,by omega⟩
  · rw [if_pos hsteps] at heq
    have hplace : translate (parseStepsIndexed J raw.steps).2.1 r = idx-1+1 := by omega
    obtain ⟨earlier,entry,later,step,hwritten,hplace,hstep,hcount,hkept⟩ :=
      translate_names J hplace
    have hremediation : (readVerdict J raw block before rest).verdict.remediation =
        (parseStepsIndexed J raw.steps).1.map (·.text) := if_pos hsteps
    rw [if_pos (by simp [hwritten])]
    simp only [applicable, hsteps, decide_false, Bool.false_or, hkept, Option.any_some,
      Bool.and_eq_true, decide_eq_true_eq] at happlicable
    refine ⟨earlier,entry,later,step,hwritten,hplace,hstep,by omega,hkept,?_,happlicable⟩
    rw [hremediation, List.getElem?_map, hkept]
    rfl

theorem Designated.steps_ne_nil {raw : RawVerdict} {v : Verdict} {r : ℤ} {idx : ℕ}
    (h : Designated J raw v r idx) (hwritten : rawSteps J raw.steps ≠ []) : v.steps ≠ [] := by
  obtain ⟨_,_,hnamed⟩ := h
  rw [if_pos hwritten] at hnamed
  obtain ⟨_,_,_,step,_,_,_,_,hkept,_⟩ := hnamed
  intro hnone
  rw [hnone] at hkept
  nomatch hkept

/-- Apply is bound to an entry of the other list. -/
theorem readVerdict_strays (hraw : Strays J raw) : ∃ idx,
    (readVerdict J raw block before rest).verdict.recommendedIndex = some idx ∧
      ∀ r, ¬Designated J raw (readVerdict J raw block before rest).verdict r idx := by
  obtain ⟨hwritten,hvalid,r,hr,hpos,hle⟩ := hraw
  have hsteps : (parseStepsIndexed J raw.steps).1 = [] := by
    rw [parseStepsIndexed_steps, hvalid, List.take_nil]
  refine ⟨r.toNat,?_,?_⟩
  · have hin : 1 ≤ r.toNat ∧ r.toNat ≤ raw.remediation.length := by omega
    show recommend (parseStepsIndexed J raw.steps).1 _ _ raw.recommendedIndex = _
    rw [hr, hsteps, if_neg (by simp)]
    simp [recommend, applicable, hpos, hin]
  · exact fun p hdesignated => hdesignated.steps_ne_nil J hwritten hsteps

end Read

theorem lastBlock_none {ts : List (Char ⊕ Fenced)} :
    lastBlock J ts = none ↔ ∀ fenced, .inr fenced ∈ ts → isVerdictBlock J fenced.block = false := by
  induction ts with
  | nil => simp [lastBlock]
  | cons t ts ih =>
    cases hlast : lastBlock J ts with
    | some split =>
      simp only [lastBlock, hlast]
      refine iff_of_false nofun fun hall => ?_
      have hnone := ih.mpr fun fenced hin => hall fenced (List.mem_cons_of_mem t hin)
      exact nomatch (hlast.symm.trans hnone)
    | none =>
      have hrest := ih.mp hlast
      simp only [lastBlock, hlast]
      cases t with
      | inl c => simpa using hrest
      | inr block =>
        by_cases hblock : isVerdictBlock J block.block = true
        · simp [hblock]
        · simpa [hblock] using hrest

theorem prose_settled (report : Text) : Settled J {} { verdict := { report := report } } where
  cause_healthy := by simp
  cause_inconclusive := by simp
  healthy_inconclusive := by simp
  established := nofun
  certainty h := absurd rfl h
  remediation h := absurd rfl h
  steps := List.nil_prefix
  unresolved := List.nil_prefix
  omitted := rfl
  caps :=
    { steps := Nat.zero_le _
      unresolved := Nat.zero_le _
      items := Nat.zero_le _
      ruledOut := Nat.zero_le _
      refs := Nat.zero_le _
      summary := ⟨[],Nat.zero_le _,.inl rfl⟩ }

theorem not_strays_default : ¬Strays J {} := fun h => h.1 rfl

theorem consistent_of_prose {text : Text} (hraw : rawOf J text = {})
    (hparse : parse J text = { verdict := { report := trimSpace text } }) :
    Consistent J text (parse J text) ↔ ¬Strays J (rawOf J text) := by
  rw [hraw]
  refine iff_of_true ⟨fun _ => hparse,?_,?_⟩ (not_strays_default J)
  · rw [hraw, hparse]
    exact prose_settled J (trimSpace text)
  · intro idx h
    rw [hparse] at h
    nomatch h

/-- The verdict that the parser returns is consistent with what the agent
wrote, but for an index that strays into the other list. -/
theorem parse_consistent_iff (text : Text) :
    Consistent J text (parse J text) ↔ ¬Strays J (rawOf J text) := by
  cases hlast : lastBlock J (jsonBlockRe.scan (trimSpace text)) with
  | none => exact consistent_of_prose J (by simp [rawOf, hlast]) (by simp [parse, hlast])
  | some split =>
    obtain ⟨before,fenced,rest⟩ := split
    cases hverdict : J.verdict fenced.block with
    | none =>
      exact consistent_of_prose J (by simp [rawOf, hlast, hverdict])
        (by simp [parse, hlast, hverdict])
    | some raw =>
      have hraw : rawOf J text = raw := by simp [rawOf, hlast, hverdict]
      have hparse : parse J text = readVerdict J raw fenced.block
          (trimSpace (jsonBlockRe.replaceAll (fun _ => []) (render Fenced.text before)))
          (trimSpace (render Fenced.text rest)) := by simp [parse, hlast, hverdict]
      constructor
      · intro h hstrays
        have hrecommended := h.recommended
        rw [hparse, hraw] at hrecommended
        rw [hraw] at hstrays
        obtain ⟨idx,hidx,hnot⟩ := readVerdict_strays J raw fenced.block _ _ hstrays
        obtain ⟨r,_,hdesignated⟩ := hrecommended idx hidx
        exact hnot r hdesignated
      · intro h
        rw [hraw] at h
        refine ⟨fun hprose => ?_,?_,?_⟩
        · exact nomatch (hlast.symm.trans ((lastBlock_none J).mpr hprose))
        · rw [hparse, hraw]
          exact readVerdict_settled J raw fenced.block _ _
        · rw [hparse, hraw]
          exact fun idx => readVerdict_recommended J raw fenced.block _ _ h

end Parsed

/-- An answer that is a verdict block only. -/
def answer (block : Text) : Text := "```json\n".toList++(block++"\n```".toList)

def strayBlock : Text :=
  "\x7b\"steps\":[\x7b\x7d],\"remediation\":[\"rm\"],\"recommended_index\":1\x7d".toList

/-- The decoder on that block. -/
def strayJson : Json where
  fields block :=
    if block = strayBlock then
      some [("steps".toList,"[\x7b\x7d]".toList),("remediation".toList,"[\"rm\"]".toList),
        ("recommended_index".toList,"1".toList)]
    else none
  verdict block :=
    if block = strayBlock then
      some
        { steps := "[\x7b\x7d]".toList
          remediation := ["rm".toList]
          recommendedIndex := some 1 }
    else none
  list raw := if raw = "[\x7b\x7d]".toList then some ["\x7b\x7d".toList] else none
  refs _ := none
  item _ := none
  subject _ := none
  ruledOut _ := none
  step raw := if raw = "\x7b\x7d".toList then some {} else none

theorem stray_verdict :
    (parse strayJson (answer strayBlock)).verdict.recommendedIndex = some 1 ∧
      (parse strayJson (answer strayBlock)).verdict.steps = [] ∧
      rawSteps strayJson (rawOf strayJson (answer strayBlock)).steps ≠ [] := by decide +kernel

theorem parse_strays :
    ¬Consistent strayJson (answer strayBlock) (parse strayJson (answer strayBlock)) := by
  intro h
  obtain ⟨hrecommended,hsteps,hwritten⟩ := stray_verdict
  obtain ⟨r,_,hdesignated⟩ := h.recommended 1 hrecommended
  exact hdesignated.steps_ne_nil strayJson hwritten hsteps

end Radar.Investigation
