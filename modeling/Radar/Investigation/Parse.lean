import Mathlib.Algebra.GroupWithZero.Nat
import Mathlib.Data.Rat.Defs
import Radar.Investigation.Fences
import Radar.Story.CanonicalMarkers

/-!
# The verdict read from an answer

`Parse` and the readers of the agent's lists. JSON decoding is given: a raw
message is its text, the empty text where the field is absent.
-/

set_option autoImplicit false

namespace Radar.Investigation

open Radar.Scan Radar.Runes Radar.Story
open Radar.Scan.Pattern (render)

abbrev Raw := Text

def maxRootCauseRefs : ℕ := 3

def maxEvidenceItems : ℕ := 8

def maxRuledOut : ℕ := 5

def maxSteps : ℕ := 6

def maxUnresolved : ℕ := 3

def maxSummaryRunes : ℕ := 180

def maxIdentifierRunes : ℕ := 253

inductive EvidenceRole where
  | cause | symptom | context | demoted | rulesOut | benign
  deriving DecidableEq

inductive Certainty where
  | established | likely | suspected
  deriving DecidableEq

inductive StepKind where
  | mitigate | verify | investigate
  deriving DecidableEq

structure EvidenceSubject where
  group : Option Text := none
  kind : Text := []
  namespaceName : Option Text := none
  name : Text := []
  container : Text := []
  stream : Text := []
  observation : Text := []
  deriving DecidableEq

structure Step where
  text : Text
  kind : StepKind
  precondition : Text
  deriving DecidableEq

structure RuledOut where
  hypothesis : Text
  evidenceIndex : ℕ
  deriving DecidableEq

/-- The fields of the verdict block. -/
structure RawVerdict where
  healthy : Option Bool := none
  inconclusive : Option Bool := none
  rootCause : Text := []
  evidenceRefs : Raw := []
  evidence : Raw := []
  ruledOut : Raw := []
  remediation : List Text := []
  recommendedIndex : Option ℤ := none
  recommendedReason : Text := []
  confidence : Option ℚ := none
  summary : Text := []
  certainty : Text := []
  unresolved : List Text := []
  steps : Raw := []
  revisesAssessment : Option Bool := none

structure RawStep where
  text : Text := []
  kind : Text := []
  precondition : Text := []

structure RawRuledOut where
  hypothesis : Text := []
  evidenceIndex : Option ℤ := none

structure RawItem where
  ref : Text := []
  role : Text := []
  claim : Text := []
  gap : Text := []
  subject : Raw := []

/-- `json.Unmarshal` into each type that the parser reads. -/
structure Json where
  fields : Text → Option (List (Text × Raw))
  verdict : Text → Option RawVerdict
  list : Raw → Option (List Raw)
  refs : Raw → Option (List Text)
  item : Raw → Option RawItem
  subject : Raw → Option EvidenceSubject
  ruledOut : Raw → Option RawRuledOut
  step : Raw → Option RawStep

def null : Raw := "null".toList

/-- `unicode.ToLower` where the lower case is ASCII. -/
def lowerRune (c : Char) : Char :=
  if c = '\u0130' then 'i' else if c = '\u212A' then 'k' else c.toLower

/-- A field of a closed set of words, in any case. -/
def word (s : Text) : String := String.ofList ((trimSpace s).map lowerRune)

def certainties (s : String) : Option Certainty :=
  match s with
  | "established" => some .established
  | "likely" => some .likely
  | "suspected" => some .suspected
  | _ => none

def stepKinds (s : String) : Option StepKind :=
  match s with
  | "mitigate" => some .mitigate
  | "verify" => some .verify
  | "investigate" => some .investigate
  | _ => none

def roles (s : String) : Option EvidenceRole :=
  match s with
  | "cause" => some .cause
  | "symptom" => some .symptom
  | "context" => some .context
  | "benign" => some .benign
  | "demoted" => some .demoted
  | "rules_out" => some .rulesOut
  | _ => none

/-- The loops with a cap: what is kept, and what the cap leaves out. -/
def capped {α : Type*} (cap : ℕ) (l : List α) : List α × List α :=
  l.foldl (fun st a => if st.1.length = cap then (st.1,st.2++[a]) else (st.1++[a],st.2)) ([],[])

/-- `refRe` -/
def parseRef (s : Text) : Option Ref := (readRef s).filter (·.text = s)

/-- `wrappedRefRe` -/
def wrappedRef (s : Text) : Option Ref :=
  ((readRefMarker s).filter fun m => m.compact = false ∧ m.text = s).map (·.ref)

def unwrapRef (ref : Text) : Text :=
  match wrappedRef (trimSpace ref) with
  | some r => r.text
  | none => trimSpace ref

structure ReferenceRequest where
  present : Bool := false
  invalid : Bool := false
  refs : List Text := []
  deriving DecidableEq

/-- A case item that is valid; the zero value of one that is not is `none`. -/
structure CaseItem where
  ref : Ref
  role : EvidenceRole
  claim : Text
  gap : Text
  subject : Option EvidenceSubject
  deriving DecidableEq

structure CaseRequest where
  items : List (Option CaseItem) := []
  ruledOut : List RuledOut := []
  dropped : ℕ := 0
  malformed : Bool := false
  overflowRuledOut : List RuledOut := []
  deriving DecidableEq

structure Citations where
  rootCause : ReferenceRequest := {}
  theCase : CaseRequest := {}
  deriving DecidableEq

inductive LinkStatus where
  | linked | missing | invalid | unlinked
  deriving DecidableEq

structure RootCauseEvidence where
  status : LinkStatus
  refs : List Text := []
  deriving DecidableEq

structure EvidenceItem where
  status : LinkStatus
  ref : Text := []
  role : Option EvidenceRole := none
  claim : Text := []
  gap : Text := []
  subject : Option EvidenceSubject := none
  deriving DecidableEq

structure Verdict where
  healthy : Bool := false
  inconclusive : Bool := false
  rootCause : Text := []
  summary : Text := []
  certainty : Option Certainty := none
  unresolved : List Text := []
  revisesAssessment : Bool := false
  steps : List Step := []
  report : Text
  notes : Text := []
  rootCauseEvidence : Option RootCauseEvidence := none
  evidence : List EvidenceItem := []
  unlinkedEvidence : ℕ := 0
  evidenceMalformed : Bool := false
  ruledOut : List RuledOut := []
  omittedEntries : ℕ := 0
  remediation : List Text := []
  confidence : Option ℚ := none
  recommendedIndex : Option ℕ := none
  recommendedReason : Text := []
  deriving DecidableEq

structure Parsed where
  verdict : Verdict
  citations : Citations := {}
  extensions : List (Text × Raw) := []
  deriving DecidableEq

section Readers

variable (J : Json)

def verdictFields : List String :=
  ["root_cause","summary","healthy","inconclusive","steps","evidence","remediation",
    "revises_assessment"]

def contractFields : List String :=
  ["healthy","inconclusive","root_cause","root_cause_evidence_refs","evidence","ruled_out",
    "remediation","recommended_index","recommended_reason","confidence","summary","certainty",
    "unresolved","steps","revises_assessment"]

def isVerdictBlock (block : Text) : Bool :=
  ((J.fields block).getD []).any fun field => String.ofList field.1 ∈ verdictFields

def extensionFields (block : Text) : List (Text × Raw) :=
  ((J.fields block).getD []).filter fun field => String.ofList field.1 ∉ contractFields

/-- One entry of the agent's steps. -/
def readStep (raw : Raw) : Option Step := do
  let item ← J.step raw
  let kind ← stepKinds (word item.kind)
  if trimSpace item.text = [] then none
  else some ⟨trimSpace item.text,kind,trimSpace item.precondition⟩

/-- The entries of the steps that the agent wrote. -/
def rawSteps (raw : Raw) : List Raw := if raw = [] ∨ raw = null then [] else (J.list raw).getD []

/-- The kept steps, the index that each has in the agent's list, and how many
the cap leaves out. -/
def parseStepsIndexed (raw : Raw) : List Step × List ℕ × ℕ :=
  let valid := (rawSteps J raw).zipIdx.filterMap fun entry =>
    (readStep J entry.1).map fun step => (step,entry.2)
  let kept := capped maxSteps valid
  (kept.1.map (·.1),kept.1.map (·.2),kept.2.length)

def parseReferenceRequest (raw : Raw) : ReferenceRequest :=
  if raw = [] then {}
  else if raw = null then { present := true, invalid := true }
  else
    match J.refs raw with
    | none => { present := true, invalid := true }
    | some refs =>
      if refs.length ≤ maxRootCauseRefs ∧ (∀ ref ∈ refs, (parseRef ref).isSome) ∧ refs.Nodup then
        { present := true, refs := refs }
      else { present := true, invalid := true }

def parseRuledOut (raw : Raw) : Option RuledOut := do
  let parsed ← J.ruledOut raw
  let index ← parsed.evidenceIndex
  if trimSpace parsed.hypothesis = [] ∨ index < 0 then none
  else some ⟨trimSpace parsed.hypothesis,index.toNat⟩

def validSubject (subject : EvidenceSubject) : Bool :=
  [subject.kind,subject.name,subject.container,subject.stream,subject.observation].all
      (·.length ≤ maxIdentifierRunes) &&
    ([subject.group,subject.namespaceName].all fun field =>
      (field.getD []).length ≤ maxIdentifierRunes) &&
    subject.kind ≠ [] &&
    (subject.stream = [] || subject.stream = "current".toList ||
      subject.stream = "previous".toList)

def parseCaseItem (raw : Raw) : Option CaseItem := do
  let parsed ← J.item raw
  let ref ← parseRef (unwrapRef parsed.ref)
  let role ← roles (word parsed.role)
  let claim := trimSpace parsed.claim
  -- The roles that qualify or exclude something need a reason.
  if claim = [] ∧ (role = .benign ∨ role = .demoted ∨ role = .rulesOut) then none
  else if parsed.subject = [] ∨ parsed.subject = null then
    some ⟨ref,role,claim,trimSpace parsed.gap,none⟩
  else do
    let subject ← J.subject parsed.subject
    if validSubject subject then some ⟨ref,role,claim,trimSpace parsed.gap,some subject⟩
    else none

/-- The entries of a list that is there. -/
def entries (raw : Raw) : Option (List Raw) := if raw = [] then none else J.list raw

def parseCaseRequest (evidenceRaw ruledOutRaw : Raw) : CaseRequest :=
  let rawItems := (entries J evidenceRaw).getD []
  let ruledOut := capped maxRuledOut
    (((entries J ruledOutRaw).getD []).filterMap (parseRuledOut J))
  { items := (rawItems.take maxEvidenceItems).map (parseCaseItem J)
    ruledOut := ruledOut.1
    dropped := rawItems.length-maxEvidenceItems
    malformed := evidenceRaw ≠ [] && evidenceRaw ≠ null && (J.list evidenceRaw).isNone
    overflowRuledOut := ruledOut.2 }

end Readers

section Headline

def stripStoryMarkers (text : Text) : Text :=
  trimSpace (anyStoryMarkerRe.replaceAll (fun _ => []) text)

/-- Where the last occurrence starts. -/
def lastIndex (part : Text) : Text → Option ℕ
  | [] => none
  | c::s =>
    match lastIndex part s with
    | some i => some (i+1)
    | none => if part <+: c::s then some 0 else none

/-- The last character at which a sentence ends. -/
def sentenceEnd (text : Text) : Option ℕ :=
  ([". ","! ","? "].filterMap fun mark => lastIndex mark.toList text).max?

/-- The bytes before the index are more than half the budget. -/
def pastHalf (text : Text) (limit i : ℕ) : Bool :=
  limit/2 < ((text.take i).map Char.utf8Size).sum

def clampSummary (value : Text) (limit : ℕ) : Text :=
  if value.length ≤ limit then value
  else
    let text := value.take limit
    match (sentenceEnd text).filter (pastHalf text limit) with
    | some i => trimSpace (text.take (i+1))
    | none =>
      match (lastIndex [ ' '] text).filter (pastHalf text limit) with
      | some i => trimSpace (text.take i)++[ '…']
      | none => trimSpace text++[ '…']

end Headline

section Settling

/-- The flags after the order of precedence: a cause, then "could not tell". -/
def settleFlags (rootCause : Text) (steps : List Step) (remediation : List Text)
    (healthy inconclusive : Bool) : Bool × Bool :=
  if rootCause ≠ [] ∨ (steps = [] ∧ remediation ≠ []) then (false,false)
  else if inconclusive then (false,true)
  else (healthy,inconclusive)

def settleCertainty (certainty : Option Certainty) (unresolved : List Text) : Option Certainty :=
  if certainty = some .established ∧ unresolved ≠ [] then some .likely else certainty

/-- The place, from 1, of the kept step that the agent's index names. -/
def translate (stepOrigins : List ℕ) (r : ℤ) : ℕ :=
  stepOrigins.zipIdx.foldl (fun idx entry => if (entry.1 : ℤ) = r-1 then entry.2+1 else idx) 0

/-- With typed steps, Apply performs a mitigation whose applicability is not in question. -/
def applicable (steps : List Step) (idx : ℕ) : Bool :=
  steps = [] ||
    (steps[idx-1]?).any fun step => step.kind = .mitigate && step.precondition = []

def recommend (steps : List Step) (stepOrigins : List ℕ) (remediation : List Text) :
    Option ℤ → Option ℕ
  | none => none
  | some r =>
    if 1 ≤ r then
      let idx := if steps ≠ [] then translate stepOrigins r else r.toNat
      if 1 ≤ idx ∧ idx ≤ remediation.length ∧ applicable steps idx then some idx else none
    else none

end Settling

/-- The items as the marker table sees them. -/
def cited (items : List (Option CaseItem)) : List CaseItemRequest :=
  items.map fun
    | some item => ⟨item.ref.text,.inr ⟨item.ref,rfl⟩⟩
    | none => ⟨[],.inl rfl⟩

/-- The last block that is a verdict, with what is before and after it. -/
def lastBlock (J : Json) : List (Char ⊕ Fenced) →
    Option (List (Char ⊕ Fenced) × Fenced × List (Char ⊕ Fenced))
  | [] => none
  | t::ts =>
    match lastBlock J ts with
    | some (before,fenced,rest) => some (t::before,fenced,rest)
    | none =>
      match t with
      | .inl _ => none
      | .inr fenced => if isVerdictBlock J fenced.block then some ([],fenced,ts) else none

section Parse

variable (J : Json)

/-- What the block's fields make of the verdict, with the prose around the block. -/
def readVerdict (raw : RawVerdict) (block before rest : Text) : Parsed :=
  let theCase := parseCaseRequest J raw.evidence raw.ruledOut
  let rootCause := stripStoryMarkers raw.rootCause
  let summary := clampSummary (stripStoryMarkers raw.summary) maxSummaryRunes
  let certainty := if summary ≠ [] then certainties (word raw.certainty) else none
  let unresolved := capped maxUnresolved ((raw.unresolved.map trimSpace).filter (· ≠ []))
  let steps := parseStepsIndexed J raw.steps
  let remediation := if steps.1 ≠ [] then steps.1.map (·.text) else raw.remediation
  let flags := settleFlags rootCause steps.1 remediation (raw.healthy.getD false)
    (raw.inconclusive.getD false)
  let recommended := recommend steps.1 steps.2.1 remediation raw.recommendedIndex
  let story := if rest ≠ [] then rest else before
  { verdict :=
      { healthy := flags.1
        inconclusive := flags.2
        rootCause := rootCause
        summary := summary
        certainty := settleCertainty certainty unresolved.1
        unresolved := unresolved.1
        revisesAssessment := raw.revisesAssessment.getD false
        steps := steps.1
        report := canonicalStoryMarkers story (cited theCase.items)
        notes := if rest ≠ [] then before else []
        omittedEntries := unresolved.2.length+steps.2.2
        remediation := remediation
        confidence := raw.confidence
        recommendedIndex := recommended
        recommendedReason :=
          if recommended.isSome then trimSpace raw.recommendedReason else [] }
    citations := ⟨parseReferenceRequest J raw.evidenceRefs,theCase⟩
    extensions := extensionFields J block }

def parse (text : Text) : Parsed :=
  let text := trimSpace text
  match lastBlock J (jsonBlockRe.scan text) with
  | none => { verdict := { report := text } }
  | some (before,fenced,rest) =>
    match J.verdict fenced.block with
    | none => { verdict := { report := text } }
    | some raw =>
      readVerdict J raw fenced.block
        (trimSpace (jsonBlockRe.replaceAll (fun _ => []) (render Fenced.text before)))
        (trimSpace (render Fenced.text rest))

end Parse

end Radar.Investigation
