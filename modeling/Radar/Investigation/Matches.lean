import Radar.Base.Keyed
import Radar.Investigation.Bind

/-!
# Evidence matches of a run

`bindRootCauseEvidenceLocked` and `runEvidenceMatchesLocked`. One pass over the
retained events gives every call of every turn its tool, a second pass counts
the steps that carry a ref and judges the first of them.
-/

set_option autoImplicit false

namespace Radar.Investigation

open Radar.Runes Radar.Story

inductive EventType where
  | turn | phase | step | thinking | done | error | closed
  deriving DecidableEq

structure StepInfo where
  id : Text
  tool : Text
  status : Text
  result : Text
  evidenceRef : Text
  radarEvidence : Bool
  isError : Option Bool
  truncated : Bool

structure StreamEvent where
  type : EventType
  step : Option StepInfo

/-- What the binding reads of a diagnosis. -/
structure Diagnosis where
  verdict : Verdict
  citations : Citations
  evidenceScope : Text
  /-- The payload of each ref that the turn's transport issued. -/
  issuedEvidence : Text → Option Text

def readOnlyTools : List Text :=
  ["get_dashboard","top_resources","list_resources","get_resource","get_topology",
    "get_neighborhood","get_events","get_pod_logs","diagnose","list_namespaces","get_changes",
    "get_cluster_audit","list_helm_releases","get_helm_release","list_packages","issues","search",
    "get_subject_permissions","query_prometheus","discover_metrics","get_prometheus_rules",
    "get_workload_logs","get_cluster_upgrade_readiness","get_cost","get_rightsizing",
    "wait_for"].map String.toList

def trimPrefix (literal s : Text) : Text := (after literal s).getD s

def normalizeToolName (tool : Text) : Text :=
  trimPrefix "radar.".toList (trimPrefix "mcp__radar__".toList tool)

/-- Whether a text is listed is decided by comparing. -/
local instance : LawfulBEq Text := inferInstance

def isReadOnlyTool (tool : Text) : Bool := normalizeToolName tool ∈ readOnlyTools

/-- `^[a-z2-7]{26,128}$` -/
def validScope (scope : Text) : Bool :=
  scope.all isBase32 && (decide (26 ≤ scope.length) && decide (scope.length ≤ 128))

def scopePrefix (scope : Text) : Text := "ev_".toList++(scope++"_".toList)

/-- The turn of every event, counted from the events of type `turn`. -/
def turnsFrom (turn : ℕ) : List StreamEvent → List ℕ
  | [] => []
  | event::events =>
    let turn := if event.type = .turn then turn+1 else turn
    turn::turnsFrom turn events

/-- One past the last event of type `turn`, past the end where there is none. -/
def turnStart (events : List StreamEvent) : ℕ :=
  match events.reverse.findIdx? fun event => event.type = .turn with
  | some k => events.length-k
  | none => events.length

structure ToolIdentity where
  name : Text := []
  known : Bool := false
  conflicts : Bool := false

def ToolIdentity.note (identity : ToolIdentity) (tool : Text) : ToolIdentity :=
  if !identity.known then { identity with name := tool, known := true }
  else if identity.name ≠ tool then { identity with conflicts := true }
  else identity

abbrev StepKey := ℕ × Text

def noteTool (tools : StepKey → ToolIdentity) (turn : ℕ) (event : StreamEvent) :
    StepKey → ToolIdentity :=
  match event.step with
  | none => tools
  | some step =>
    if event.type ≠ .step ∨ step.id = [] ∨ step.tool = [] then tools
    else
      Function.update tools (turn,step.id)
        ((tools (turn,step.id)).note (normalizeToolName step.tool))

def toolsByStep (events : List StreamEvent) : StepKey → ToolIdentity :=
  ((turnsFrom 0 events).zip events).foldl (fun tools e => noteTool tools e.1 e.2) fun _ => {}

structure EvidenceMatch where
  count : ℕ := 0
  valid : Bool := false

def authenticated (d : Diagnosis) (current : Bool) (step : StepInfo) : Bool :=
  let carries := (scopePrefix d.evidenceScope).isPrefixOf step.evidenceRef
  if current then
    match d.issuedEvidence step.evidenceRef with
    | none => false
    | some issuedPayload => validScope d.evidenceScope && carries && step.result == issuedPayload
  else !validScope d.evidenceScope || !carries

/-- The candidate's conditions other than its count. -/
def admissible (d : Diagnosis) (tools : StepKey → ToolIdentity) (current : Bool) (turn : ℕ)
    (step : StepInfo) : Bool :=
  let tool := tools (turn,step.id)
  authenticated d current step && step.radarEvidence && step.id ≠ [] && tool.known &&
    !tool.conflicts && isReadOnlyTool tool.name && step.status == "done".toList &&
    step.isError == some false && !step.truncated && trimSpace step.result ≠ []

def noteMatch (d : Diagnosis) (tools : StepKey → ToolIdentity) (start : ℕ)
    (found : Text → EvidenceMatch) (turn : ℕ) (event : StreamEvent) (i : ℕ) :
    Text → EvidenceMatch :=
  match event.step with
  | none => found
  | some step =>
    if event.type ≠ .step ∨ step.evidenceRef = [] then found
    else
      let count := (found step.evidenceRef).count+1
      Function.update found step.evidenceRef
        ⟨count,count == 1 && admissible d tools (decide (start ≤ i)) turn step⟩

def runEvidenceMatches (events : List StreamEvent) (d : Diagnosis) : Text → EvidenceMatch :=
  ((turnsFrom 0 events).zip events).zipIdx.foldl
    (fun found e => noteMatch d (toolsByStep events) (turnStart events) found e.1.1 e.1.2 e.2)
    fun _ => {}

def refLinked (events : List StreamEvent) (d : Diagnosis) (ref : Text) : Bool :=
  let candidate := runEvidenceMatches events d ref
  candidate.count == 1 && candidate.valid

/-- The private fields are cleared on every branch. -/
def bindRootCauseEvidence (events : List StreamEvent) (d : Diagnosis) : Diagnosis where
  verdict := bind (refLinked events d) { verdict := d.verdict, citations := d.citations }
  citations := {}
  evidenceScope := []
  issuedEvidence := fun _ => none

section Spec

variable (events : List StreamEvent) (d : Diagnosis)

/-- The retained step at a place of the log. -/
def stepAt (i : ℕ) : Option StepInfo :=
  (events[i]?).bind fun event => if event.type = .step then event.step else none

def turnOf (i : ℕ) : ℕ := (events.take (i+1)).countP fun event => event.type = .turn

/-- The turn of a place is the last one that was begun. -/
def InCurrentTurn (i : ℕ) : Prop :=
  ∃ j < i, ∃ event, events[j]? = some event ∧ event.type = .turn ∧
    ∀ k event', j < k → events[k]? = some event' → event'.type ≠ .turn

/-- A call of the turn names a tool. -/
def CallNames (turn : ℕ) (id tool : Text) : Prop :=
  ∃ j step, stepAt events j = some step ∧ turnOf events j = turn ∧ step.id = id ∧ step.tool ≠ [] ∧
    normalizeToolName step.tool = tool

/-- A finished, successful, untruncated and non-empty result flagged as Radar's. -/
structure StepInfo.ReadResult (step : StepInfo) : Prop where
  done : step.status = "done".toList
  success : step.isError = some false
  whole : step.truncated = false
  nonempty : trimSpace step.result ≠ []
  radar : step.radarEvidence = true

/-- The step at `i` proves the ref to the current turn or was proven to an earlier one. -/
def Authentic (ref : Ref) (i : ℕ) (step : StepInfo) : Prop :=
  (InCurrentTurn events i ∧ ref.first.text = d.evidenceScope ∧
      d.issuedEvidence ref.text = some step.result) ∨
    (¬InCurrentTurn events i ∧ ref.first.text ≠ d.evidenceScope)

/-- One step of the run carries the ref, and it is a genuine read result. -/
def Genuine (ref : Ref) : Prop :=
  ∃ i step, stepAt events i = some step ∧ step.evidenceRef = ref.text ∧
    (∀ j step', stepAt events j = some step' → step'.evidenceRef = ref.text → j = i) ∧
    step.ReadResult ∧ step.id ≠ [] ∧
    (∃ tool, CallNames events (turnOf events i) step.id tool ∧
      (∀ other, CallNames events (turnOf events i) step.id other → other = tool) ∧
      isReadOnlyTool tool = true) ∧
    Authentic events d ref i step

end Spec

end Radar.Investigation
