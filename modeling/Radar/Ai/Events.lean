import Mathlib.Data.List.Basic

/-!
# The events of an investigation

A run's log is a list of sequenced stream events. What the agent did in a step
is kept as one text; of a verdict there are the fields that the run reads.
-/

set_option autoImplicit false

namespace Radar.Ai

inductive EventType where
  | turn
  | phase
  | step
  | thinking
  | done
  | error
  | closed
  deriving DecidableEq, Repr

inductive ApplyMutationOutcome where
  | confirmed
  | failed
  | unknown
  deriving DecidableEq, Repr

structure Verdict where
  summary : String := ""
  rootCause : String := ""
  healthy : Bool := false
  inconclusive : Bool := false
  revisesAssessment : Bool := false
  remediation : List String := []
  report : String := ""
  deriving DecidableEq, Repr

namespace Verdict

def structured (v : Verdict) : Bool :=
  v.rootCause ≠ "" || 0 < v.remediation.length || v.healthy || v.inconclusive

def complete (v : Verdict) : Bool :=
  v.summary ≠ "" && (v.rootCause ≠ "" || v.healthy || v.inconclusive)

def settleRevision (v : Verdict) : Verdict :=
  if v.revisesAssessment && !v.complete then { v with revisesAssessment := false } else v

def preview (v : Verdict) : String :=
  if v.summary ≠ "" ∧ (v.rootCause ≠ "" ∨ v.healthy ∨ v.inconclusive) then v.summary
  else if v.rootCause ≠ "" then v.rootCause
  else if v.healthy then "Healthy"
  else ""

def asExplanation (v : Verdict) : Verdict where
  report := v.report

end Verdict

structure Diagnosis where
  verdict : Verdict := {}
  sessionID : String := ""
  deriving DecidableEq, Repr

structure StreamEvent where
  type : EventType
  /-- What a phase, a step or a thinking event carries. -/
  content : String := ""
  diag : Option Diagnosis := none
  error : String := ""
  question : String := ""
  apply : Bool := false
  verify : Bool := false
  explainAssessment : ℕ := 0
  applyOutcome : Option ApplyMutationOutcome := none
  verificationScheduled : Bool := false
  deriving DecidableEq, Repr

/-- Seq 0 lets the store assign the sequence number. -/
structure RunEvent where
  seq : ℕ
  event : StreamEvent
  deriving DecidableEq, Repr

namespace StreamEvent

def isTurn (e : StreamEvent) : Bool := e.type = .turn

def isTerminal (e : StreamEvent) : Bool := e.type = .done || e.type = .error

def isClosed (e : StreamEvent) : Bool := e.type = .closed

/-- What the callback of an agent emits. -/
def isAgent (e : StreamEvent) : Bool := e.type = .phase || e.type = .step || e.type = .thinking

end StreamEvent

/-- How a turn failed. -/
structure TurnErr where
  msg : String
  deadlineExceeded : Bool := false
  deriving DecidableEq, Repr

/-- A private step of the execution: what `launchTurn` is given. -/
structure RunTurn where
  question : String := ""
  apply : Bool := false
  verify : Bool := false
  canonicalSession : String := ""
  explainAssessment : ℕ := 0
  deriving DecidableEq, Repr

def automaticVerificationPrompt : String :=
  "Did the fix resolve the issue? Re-check the resource's current status and health now, and say whether it's healthy."

def automaticUncertainVerificationPrompt : String :=
  "An apply attempt ended with an uncertain outcome. Re-check the resource's current status and health now, determine whether the requested change took effect, and say what the current evidence proves."

def verificationSuffix (verificationScheduled : Bool) : String :=
  if verificationScheduled then " Radar scheduled a current-state verification." else ""

/-- A failure that is no timeout is told. -/
def turnErrSuffix : Option TurnErr → String
  | none => ""
  | some e => if e.deadlineExceeded then "" else " "++e.msg

/-- The text of an apply turn that ended otherwise than confirmed and complete. -/
def applyTerminalError (turnErr : Option TurnErr) (outcome : ApplyMutationOutcome)
    (timeout : String) (verificationScheduled : Bool) : String :=
  match outcome with
  | .failed =>
    match turnErr with
    | some e =>
      if e.deadlineExceeded then
        "The apply timed out after "++timeout++" before any Radar write was confirmed."
      else e.msg
    | none =>
      "No change was applied: no Radar write tool reported a successful mutation. Review the failed or missing write call before retrying."
  | .confirmed =>
    "A Radar write tool confirmed the mutation, but the agent ended before completing its report."
      ++turnErrSuffix turnErr++verificationSuffix verificationScheduled
  | .unknown =>
    "The apply attempt ended without an authoritative result, so the change may have completed."
      ++turnErrSuffix turnErr++verificationSuffix verificationScheduled

def applyTerminalEvent (diag : Diagnosis) (turnErr : Option TurnErr)
    (outcome : ApplyMutationOutcome) (timeout : String) (verificationScheduled : Bool) :
    StreamEvent :=
  if outcome = .confirmed ∧ turnErr = none then
    { type := .done, applyOutcome := some outcome,
      verificationScheduled := verificationScheduled, diag := some diag }
  else
    { type := .error, applyOutcome := some outcome,
      verificationScheduled := verificationScheduled,
      error := applyTerminalError turnErr outcome timeout verificationScheduled }

/-- The terminal of an apply turn whose context changed before it could be verified. -/
def unverifiedTerminal (terminal : StreamEvent) (outcome : ApplyMutationOutcome) : StreamEvent :=
  { terminal with
    type := .error
    diag := none
    error :=
      if outcome = .confirmed then
        "A Radar write tool confirmed the mutation, but the cluster context changed before Radar could verify current state. Reconnect to the original cluster and check it before retrying."
      else
        "The cluster context changed before Radar could determine whether the apply completed. Reconnect to the original cluster and check current state before retrying." }

/-- The text of a turn that failed. -/
def finishError (turnErr : TurnErr) (timeout : String) : String :=
  if turnErr.deadlineExceeded then
    "The investigation timed out after "++timeout++" and was stopped. Start a new investigation, or ask a narrower follow-up."
  else turnErr.msg

def stopTerminal (apply : Bool) : StreamEvent :=
  if apply then
    { type := .error, applyOutcome := some .unknown,
      error := "Investigation stopped during an apply. The change may have completed; re-check current cluster state before retrying." }
  else { type := .error, error := "Investigation stopped." }

def shutdownTerminal (apply : Bool) : StreamEvent :=
  if apply then
    { type := .error, applyOutcome := some .unknown,
      error := "Radar shut down during an apply. The change may have completed, but Radar could not verify it; re-check current cluster state before retrying." }
  else { type := .error, error := "Investigation stopped — Radar was shutting down." }

def staleTerminal (apply : Bool) : StreamEvent :=
  if apply then
    { type := .error, applyOutcome := some .unknown,
      error := "Cluster context changed during an apply. The change may have completed on the previous cluster, but Radar cannot verify it here; reconnect to that cluster and check current state before retrying." }
  else
    { type := .error,
      error := "Cluster context changed — this investigation was about a different cluster." }

def closedEvent : StreamEvent := { type := .closed }

theorem applyTerminalEvent_terminal (diag : Diagnosis) (turnErr : Option TurnErr)
    (outcome : ApplyMutationOutcome) (timeout : String) (scheduled : Bool) :
    (applyTerminalEvent diag turnErr outcome timeout scheduled).isTerminal = true := by
  unfold applyTerminalEvent
  split <;> rfl

end Radar.Ai
