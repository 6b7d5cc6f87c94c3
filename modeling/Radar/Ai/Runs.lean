import Radar.Ai.RunStore

/-!
# One run and its critical sections

Each function here is what the code does with a run while it holds the run's
mutex; with the run it gives the operations it enqueues at the store. The
cancel handle is left out: a cancelled agent may go on for a while and ends
like any other. `none` for the subscribers is the finalized run.
-/

set_option autoImplicit false

namespace Radar.Ai

/-- The buffer of a channel. -/
def channelSize : ℕ := 256

structure Channel where
  buf : List RunEvent := []
  closed : Bool := false
  deriving DecidableEq, Repr

structure Run where
  id : ℕ
  target : Target := { kind := "", name := "" }
  context : String := ""
  status : Status := .error
  sessionID : String := ""
  preview : String := ""
  events : List RunEvent := []
  hydrated : Bool := false
  inFlight : Bool := false
  /-- The channels that are subscribed. -/
  subs : Option (List ℕ) := none
  nextSub : ℕ := 0
  /-- Every channel there was, the subscribed ones and those that readers still drain. -/
  chans : ℕ → Channel := fun _ => {}
  /-- Whether the run writes to the store. -/
  store : Bool := false

namespace Run

def summaryLocked (r : Run) : RunSummary where
  id := r.id
  target := r.target
  context := r.context
  status := r.status
  sessionID := r.sessionID
  preview := r.preview

/-- Whether anything may still be appended. -/
def live (r : Run) : Bool := r.subs.isSome

/-- The check that each section of a turn makes. -/
def taking (r : Run) : Bool := r.inFlight && r.status = .running && r.live

/-- Non-blocking: a subscriber whose buffer is full is detached, and its channel closed. -/
def publish (r : Run) (re : RunEvent) : Run :=
  match r.subs with
  | none => r
  | some ids =>
    let full (c : ℕ) : Bool := channelSize ≤ (r.chans c).buf.length
    { r with
      subs := some (ids.filter fun c => !full c)
      chans := fun c =>
        if c ∈ ids then
          if full c then { r.chans c with closed := true }
          else { r.chans c with buf := (r.chans c).buf++[re] }
        else r.chans c }

/-- The end of the stream: the channels are closed and none is subscribed any more. -/
def closeSubs (r : Run) : Run :=
  { r with
    subs := none
    chans := fun c =>
      if c ∈ r.subs.getD [] then { r.chans c with closed := true } else r.chans c }

/-- The events with the numbers that follow the log. -/
def numberFrom : ℕ → List StreamEvent → List RunEvent
  | _, [] => []
  | n, e::rest => ⟨n+1,e⟩::numberFrom (n+1) rest

/-- What the store is told, if there is one. -/
def persist (r : Run) (batch : List RunEvent) (persistSummary : Bool) : List StoreOp :=
  if r.store then
    [.appendEvents r.id batch (if persistSummary then some r.summaryLocked else none)]
  else []

def appendEventsLocked (r : Run) (events : List StreamEvent) (persistSummary : Bool) :
    Run × List StoreOp :=
  let batch := numberFrom r.events.length events
  let r := { r with events := r.events++batch }
  (batch.foldl publish r,r.persist batch persistSummary)

def appendLocked (r : Run) (e : StreamEvent) : Run × List StoreOp :=
  r.appendEventsLocked [e] e.isTerminal

def finalizeLocked (r : Run) : Run × List StoreOp :=
  if !r.live then (r,[])
  else
    let re : RunEvent := ⟨r.events.length+1,closedEvent⟩
    let r := { r with events := r.events++[re] }
    ((r.publish re).closeSubs,if r.hydrated then r.persist [re] true else [])

def appendTerminalAndFinalizeLocked (r : Run) (terminal : StreamEvent) : Run × List StoreOp :=
  if !r.live then (r,[])
  else
    let done := r.appendEventsLocked [terminal,closedEvent] true
    (done.1.closeSubs,done.2)

/-- The last turn marker of the log, while a turn is reserved. -/
def activeTurnLocked (r : Run) : Option StreamEvent :=
  if r.inFlight then (r.events.map (·.event)).reverse.find? StreamEvent.isTurn else none

def activeApply (r : Run) : Bool :=
  match r.activeTurnLocked with
  | some e => e.apply
  | none => false

def activeExplains (r : Run) : Bool :=
  match r.activeTurnLocked with
  | some e => e.explainAssessment ≠ 0
  | none => false

/-- Stop, while it holds the run. -/
def stop (r : Run) : Run × List StoreOp :=
  if !r.taking then (r,[])
  else { r with status := .stopped }.appendLocked (stopTerminal r.activeApply)

/-- Shutdown, for one run of its snapshot. -/
def shutdown (r : Run) : Run × List StoreOp :=
  if !r.taking then (r,[])
  else { r with status := .stopped }.appendLocked (shutdownTerminal r.activeApply)

def markStale (r : Run) : Run × List StoreOp :=
  if r.status = .stale ∨ !r.live then (r,[])
  else
    let staleEv := staleTerminal r.activeApply
    let r := { r with status := .stale }
    if r.hydrated then r.appendTerminalAndFinalizeLocked staleEv
    else (r.closeSubs,r.persist [⟨0,staleEv⟩,⟨0,closedEvent⟩] true)

/-- The part of `beginTurn` that holds the run; none when the turn is refused. -/
def beginTurn (r : Run) (requireSession : Bool) : Option (Run × List StoreOp) :=
  if r.inFlight then none
  else if r.status = .stale then none
  else if requireSession ∧ r.sessionID = "" then none
  else
    let r := { r with inFlight := true, status := .running }
    some (r,if r.store then [.saveRun r.summaryLocked] else [])

def turnMarker (turn : RunTurn) : StreamEvent :=
  { type := .turn, question := turn.question, apply := turn.apply, verify := turn.verify,
    explainAssessment := turn.explainAssessment }

/-- None when Stop or a context switch won the race: no agent is launched. -/
def launchTurn (r : Run) (turn : RunTurn) : Option (Run × List StoreOp) :=
  if !r.taking then none else some (r.appendLocked (turnMarker turn))

/-- The reservation is given up. -/
def release (r : Run) : Run := { r with inFlight := false }

/-- The ingress of the callback of an agent. -/
def appendStreamEvent (r : Run) (e : StreamEvent) : Run × List StoreOp :=
  if !r.taking then (r,[]) else r.appendLocked e

/-- What the summary shows after an apply that goes on with its verification. -/
def applyPreview (r : Run) (terminal : StreamEvent) : String :=
  match terminal.diag with
  | some d =>
    if d.verdict.rootCause ≠ "" then d.verdict.rootCause
    else if d.verdict.healthy then "Healthy"
    else r.preview
  | none => r.preview

/-- None when the verification does not go on. -/
def finishApplyAndBeginVerification (r : Run) (terminal : StreamEvent) (verifyQuestion : String) :
    Option (Run × List StoreOp) :=
  if !r.taking then none
  else
    some ({ r with preview := r.applyPreview terminal }.appendEventsLocked
      [terminal,turnMarker { question := verifyQuestion, verify := true }] true)

def finishApplyWithoutVerification (r : Run) (terminal : StreamEvent) : Run × List StoreOp :=
  if !r.taking then (r.release,[])
  else
    let done := { r with status := .error }.appendLocked terminal
    (done.1.release,done.2)

section Finish

-- `bindRootCauseEvidenceLocked`: what the case over the evidence in the log leaves of a verdict.
variable (bindRootCauseEvidence : List RunEvent → Verdict → Verdict)

/-- The diagnosis that the terminal of a read-only turn carries. -/
def settledDiag (r : Run) (diag : Diagnosis) (apply : Bool) : Diagnosis :=
  let verdict := if r.activeExplains then diag.verdict.asExplanation else diag.verdict
  let verdict := if apply then verdict else bindRootCauseEvidence r.events verdict
  { diag with verdict := verdict.settleRevision }

/-- The session and the preview that a finished turn leaves. -/
def adopt (r : Run) (diag : Diagnosis) (apply : Bool) : Run :=
  let settled := r.settledDiag bindRootCauseEvidence diag apply
  { r with
    sessionID := if diag.sessionID ≠ "" ∧ !apply then diag.sessionID else r.sessionID
    preview := if settled.verdict.preview ≠ "" then settled.verdict.preview else r.preview }

def finishTurn (r : Run) (diag : Diagnosis) (turnErr : Option TurnErr) (apply : Bool)
    (timeout : String) : Run × List StoreOp :=
  if r.status = .stopped ∨ r.status = .stale ∨ !r.live then (r.release,[])
  else
    match turnErr with
    | some e =>
      let done := { r with status := .error }.appendLocked
        { type := .error, error := finishError e timeout }
      (done.1.release,done.2)
    | none =>
      let done := { r.adopt bindRootCauseEvidence diag apply with status := .done }.appendLocked
        { type := .done, diag := some (r.settledDiag bindRootCauseEvidence diag apply) }
      (done.1.release,done.2)

end Finish

/-- What a new subscription gets: the events after the given number, and the channel of what
comes, which is closed at once if the run is finalized. -/
def subscribe (r : Run) (afterSeq : ℕ) : Run × List RunEvent × ℕ :=
  let backlog := r.events.filter fun e => afterSeq < e.seq
  match r.subs with
  | none =>
    ({ r with nextSub := r.nextSub+1, chans := Function.update r.chans r.nextSub ⟨[],true⟩ },
      backlog,r.nextSub)
  | some ids =>
    ({ r with
        nextSub := r.nextSub+1, subs := some (ids++[r.nextSub])
        chans := Function.update r.chans r.nextSub {} },
      backlog,r.nextSub)

/-- The cancel function of a subscription. -/
def cancelSub (r : Run) (c : ℕ) : Run :=
  match r.subs with
  | none => r
  | some ids =>
    if c ∈ ids then
      { r with
        subs := some (ids.filter (· ≠ c))
        chans := Function.update r.chans c { r.chans c with closed := true } }
    else r

/-- The reader takes the next event off its channel. -/
def receive (r : Run) (c : ℕ) : Run :=
  { r with chans := Function.update r.chans c { r.chans c with buf := (r.chans c).buf.tail } }

/-- `ensureHydrated`, once the transcript is read; none when it is not to be installed. -/
def install (r : Run) (events : List RunEvent) : Option Run :=
  if r.hydrated then some r
  else if !r.store then none
  else if !r.live ∧ (events.getLast?.map (·.event.isClosed)).getD false = false then none
  else some { r with events := events, hydrated := true }

/-- `assessmentForExplanation` accepts the number of a completed assessment. -/
def assesses (v : Verdict) (turn : StreamEvent) : Bool :=
  if turn.apply || turn.explainAssessment ≠ 0 then false
  else if turn.question = "" || turn.verify then true
  else v.revisesAssessment

def assessmentForExplanation (r : Run) (seq : ℕ) : Option Diagnosis :=
  if seq = 0 ∨ r.events.length < seq then none
  else
    match (r.events.drop (seq-1)).head? with
    | none => none
    | some e =>
      match e.event.diag with
      | none => none
      | some d =>
        if e.event.type ≠ .done ∨ !d.verdict.structured then none
        else
          match ((r.events.take (seq-1)).map (·.event)).reverse.find? StreamEvent.isTurn with
          | none => none
          | some turn => if assesses d.verdict turn then some d else none

end Run

end Radar.Ai
