import Mathlib.Logic.Function.Basic
import Mathlib.Logic.Function.Iterate
import Radar.Base.Run
import Radar.Ai.Runs

/-!
# The run manager

Any number of threads call the manager, run agents and read subscriptions; a
step is one critical section or one call out. A goroutine that executes turns
goes on in the place of the call that launched it. Only ClearHistory keeps
mutexes over several steps: the manager's, and those of the runs it drops. How
an agent ends, what it emits and whether a read or a delete succeeds are part
of the action.
-/

set_option autoImplicit false

namespace Radar.Ai

/-- What a call does once the transcript is in memory. -/
inductive Goal where
  | addTurn (turn : RunTurn)
  | stop
  | subscribe
  deriving DecidableEq, Repr

inductive Thread where
  | idle
  /-- Start has read the context. -/
  | starting (target : Target) (context : String)
  | inserted (r : ℕ)
  | summarized (r : ℕ) (summary : RunSummary)
  | saved (r : ℕ)
  | looked (r : ℕ) (goal : Goal)
  /-- The barrier is the operation with this number. -/
  | loading (r : ℕ) (goal : Goal) (stamp : ℕ)
  | loaded (r : ℕ) (goal : Goal) (events : List RunEvent)
  | ready (r : ℕ) (goal : Goal)
  | begun (r : ℕ) (turn : RunTurn)
  | running (r : ℕ) (turn : RunTurn)
  | returned (r : ℕ) (turn : RunTurn) (diag : Diagnosis) (turnErr : Option TurnErr)
      (timeout : String)
  /-- The question of the verification, if there is to be one. -/
  | applied (r : ℕ) (turn : RunTurn) (terminal : StreamEvent) (verify : Option String)
  | reading (r : ℕ) (chan : ℕ) (backlog : List RunEvent)
  | staling (todo : List ℕ)
  | shuttingDown (todo : List ℕ)
  | clearing (todo kept dropped : List ℕ)
  | deleting (kept dropped : List ℕ) (stamp : ℕ) (commits : Bool)

/-- `tables` is what the store held when the process began, `ops` all that was enqueued since, of
which the writer has done the first `applied`. `processed` is what each reader has processed. -/
structure Manager where
  runs : ℕ → Run := fun id => { id := id }
  made : ℕ := 0
  order : List ℕ := []
  maxRetained : ℕ := 100
  maxConcurrent : ℕ := 3
  ctx : String := ""
  sweptCtx : String := ""
  hasStore : Bool := true
  storeClosed : Bool := false
  tables : Tables := {}
  ops : List StoreOp := []
  applied : ℕ := 0
  /-- ClearHistory holds the manager. -/
  mu : Bool := false
  /-- The runs that ClearHistory holds. -/
  locked : List ℕ := []
  threads : ℕ → Thread := fun _ => .idle
  processed : ℕ → List RunEvent := fun _ => []

inductive Act where
  | write
  | connect (context : String)
  | start (i : ℕ) (target : Target)
  | insert (i : ℕ)
  | summarize (i : ℕ)
  | saveRun (i : ℕ)
  | launch (i : ℕ)
  | get (i r : ℕ) (goal : Goal)
  | hydrate (i : ℕ)
  | load (i : ℕ) (fails : Bool)
  | install (i : ℕ)
  | beginTurn (i : ℕ)
  | stop (i : ℕ)
  | subscribe (i : ℕ)
  | emit (i : ℕ) (e : StreamEvent)
  | agentReturns (i : ℕ) (diag : Diagnosis) (turnErr : Option TurnErr)
      (outcome : ApplyMutationOutcome) (timeout : String)
  | finish (i : ℕ)
  | onContextSwitch (i : ℕ)
  | markStale (i : ℕ)
  | shutdown (i : ℕ)
  | shutdownRun (i : ℕ)
  | closeStore (i : ℕ)
  | clearHistory (i : ℕ)
  | visit (i : ℕ)
  | clearTerminal (i : ℕ) (commits : Bool)
  | clearReturns (i : ℕ)
  | receive (i : ℕ)
  | cancel (i : ℕ)
  | resubscribe (i : ℕ)

namespace Manager

def setThread (s : Manager) (i : ℕ) (t : Thread) : Manager :=
  { s with threads := Function.update s.threads i t }

/-- A closed store takes nothing. -/
def enqueue (s : Manager) (ops : List StoreOp) : Manager :=
  { s with ops := if s.storeClosed then s.ops else s.ops++ops }

/-- What a critical section makes of a run, with what it enqueues. -/
def put (s : Manager) (r : ℕ) (done : Run × List StoreOp) : Manager :=
  { s with runs := Function.update s.runs r done.1 }.enqueue done.2

/-- The tables as the writer has them. -/
def current (s : Manager) : Tables := s.tables.applyAll (s.ops.take s.applied)

def countInFlight (s : Manager) : ℕ := s.order.countP fun r => (s.runs r).inFlight

/-- One round of the loop of `evictLocked`. -/
def evictOldest (s : Manager) : Manager :=
  match s.order.find? fun r => (s.runs r).status ≠ .running with
  | none => s
  | some r =>
    ({ s with order := s.order.erase r }.put r
      ({ s.runs r with store := false }.finalizeLocked)).enqueue
      (if s.hasStore then [.deleteRun r] else [])

def evictLocked (s : Manager) : Manager := evictOldest^[s.order.length-s.maxRetained] s

/-- `sweepForeignLocked` -/
def sweepForeign (s : Manager) : Manager :=
  if s.ctx = "" ∨ s.ctx = s.sweptCtx then s
  else
    s.order.foldl
      (fun s r => if (s.runs r).context ≠ s.ctx then s.put r (s.runs r).markStale else s)
      { s with sweptCtx := s.ctx }

/-- A run that Start creates. -/
def newRun (s : Manager) (target : Target) (context : String) : Run where
  id := s.made
  target := target
  context := context
  status := .running
  inFlight := true
  hydrated := true
  subs := some []
  store := s.hasStore

def startStep (s : Manager) (a : Act) : Option Manager :=
  match a with
  | .start i target =>
    match s.threads i with
    | .idle => some (s.setThread i (.starting target s.ctx))
    | _ => none
  | .insert i =>
    match s.threads i with
    | .starting target context =>
      if s.mu then none
      else if s.order.any fun r => (s.runs r).target = target && (s.runs r).context = context
          && (s.runs r).status = .running then
        some (s.setThread i .idle)
      else if s.maxConcurrent ≤ s.countInFlight then some (s.setThread i .idle)
      else
        some (({ s with
          runs := Function.update s.runs s.made (s.newRun target context)
          made := s.made+1
          order := s.order++[s.made] }.evictLocked).setThread i (.inserted s.made))
    | _ => none
  | .summarize i =>
    match s.threads i with
    | .inserted r =>
      if r ∈ s.locked then none
      else if s.hasStore then some (s.setThread i (.summarized r (s.runs r).summaryLocked))
      else some (s.setThread i (.saved r))
    | _ => none
  | .saveRun i =>
    match s.threads i with
    | .summarized r summary => some ((s.enqueue [.saveRun summary]).setThread i (.saved r))
    | _ => none
  | _ => none

/-- `launchTurn` -/
def launch (s : Manager) (i r : ℕ) (turn : RunTurn) : Option Manager :=
  if r ∈ s.locked then none
  else
    match (s.runs r).launchTurn turn with
    | none => some ((s.put r ((s.runs r).release,[])).setThread i .idle)
    | some done => some ((s.put r done).setThread i (.running r turn))

/-- The transcript could not be loaded. Stop goes on, and a subscriber tries again. -/
def unhydrated (s : Manager) (i r : ℕ) : Goal → Manager
  | .addTurn _ => s.setThread i .idle
  | .stop => s.setThread i (.ready r .stop)
  | .subscribe => s.setThread i (.looked r .subscribe)

def hydrateStep (s : Manager) (a : Act) : Option Manager :=
  match a with
  | .get i r goal =>
    match s.threads i with
    | .idle =>
      if s.mu then none
      else if goal matches .addTurn { apply := true, verify := true, .. } then none
      else
        let s := s.sweepForeign
        if r ∈ s.order then
          some ({ s with
            processed := if goal = Goal.subscribe then Function.update s.processed i []
              else s.processed }.setThread i (.looked r goal))
        else some s
    | _ => none
  | .hydrate i =>
    match s.threads i with
    | .looked r goal =>
      if r ∈ s.locked then none
      else if (s.runs r).hydrated ∨ !(s.runs r).store then some (s.setThread i (.ready r goal))
      else some (s.setThread i (.loading r goal s.ops.length))
    | _ => none
  | .load i fails =>
    match s.threads i with
    | .loading r goal stamp =>
      if s.applied < stamp ∧ !s.storeClosed then none
      else if fails then some (s.unhydrated i r goal)
      else
        match s.current.loadEvents r with
        | none => some (s.unhydrated i r goal)
        | some events => some (s.setThread i (.loaded r goal events))
    | _ => none
  | .install i =>
    match s.threads i with
    | .loaded r goal events =>
      if r ∈ s.locked then none
      else
        match (s.runs r).install events with
        | none => some (s.unhydrated i r goal)
        | some run => some ((s.put r (run,[])).setThread i (.ready r goal))
    | _ => none
  | _ => none

def turnStep (s : Manager) (a : Act) : Option Manager :=
  match a with
  | .launch i =>
    match s.threads i with
    | .saved r => s.launch i r {}
    | .begun r turn => s.launch i r turn
    | _ => none
  | .beginTurn i =>
    match s.threads i with
    | .ready r (.addTurn turn) =>
      if s.mu ∨ r ∈ s.locked then none
      else if turn.explainAssessment ≠ 0 ∧
          ((s.runs r).assessmentForExplanation turn.explainAssessment).isNone then
        some (s.setThread i .idle)
      else if r ∉ s.order ∨ s.maxConcurrent ≤ s.countInFlight then some (s.setThread i .idle)
      else
        match (s.runs r).beginTurn true with
        | none => some (s.setThread i .idle)
        | some done =>
          some ((s.put r done).setThread i
            (.begun r { turn with canonicalSession := (s.runs r).sessionID }))
    | _ => none
  | .stop i =>
    match s.threads i with
    | .ready r .stop =>
      if r ∈ s.locked then none
      else some ((s.put r (s.runs r).stop).setThread i .idle)
    | _ => none
  | _ => none

/-- What an apply turn that has ended goes on with. -/
def closing (s : Manager) (r : ℕ) (turn : RunTurn) (diag : Diagnosis) (turnErr : Option TurnErr)
    (outcome : ApplyMutationOutcome) (timeout : String) : Thread :=
  if outcome ≠ .failed ∧ s.ctx = (s.runs r).context then
    .applied r turn (applyTerminalEvent diag turnErr outcome timeout true)
      (some (if outcome = .unknown then automaticUncertainVerificationPrompt
        else automaticVerificationPrompt))
  else
    let terminal := applyTerminalEvent diag turnErr outcome timeout false
    .applied r turn
      (if outcome ≠ .failed then unverifiedTerminal terminal outcome else terminal) none

section Agents

variable (bindRootCauseEvidence : List RunEvent → Verdict → Verdict)

def agentStep (s : Manager) (a : Act) : Option Manager :=
  match a with
  | .emit i e =>
    match s.threads i with
    | .running r _ =>
      if r ∈ s.locked ∨ !e.isAgent then none
      else some (s.put r ((s.runs r).appendStreamEvent e))
    | _ => none
  | .agentReturns i diag turnErr outcome timeout =>
    match s.threads i with
    | .running r turn =>
      if turn.apply ∧ !turn.verify then
        some (s.setThread i (s.closing r turn diag turnErr outcome timeout))
      else some (s.setThread i (.returned r turn diag turnErr timeout))
    | _ => none
  | .finish i =>
    match s.threads i with
    | .returned r turn diag turnErr timeout =>
      if r ∈ s.locked then none
      else
        some ((s.put r ((s.runs r).finishTurn bindRootCauseEvidence diag turnErr turn.apply
          timeout)).setThread i .idle)
    | .applied r _ terminal none =>
      if r ∈ s.locked then none
      else
        some ((s.put r ((s.runs r).finishApplyWithoutVerification terminal)).setThread i .idle)
    | .applied r turn terminal (some question) =>
      if r ∈ s.locked then none
      else
        match (s.runs r).finishApplyAndBeginVerification terminal question with
        | none => some ((s.put r ((s.runs r).release,[])).setThread i .idle)
        | some done =>
          some ((s.put r done).setThread i
            (.running r
              { question := question, verify := true, canonicalSession := turn.canonicalSession }))
    | _ => none
  | _ => none

end Agents

def sweepStep (s : Manager) (a : Act) : Option Manager :=
  match a with
  | .onContextSwitch i =>
    match s.threads i with
    | .idle => if s.mu then none else some (s.setThread i (.staling s.order))
    | _ => none
  | .markStale i =>
    match s.threads i with
    | .staling (r::todo) =>
      if r ∈ s.locked then none
      else some ((s.put r (s.runs r).markStale).setThread i (.staling todo))
    | .staling [] => some (s.setThread i .idle)
    | _ => none
  | .shutdown i =>
    match s.threads i with
    | .idle => if s.mu then none else some (s.setThread i (.shuttingDown s.order))
    | _ => none
  | .shutdownRun i =>
    match s.threads i with
    | .shuttingDown (r::todo) =>
      if r ∈ s.locked then none
      else some ((s.put r (s.runs r).shutdown).setThread i (.shuttingDown todo))
    | _ => none
  | .closeStore i =>
    match s.threads i with
    | .shuttingDown [] => some ({ s with storeClosed := true }.setThread i .idle)
    | _ => none
  | _ => none

/-- ClearHistory detaches and finalizes a run that it dropped. -/
def drop (s : Manager) (r : ℕ) : Manager :=
  s.put r ({ s.runs r with store := false }.finalizeLocked)

def clearStep (s : Manager) (a : Act) : Option Manager :=
  match a with
  | .clearHistory i =>
    match s.threads i with
    | .idle =>
      if s.mu then none
      else some ({ s with mu := true }.setThread i (.clearing s.order [] []))
    | _ => none
  | .visit i =>
    match s.threads i with
    | .clearing (r::todo) kept dropped =>
      if (s.runs r).status = .running then
        some (s.setThread i (.clearing todo (kept++[r]) dropped))
      else
        some ({ s with locked := s.locked++[r] }.setThread i (.clearing todo kept (dropped++[r])))
    | _ => none
  | .clearTerminal i commits =>
    match s.threads i with
    | .clearing [] kept dropped =>
      if !s.hasStore then some (s.setThread i (.deleting kept dropped 0 true))
      else if s.storeClosed then some (s.setThread i (.deleting kept dropped 0 false))
      else
        some ((s.enqueue [.clearTerminal commits]).setThread i
          (.deleting kept dropped (s.ops.length+1) commits))
    | _ => none
  | .clearReturns i =>
    match s.threads i with
    | .deleting kept dropped stamp commits =>
      if s.applied < stamp then none
      else
        let cleared := if commits then { dropped.foldl drop s with order := kept } else s
        some ({ cleared with mu := false, locked := [] }.setThread i .idle)
    | _ => none
  | _ => none

/-- A reader stops at the closed event. -/
def stopped (s : Manager) (i : ℕ) : Bool := (s.processed i).any (·.event.isClosed)

def process (s : Manager) (i : ℕ) (e : RunEvent) : Manager :=
  { s with processed := Function.update s.processed i (s.processed i++[e]) }

def readStep (s : Manager) (a : Act) : Option Manager :=
  match a with
  | .subscribe i =>
    match s.threads i with
    | .ready r .subscribe =>
      if r ∈ s.locked then none
      else
        let got := (s.runs r).subscribe (((s.processed i).getLast?.map (·.seq)).getD 0)
        some ((s.put r (got.1,[])).setThread i (.reading r got.2.2 got.2.1))
    | _ => none
  | .receive i =>
    match s.threads i with
    | .reading r c (e::rest) =>
      if s.stopped i then none
      else some ((s.process i e).setThread i (.reading r c rest))
    | .reading r c [] =>
      if s.stopped i then none
      else
        match ((s.runs r).chans c).buf with
        | [] => none
        | e::_ => some ((s.process i e).put r ((s.runs r).receive c,[]))
    | _ => none
  | .cancel i =>
    match s.threads i with
    | .reading r c _ =>
      if r ∈ s.locked then none else some (s.put r ((s.runs r).cancelSub c,[]))
    | _ => none
  | .resubscribe i =>
    match s.threads i with
    | .reading r c [] =>
      if s.stopped i ∨ ((s.runs r).chans c).buf ≠ [] ∨ !((s.runs r).chans c).closed then none
      else some (s.setThread i (.looked r .subscribe))
    | _ => none
  | _ => none

section Steps

variable (bindRootCauseEvidence : List RunEvent → Verdict → Verdict)

def step (s : Manager) (a : Act) : Option Manager :=
  match a with
  | .write => if s.applied < s.ops.length then some { s with applied := s.applied+1 } else none
  | .connect context => some { s with ctx := context }
  | .start _ _ | .insert _ | .summarize _ | .saveRun _ => s.startStep a
  | .get _ _ _ | .hydrate _ | .load _ _ | .install _ => s.hydrateStep a
  | .launch _ | .beginTurn _ | .stop _ => s.turnStep a
  | .emit _ _ | .agentReturns _ _ _ _ _ | .finish _ => s.agentStep bindRootCauseEvidence a
  | .onContextSwitch _ | .markStale _ | .shutdown _ | .shutdownRun _ | .closeStore _ =>
    s.sweepStep a
  | .clearHistory _ | .visit _ | .clearTerminal _ _ | .clearReturns _ => s.clearStep a
  | .subscribe _ | .receive _ | .cancel _ | .resubscribe _ => s.readStep a

end Steps

end Manager

end Radar.Ai
