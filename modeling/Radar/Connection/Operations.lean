import Mathlib.Data.Nat.Notation
import Mathlib.Logic.Function.Basic
import Radar.Base.Run

/-!
# Operations on the cluster connection and the published status

Context switches, retries and automatic reconnects run one at a time under
`contextOpMu`; a runtime auth demotion takes the lock for its one step. A
success is published under the lock. A failed operation returns its error and
its HTTP handler publishes it later, as does a caller of
`MarkDisconnectedIfClusterUnreachable` whose probe failed. What a cluster or a
kubeconfig answers is part of the action.
-/

set_option autoImplicit false

namespace Radar.Connection

inductive ConnectionState where
  | connected | disconnected | connecting
  deriving DecidableEq, Repr

structure ConnectionStatus where
  state : ConnectionState
  ctx : String
  error : String := ""
  deriving DecidableEq, Repr

/-- What became of the caches: who tore them down last is rebuilding them, has reinitialized them,
has failed, or was a demotion. -/
inductive Caches where
  | reinitialized | rebuilding | failed | demoted
  deriving DecidableEq, Repr

/-- How many operations have torn the caches down, and the generation of the client. -/
structure Epoch where
  teardowns : ℕ
  clientGeneration : ℕ
  deriving DecidableEq, Repr

/-- `retryHandler` names the context it read first; a recovery worker publishes no failure. -/
inductive Caller where
  | switchHandler
  | retryHandler (ctx : String)
  | recovery
  deriving DecidableEq, Repr

structure Operation where
  caller : Caller
  target : String
  /-- The generation the operation requires, if it does. -/
  observedGen : Option ℕ
  deriving DecidableEq, Repr

/-- The context a failure of the operation is published for. -/
def Operation.failureContext (op : Operation) : Option String :=
  match op.caller with
  | .switchHandler => some op.target
  | .retryHandler ctx => some ctx
  | .recovery => none

inductive Thread where
  | idle
  -- `handleConnectionRetry` and `RetryCurrentConnection`
  | retrying (ctx : String)
  | retryCancelled (ctx contextName : String)
  | retryObserved (ctx contextName : String) (gen : ℕ)
  | retryProbed (ctx contextName : String) (gen : ℕ) (error : Option String) (epoch : Epoch)
  -- `runRuntimeAuthRecovery`
  | recovering (contextName : String)
  | recoveryQuiet (contextName : String)
  | recoveryObserved (contextName : String) (gen : ℕ)
  -- `performContextSwitch` and `reinitializeCurrentContextIfOperationCurrent`
  | waiting (op : Operation)
  | locked (op : Operation)
  | torn (op : Operation)
  | swapped (op : Operation)
  /-- The handler has the error in hand; `epoch` is when its own probe failed. -/
  | failed (ctx error : String) (epoch : Option Epoch)
  -- `MarkDisconnectedIfClusterUnreachable`
  | marking (current : ConnectionStatus) (message : String)
  | unreachable (current : ConnectionStatus) (message : String) (epoch : Epoch)
  -- `reportRuntimeAuthFailure` and `confirmRuntimeAuthFailure`
  | reported (generation : ℕ)
  | candidate (generation operationGen : ℕ)
  | checking (generation operationGen : ℕ)
  | confirming (generation operationGen : ℕ)
  | confirmed (generation operationGen : ℕ) (epoch : Epoch)
  | rejected (generation operationGen : ℕ) (epoch : Epoch)

/-- `operations` are the threads that `activeContextOperations` counts. `caches`, `teardowns` and
`lost` are not kept by the code: `lost` says that a probe against the client and the caches in
place failed and was published. -/
structure Server where
  inCluster : Bool
  contextName : String
  activeClientGeneration : ℕ := 0
  operationGen : ℕ := 0
  status : ConnectionStatus
  contextOpMu : Option ℕ := none
  operations : List ℕ := []
  threads : ℕ → Thread := fun _ => .idle
  caches : Caches
  teardowns : ℕ := 0
  lost : Bool := false

/-- After startup, connected or not. -/
def started (inCluster : Bool) (contextName : String) (error : Option String) : Server where
  inCluster := inCluster
  contextName := contextName
  status :=
    match error with
    | none => ⟨.connected,contextName,""⟩
    | some error => ⟨.disconnected,contextName,error⟩
  caches := if error.isNone then .reinitialized else .failed

inductive Act where
  | handleSwitchContext (i : ℕ) (name : String)
  | handleConnectionRetry (i : ℕ)
  | retryCurrentConnection (i : ℕ)
  /-- `currentOperationGen` -/
  | observe (i : ℕ)
  | retryProbe (i : ℕ) (error : Option String)
  | retryCheck (i : ℕ)
  | recover (i : ℕ)
  | recoveryOperations (i : ℕ)
  | reconnect (i : ℕ)
  | giveUp (i : ℕ)
  | lock (i : ℕ) (preflight : Bool)
  | resetAllSubsystems (i : ℕ)
  | switchContext (i : ℕ) (error : Option String)
  /-- Connectivity, initialization and, on success, the publication. -/
  | initAllSubsystems (i : ℕ) (error : Option String)
  | mark (i : ℕ) (message : String)
  | markProbe (i : ℕ) (reachable : Bool)
  /-- `SetConnectionStatus` with a Disconnected status -/
  | publish (i : ℕ)
  | report (i generation : ℕ)
  | intake (i : ℕ)
  | checkOperations (i : ℕ)
  | checkCurrent (i : ℕ)
  | authProbe (i : ℕ) (rejected : Bool)
  | endpointProbe (i : ℕ) (reachable : Bool)
  | demote (i : ℕ) (message : String)

namespace Server

def epoch (s : Server) : Epoch := ⟨s.teardowns,s.activeClientGeneration⟩

def setThread (s : Server) (i : ℕ) (t : Thread) : Server :=
  { s with threads := Function.update s.threads i t }

/-- `activeContextOperations.Add(1)`, then wait for the lock. -/
def begin (s : Server) (i : ℕ) (op : Operation) : Server :=
  { s with operations := i::s.operations }.setThread i (.waiting op)

/-- The operation returns and gives the lock back, if it had it. -/
def leave (s : Server) (i : ℕ) (t : Thread) : Server :=
  { s with contextOpMu := none, operations := s.operations.erase i }.setThread i t

def superseded (s : Server) (op : Operation) : Bool :=
  op.observedGen.any fun gen => gen ≠ s.operationGen

/-- Both operations up to their first effect. -/
def enter (s : Server) (i : ℕ) (op : Operation) (preflight : Bool) : Server :=
  if s.superseded op then s.leave i .idle
  else if if s.inCluster then op.target = s.contextName else preflight then
    { s with contextOpMu := some i }.setThread i (.locked op)
  else s.leave i .idle

/-- In cluster the generation is not moved and the client not swapped. -/
def teardown (s : Server) (i : ℕ) (op : Operation) : Server :=
  { s with
    operationGen := if s.inCluster then s.operationGen else s.operationGen+1
    teardowns := s.teardowns+1
    caches := .rebuilding }.setThread i (.torn op)

def swap (s : Server) (i : ℕ) (op : Operation) : Server :=
  { s with
    contextName := op.target
    activeClientGeneration := s.activeClientGeneration+1 }.setThread i (.swapped op)

/-- An error after the teardown. -/
def fail (s : Server) (i : ℕ) (ctx : Option String) (error : String) : Server :=
  { s with caches := .failed }.leave i
    (match ctx with
    | none => .idle
    | some ctx => .failed ctx error none)

def succeed (s : Server) (i : ℕ) (op : Operation) : Server :=
  { s with
    caches := .reinitialized
    lost := false
    status := ⟨.connected,op.target,""⟩ }.leave i .idle

/-- The end of an operation that has torn the caches down. In cluster it is superseded, without an
error to publish, when the generation has moved. -/
def finish (s : Server) (i : ℕ) (op : Operation) (error : Option String) : Server :=
  if s.inCluster && s.superseded op then s.fail i none ""
  else
    match error with
    | none => s.succeed i op
    | some error => s.fail i op.failureContext error

def disconnect (s : Server) (i : ℕ) (status : ConnectionStatus) (epoch : Option Epoch) : Server :=
  { s with status := status, lost := s.lost || (epoch = some s.epoch) }.setThread i .idle

/-- `runtimeAuthStateIsCurrent` -/
def stateIsCurrent (s : Server) (generation : ℕ) : Bool :=
  !s.inCluster && (s.activeClientGeneration = generation) && (s.status.state = .connected)

/-- `transitionConnectedToRuntimeAuthFailure` and the teardown under the lock. -/
def demotion (s : Server) (i : ℕ) (message : String) (epoch : Epoch) : Server :=
  { s.disconnect i ⟨.disconnected,s.status.ctx,message⟩ (some epoch) with
    operationGen := s.operationGen+1
    caches := .demoted }

def retryStep (s : Server) (a : Act) : Option Server :=
  match a with
  | .handleConnectionRetry i =>
    match s.threads i with
    | .idle => some (s.setThread i (.retrying s.contextName))
    | _ => none
  | .retryCurrentConnection i =>
    match s.threads i with
    | .retrying ctx =>
      if s.inCluster then
        some ({ s with operationGen := s.operationGen+1 }.setThread i
          (.retryCancelled ctx s.contextName))
      else some (s.begin i ⟨.retryHandler ctx,s.contextName,none⟩)
    | _ => none
  | .retryProbe i error =>
    match s.threads i with
    | .retryObserved ctx contextName gen =>
      if gen ≠ s.operationGen then some (s.setThread i .idle)
      else some (s.setThread i (.retryProbed ctx contextName gen error s.epoch))
    | _ => none
  | .retryCheck i =>
    match s.threads i with
    | .retryProbed ctx contextName gen error epoch =>
      if gen ≠ s.operationGen then some (s.setThread i .idle)
      else
        match error with
        | some error => some (s.setThread i (.failed ctx error (some epoch)))
        | none => some (s.begin i ⟨.retryHandler ctx,contextName,some gen⟩)
    | _ => none
  | _ => none

def recoveryStep (s : Server) (a : Act) : Option Server :=
  match a with
  | .recover i =>
    match s.threads i with
    | .idle =>
      match s.status.state with
      | .disconnected => some (s.setThread i (.recovering s.status.ctx))
      | _ => some s
    | _ => none
  | .recoveryOperations i =>
    match s.threads i with
    | .recovering contextName =>
      if s.operations = [] then some (s.setThread i (.recoveryQuiet contextName))
      else some (s.setThread i .idle)
    | _ => none
  | .reconnect i =>
    match s.threads i with
    | .recoveryObserved contextName gen => some (s.begin i ⟨.recovery,contextName,some gen⟩)
    | _ => none
  | .giveUp i =>
    match s.threads i with
    | .recoveryObserved _ _ => some (s.setThread i .idle)
    | _ => none
  | _ => none

def operationStep (s : Server) (a : Act) : Option Server :=
  match a with
  | .handleSwitchContext i name =>
    match s.threads i with
    | .idle =>
      if s.inCluster then some s else some (s.begin i ⟨.switchHandler,name,none⟩)
    | _ => none
  | .lock i preflight =>
    match s.threads i, s.contextOpMu with
    | .waiting op, none => some (s.enter i op preflight)
    | _, _ => none
  | .resetAllSubsystems i =>
    match s.threads i with
    | .locked op => some (s.teardown i op)
    | _ => none
  | .switchContext i error =>
    match s.threads i with
    | .torn op =>
      if s.inCluster then none
      else
        match error with
        | none => some (s.swap i op)
        | some error => some (s.fail i op.failureContext error)
    | _ => none
  | .initAllSubsystems i error =>
    match s.threads i with
    | .torn op => if s.inCluster then some (s.finish i op error) else none
    | .swapped op => some (s.finish i op error)
    | _ => none
  | _ => none

def markStep (s : Server) (a : Act) : Option Server :=
  match a with
  | .mark i message =>
    match s.threads i with
    | .idle =>
      if s.status.state = .disconnected ∧ s.status.error = message then some s
      else some (s.setThread i (.marking s.status message))
    | _ => none
  | .markProbe i reachable =>
    match s.threads i with
    | .marking current message =>
      if reachable then some (s.setThread i .idle)
      else some (s.setThread i (.unreachable current message s.epoch))
    | _ => none
  | .publish i =>
    match s.threads i with
    | .failed ctx error epoch => some (s.disconnect i ⟨.disconnected,ctx,error⟩ epoch)
    | .unreachable current message epoch =>
      some (s.disconnect i ⟨.disconnected,current.ctx,message⟩ (some epoch))
    | _ => none
  | _ => none

def demotionStep (s : Server) (a : Act) : Option Server :=
  match a with
  | .report i generation =>
    match s.threads i with
    | .idle =>
      if s.operations = [] then some (s.setThread i (.reported generation)) else some s
    | _ => none
  | .intake i =>
    match s.threads i with
    | .reported generation =>
      if s.stateIsCurrent generation then
        some (s.setThread i (.candidate generation s.operationGen))
      else some (s.setThread i .idle)
    | _ => none
  | .checkOperations i =>
    match s.threads i with
    | .candidate generation operationGen =>
      if s.operations = [] then some (s.setThread i (.checking generation operationGen))
      else some (s.setThread i .idle)
    | _ => none
  | .checkCurrent i =>
    match s.threads i with
    | .checking generation operationGen =>
      if s.stateIsCurrent generation && (s.operationGen = operationGen) then
        some (s.setThread i (.confirming generation operationGen))
      else some (s.setThread i .idle)
    | _ => none
  | .authProbe i rejected =>
    match s.threads i with
    | .confirming generation operationGen =>
      if rejected && (s.operationGen = operationGen) then
        some (s.setThread i (.confirmed generation operationGen s.epoch))
      else some (s.setThread i .idle)
    | _ => none
  | .endpointProbe i reachable =>
    match s.threads i with
    | .confirmed generation operationGen epoch =>
      if reachable && (s.operationGen = operationGen) then
        some (s.setThread i (.rejected generation operationGen epoch))
      else some (s.setThread i .idle)
    | _ => none
  | .demote i message =>
    match s.threads i, s.contextOpMu with
    | .rejected generation operationGen epoch, none =>
      if s.stateIsCurrent generation && (s.operationGen = operationGen) then
        some (s.demotion i message epoch)
      else some (s.setThread i .idle)
    | _, _ => none
  | _ => none

def step (s : Server) (a : Act) : Option Server :=
  match a with
  | .observe i =>
    match s.threads i with
    | .retryCancelled ctx contextName =>
      some (s.setThread i (.retryObserved ctx contextName s.operationGen))
    | .recoveryQuiet contextName =>
      some (s.setThread i (.recoveryObserved contextName s.operationGen))
    | _ => none
  | .handleConnectionRetry _ => s.retryStep a
  | .retryCurrentConnection _ => s.retryStep a
  | .retryProbe _ _ => s.retryStep a
  | .retryCheck _ => s.retryStep a
  | .recover _ => s.recoveryStep a
  | .recoveryOperations _ => s.recoveryStep a
  | .reconnect _ => s.recoveryStep a
  | .giveUp _ => s.recoveryStep a
  | .mark _ _ => s.markStep a
  | .markProbe _ _ => s.markStep a
  | .publish _ => s.markStep a
  | .handleSwitchContext _ _ => s.operationStep a
  | .lock _ _ => s.operationStep a
  | .resetAllSubsystems _ => s.operationStep a
  | .switchContext _ _ => s.operationStep a
  | .initAllSubsystems _ _ => s.operationStep a
  | _ => s.demotionStep a

end Server

end Radar.Connection
