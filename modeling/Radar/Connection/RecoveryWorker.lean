import Mathlib.Logic.Function.Basic
import Radar.Connection.Operations

/-!
# The auth-recovery debt and its worker

The published status, the debt, the worker's active flag and the one-slot
nudge are updated one after another by any number of publishers and by the
workers these start. When a timer fires, whether a context operation is under
way and how a probe or a reconnect ends are part of the action.
-/

set_option autoImplicit false

namespace Radar.Recovery

open Radar.Connection (ConnectionState)

structure ConnectionStatus where
  state : ConnectionState
  ctx : String := ""
  clusterName : String := ""
  error : String := ""
  errorType : String := ""
  deriving DecidableEq, Repr

def isAuthClassification (classification : String) : Bool :=
  classification = "auth" || classification = "auth-rejected"
    || classification = "auth-plugin-stuck"

def ConnectionStatus.authShaped (status : ConnectionStatus) : Bool :=
  status.state = .disconnected && isAuthClassification status.errorType

def runtimeAuthLostMessage : String :=
  "Kubernetes credentials for this context are no longer valid; re-authenticate to reconnect"
def runtimeAuthRejectedMessage : String :=
  "The cluster could not authenticate this request (HTTP 401)"
def runtimeAuthPluginStuckMessage : String :=
  "The credential plugin for this context stopped responding; Kubernetes requests cannot be authenticated until it recovers"

def demotionMessage (classification : String) : String :=
  if classification = "auth-plugin-stuck" then runtimeAuthPluginStuckMessage
  else if classification = "auth-rejected" then runtimeAuthRejectedMessage
  else runtimeAuthLostMessage

/-- Where a call of `SetConnectionStatus` or a demotion stands after it has written the status. -/
inductive Publisher where
  | idle
  /-- A Connected: the debt is cleared next. -/
  | settling
  /-- An auth-shaped Disconnected: the debt is set next. -/
  | owing (demotion : Bool)
  | loading
  /-- `startRuntimeAuthRecovery` is next. -/
  | starting
  deriving DecidableEq, Repr

inductive Worker where
  | unborn
  | waiting
  /-- The timer fired or the nudge came. -/
  | awake
  | owed
  /-- The status was Connected. -/
  | settling
  | probing (contextName : String)
  /-- The worker's own reconnect has written Connected. -/
  | reconnected
  | leaving
  /-- The active flag is cleared. -/
  | rechecking
  | recheckingStatus
  | restarting
  | gone
  deriving DecidableEq, Repr

/-- `authSince`, which the code does not keep, says that an auth-shaped Disconnected was published
after the last Connected. -/
structure Server where
  status : ConnectionStatus
  owed : Bool := false
  active : Bool := false
  nudge : Bool := false
  publishers : ℕ → Publisher := fun _ => .idle
  workers : ℕ → Worker := fun _ => .unborn
  authSince : Bool := false

/-- Before anything is published. -/
def started : Server where
  status := { state := .connecting }

inductive Act where
  | setConnectionStatus (i : ℕ) (status : ConnectionStatus)
  | transitionConnectedToRuntimeAuthFailure (i : ℕ) (classification : String)
  | settle (i : ℕ)
  | owe (i : ℕ)
  | load (i : ℕ)
  /-- `w` is the worker that is started, if one is. -/
  | start (i w : ℕ)
  | wake (w : ℕ) (nudged : Bool)
  | readOwed (w : ℕ)
  | readStatus (w : ℕ) (operations : Bool)
  | workerSettle (w : ℕ)
  /-- The name of the cluster the reconnect reached, or none if the probe or the reconnect failed or
  was superseded. -/
  | reconnect (w : ℕ) (clusterName : Option String)
  | leave (w : ℕ)
  | recheckOwed (w : ℕ)
  | recheckStatus (w : ℕ)
  | restart (w next : ℕ)
  deriving DecidableEq, Repr

namespace Server

def setPublisher (s : Server) (i : ℕ) (p : Publisher) : Server :=
  { s with publishers := Function.update s.publishers i p }

def setWorker (s : Server) (w : ℕ) (p : Worker) : Server :=
  { s with workers := Function.update s.workers w p }

/-- The status is written. -/
def write (s : Server) (status : ConnectionStatus) : Server :=
  { s with
    status := status
    authSince :=
      if status.state = .connected then false else s.authSince || status.authShaped }

/-- What `SetConnectionStatus` does next. -/
def afterWrite (status : ConnectionStatus) : Publisher :=
  match status.state with
  | .connected => .settling
  | .disconnected => if isAuthClassification status.errorType then .owing false else .loading
  | .connecting => .idle

def setOwed (s : Server) (owed : Bool) : Server := { s with owed := owed }

/-- `startRuntimeAuthRecovery` -/
def startRecovery (s : Server) (w : ℕ) : Server :=
  if s.active then { s with nudge := true } else { s with active := true }.setWorker w .waiting

def publisherStep (s : Server) (a : Act) : Option Server :=
  match a with
  | .setConnectionStatus i status =>
    match s.publishers i with
    | .idle =>
      if s.status = status then some s
      else some ((s.write status).setPublisher i (afterWrite status))
    | _ => none
  | .transitionConnectedToRuntimeAuthFailure i classification =>
    match s.publishers i with
    | .idle =>
      if ¬isAuthClassification classification then none
      else if s.status.state ≠ .connected then some s
      else
        some ((s.write ⟨.disconnected,s.status.ctx,s.status.clusterName,
          demotionMessage classification,classification⟩).setPublisher i (.owing true))
    | _ => none
  | .settle i =>
    match s.publishers i with
    | .settling => some ((s.setOwed false).setPublisher i .idle)
    | _ => none
  | .owe i =>
    match s.publishers i with
    | .owing demotion =>
      some ((s.setOwed true).setPublisher i (if demotion then .starting else .loading))
    | _ => none
  | .load i =>
    match s.publishers i with
    | .loading => some (s.setPublisher i (if s.owed then .starting else .idle))
    | _ => none
  | .start i w =>
    match s.publishers i, s.workers w with
    | .starting, .unborn => some ((s.startRecovery w).setPublisher i .idle)
    | _, _ => none
  | _ => none

/-- `runRuntimeAuthRecovery` -/
def workerStep (s : Server) (a : Act) : Option Server :=
  match a with
  | .wake w nudged =>
    match s.workers w with
    | .waiting =>
      if nudged then
        if s.nudge then some ({ s with nudge := false }.setWorker w .awake) else none
      else some (s.setWorker w .awake)
    | _ => none
  | .readOwed w =>
    match s.workers w with
    | .awake => some (s.setWorker w (if s.owed then .owed else .leaving))
    | _ => none
  | .readStatus w operations =>
    match s.workers w with
    | .owed =>
      match s.status.state with
      | .connected => some (s.setWorker w .settling)
      | .connecting => some (s.setWorker w .waiting)
      | .disconnected =>
        some (s.setWorker w (if operations then .waiting else .probing s.status.ctx))
    | _ => none
  | .workerSettle w =>
    match s.workers w with
    | .settling => some ((s.setOwed false).setWorker w .leaving)
    | .reconnected => some ((s.setOwed false).setWorker w .leaving)
    | _ => none
  | .reconnect w clusterName =>
    match s.workers w with
    | .probing contextName =>
      match clusterName with
      | none => some (s.setWorker w .waiting)
      | some clusterName =>
        if s.status = ⟨.connected,contextName,clusterName,"",""⟩ then
          some (s.setWorker w .leaving)
        else
          some ((s.write ⟨.connected,contextName,clusterName,"",""⟩).setWorker w .reconnected)
    | _ => none
  | .leave w =>
    match s.workers w with
    | .leaving => some ({ s with active := false }.setWorker w .rechecking)
    | _ => none
  | .recheckOwed w =>
    match s.workers w with
    | .rechecking => some (s.setWorker w (if s.owed then .recheckingStatus else .gone))
    | _ => none
  | .recheckStatus w =>
    match s.workers w with
    | .recheckingStatus =>
      some (s.setWorker w (if s.status.state = .connected then .gone else .restarting))
    | _ => none
  | .restart w next =>
    match s.workers w, s.workers next with
    | .restarting, .unborn => some ((s.startRecovery next).setWorker w .gone)
    | _, _ => none
  | _ => none

def step (s : Server) (a : Act) : Option Server :=
  match a with
  | .setConnectionStatus _ _ => s.publisherStep a
  | .transitionConnectedToRuntimeAuthFailure _ _ => s.publisherStep a
  | .settle _ => s.publisherStep a
  | .owe _ => s.publisherStep a
  | .load _ => s.publisherStep a
  | .start _ _ => s.publisherStep a
  | _ => s.workerStep a

end Server

end Radar.Recovery
