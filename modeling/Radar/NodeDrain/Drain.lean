import Mathlib.Data.List.Lex
import Mathlib.Data.List.Sort
import Mathlib.Data.String.Basic
import Mathlib.Logic.Function.Basic
import Radar.Base.Run
import Radar.NodeDrain.Classify

/-!
# Draining a node

`DrainNode` lists the node's pods once, evicts those it chose by their names,
each on a goroutine of its own, and may wait until they are gone. Pods come and
go meanwhile, requests fail, and either context may end between any two steps.
-/

set_option autoImplicit false

namespace Radar.NodeDrain

def maxConcurrent : ℕ := 5

inductive DrainCompletionOutcome where
  | complete
  | incomplete
  | unconfirmed
  | started
  deriving DecidableEq, Repr

structure DrainResult where
  evictedPods : List Text := []
  skippedPods : List PodDrainDecision := []
  errors : List Text := []
  outcome : Option DrainCompletionOutcome := none
  waitedForDeletion : Bool := false
  pendingPods : List Text := []
  unconfirmedPods : List Text := []
  verificationError : Text := []
  deriving DecidableEq

namespace DrainResult

def completionOutcome (r : DrainResult) : DrainCompletionOutcome :=
  if r.errors ≠ [] ∨ r.pendingPods ≠ [] then .incomplete
  else if r.skippedPods.any (·.blocksDrain) then .incomplete
  else if r.unconfirmedPods ≠ [] ∨ r.verificationError ≠ [] then .unconfirmed
  else if r.evictedPods ≠ [] ∧ !r.waitedForDeletion then .started
  else .complete

def concluded (r : DrainResult) : DrainResult := { r with outcome := some r.completionOutcome }

end DrainResult

structure DrainedPod where
  ns : Name
  name : Name
  uid : Text
  deriving DecidableEq

def podName (ns name : Name) : Text := ns.1++ '/'::name.1

/-- The request that `evictPod` sends. A precondition makes the API server refuse another pod. -/
structure Eviction where
  ns : Name
  name : Name
  gracePeriodSeconds : Option ℤ
  preconditionUID : Option Text
  deriving DecidableEq

def evictionOf (opts : DrainOptions) (pod : Pod) : Eviction where
  ns := pod.ns
  name := pod.name
  gracePeriodSeconds := opts.gracePeriodSeconds
  preconditionUID := none

/-- Where the goroutine of a pod stands. -/
inductive Worker where
  /-- At the select for a slot. -/
  | ready (attempted : Bool)
  | holding (attempted : Bool)
  /-- The request is on its way; the slot is held. -/
  | calling
  | backingOff
  | finished (err : Option Text)
  deriving DecidableEq

def Worker.busy : Worker → Bool
  | holding _ | calling => true
  | _ => false

inductive Place where
  | cordoning
  | listing
  | evicting
  /-- `pollUntilPodsGone` looks at its context first. -/
  | waiting (remaining : List DrainedPod)
  | polling (remaining : List DrainedPod)
  /-- Polling ended with pods left. -/
  | unsettled (remaining : List DrainedPod)
  | checking (remaining : List DrainedPod)
  | returned (out : Except Text DrainResult)

/-- The fields from `past` on are not kept by the code: what was stored at every moment so far, the
answers to the lists that succeeded, what was stored when the node was listed, the evictions that
were admitted with the pod they met, and whether the last check failed. -/
structure Drain where
  pods : List Pod
  used : List Text
  callerErr : Option Text := none
  drainErr : Option Text := none
  place : Place := .cordoning
  listed : List Pod := []
  toEvict : List Pod := []
  workers : ℕ → Worker := fun _ => .ready false
  evicted : List DrainedPod := []
  result : DrainResult := {}
  past : List (List Pod)
  lists : List (List Pod) := []
  atList : List Pod := []
  admitted : List (Pod × Pod) := []
  finalFailed : Bool := false

/-- What the API server makes of an eviction. -/
inductive Answer where
  /-- The pod that is stored is deleted, at `stamp` or at once; the answer may be lost. -/
  | admitted (stamp : Option ℤ) (lost : Option Text)
  | notFound
  | tooManyRequests
  | failed (err : Text)
  deriving DecidableEq

inductive Move where
  | acquire
  | giveUp
  | check
  | answer (a : Answer)
  | resume
  | expire
  deriving DecidableEq

inductive Act where
  | remove (uid : Text)
  | alter (pod : Pod)
  | create (pod : Pod)
  | cancel (err : Text)
  | deadline
  | cordon (err : Option Text)
  | list (err : Option Text)
  | work (i : ℕ) (move : Move)
  | join
  | look
  | poll (err : Option Text)
  | stopPolling
  | checkCaller
  | finalCheck (err : Option Text)
  deriving DecidableEq

section Cluster

def sameKey (ns name : Name) (pod : Pod) : Bool := decide (pod.ns = ns ∧ pod.name = name)

/-- Node, phase and the rest of a pod may change, its identity does not. -/
def alterPod (pods : List Pod) (pod : Pod) : List Pod :=
  pods.map fun q => if q.uid = pod.uid ∧ q.ns = pod.ns ∧ q.name = pod.name then pod else q

def deletePod (pods : List Pod) (victim : Pod) : Option ℤ → List Pod
  | none => pods.filter fun q => decide (q.uid ≠ victim.uid)
  | some stamp => alterPod pods { victim with deletionTimestamp := some stamp }

def podsOn (nodeName : Text) (pods : List Pod) : List Pod :=
  pods.filter fun q => decide (q.nodeName = nodeName)

def deadlineExceeded : Text := "context deadline exceeded".toList

/-- Whether a text is listed is decided by comparing. -/
local instance : LawfulBEq Text := inferInstance

/-- Steps of the cluster and of the contexts. -/
def stepAround (s : Drain) : Act → Option Drain
  | .remove uid => some { s with pods := s.pods.filter fun q => decide (q.uid ≠ uid) }
  | .alter pod => some { s with pods := alterPod s.pods pod }
  | .create pod =>
    if !s.pods.any (sameKey pod.ns pod.name) ∧ pod.uid ∉ s.used then
      some { s with pods := s.pods++[pod], used := pod.uid::s.used }
    else none
  | .cancel err =>
    if s.callerErr = none then
      some { s with callerErr := some err, drainErr := s.drainErr.or (some err) }
    else none
  | .deadline =>
    if s.drainErr = none then some { s with drainErr := some deadlineExceeded } else none
  | _ => none

end Cluster

section Evict

variable (opts : DrainOptions)

def timedOut (ctxErr : Text) : Text :=
  "timed out waiting for PDB to allow eviction: ".toList++ctxErr

def deadlineErr (attempted : Bool) (ctxErr : Text) : Text :=
  if attempted then timedOut ctxErr
  else "drain deadline passed before this pod could be attempted: ".toList++ctxErr

/-- The goroutine of the `i`-th pod ends and records its outcome. -/
def record (s : Drain) (i : ℕ) (pod : Pod) : Option Text → Drain
  | some err =>
    { s with
      workers := Function.update s.workers i (.finished (some err))
      result := { s.result with
        errors := s.result.errors++[podName pod.ns pod.name++": ".toList++err] } }
  | none =>
    { s with
      workers := Function.update s.workers i (.finished none)
      result := { s.result with evictedPods := s.result.evictedPods++[podName pod.ns pod.name] }
      evicted := s.evicted++[⟨pod.ns,pod.name,pod.uid⟩] }

def setWorker (s : Drain) (i : ℕ) (w : Worker) : Drain :=
  { s with workers := Function.update s.workers i w }

def evictError (err : Text) : Text := "evict: ".toList++err

/-- The API server admits an eviction for whatever pod is stored under the name, unless the
request carries another pod's UID. -/
def serve (s : Drain) (i : ℕ) (pod : Pod) : Answer → Option Drain
  | .admitted stamp lost =>
    match s.pods.find? (sameKey (evictionOf opts pod).ns (evictionOf opts pod).name) with
    | none => none
    | some victim =>
      if (evictionOf opts pod).preconditionUID.all fun uid => decide (uid = victim.uid) then
        some (record
          { s with
            pods := deletePod s.pods victim stamp
            admitted := (pod,victim)::s.admitted } i pod (lost.map evictError))
      else none
  | .notFound =>
    if s.pods.any (sameKey (evictionOf opts pod).ns (evictionOf opts pod).name) then none
    else some (record s i pod none)
  | .tooManyRequests => some (setWorker s i .backingOff)
  | .failed err => some (record s i pod (some (evictError err)))

def slotsUsed (s : Drain) : ℕ :=
  ((List.range s.toEvict.length).filter fun i => (s.workers i).busy).length

/-- A step of `evictPod`. -/
def work (s : Drain) (i : ℕ) (pod : Pod) : Move → Option Drain
  | .acquire =>
    match s.workers i with
    | .ready attempted =>
      if slotsUsed s < maxConcurrent then some (setWorker s i (.holding attempted)) else none
    | _ => none
  | .giveUp =>
    match s.workers i, s.drainErr with
    | .ready attempted, some e => some (record s i pod (some (deadlineErr attempted e)))
    | _, _ => none
  | .check =>
    match s.workers i, s.drainErr with
    | .holding attempted, some e => some (record s i pod (some (deadlineErr attempted e)))
    | .holding _, none => some (setWorker s i .calling)
    | _, _ => none
  | .answer a =>
    match s.workers i with
    | .calling => serve opts s i pod a
    | _ => none
  | .resume =>
    match s.workers i with
    | .backingOff => some (setWorker s i (.ready true))
    | _ => none
  | .expire =>
    match s.workers i, s.drainErr with
    | .backingOff, some e => some (record s i pod (some (timedOut e)))
    | _, _ => none

end Evict

section Wait

def pendingPodNames (pods : List DrainedPod) : List Text :=
  (pods.map fun p => podName p.ns p.name).insertionSort (· ≤ ·)

/-- The pods by UID; of two with one UID the later stays. -/
def remainingOf (evicted : List DrainedPod) : List DrainedPod :=
  evicted.foldl (fun r p => r.filter (fun q => decide (q.uid ≠ p.uid))++[p]) []

def pruneDepartedPods (present : List Pod) (remaining : List DrainedPod) : List DrainedPod :=
  remaining.filter fun p => present.any fun q => decide (q.uid = p.uid)

/-- `DrainNode` returns after the wait with what was left and why that is not known. -/
def settle (s : Drain) (remaining : List DrainedPod) : Option Text → Drain
  | some err =>
    { s with place := .returned (.ok { s.result with
        unconfirmedPods := pendingPodNames remaining, verificationError := err }.concluded) }
  | none =>
    { s with place := .returned (.ok { s.result with
        pendingPods := pendingPodNames remaining }.concluded) }

variable (nodeName : Text)

/-- A list that succeeds. -/
def sawPods (s : Drain) : Drain := { s with lists := podsOn nodeName s.pods::s.lists }

def stepWait (s : Drain) : Act → Option Drain
  | .look =>
    match s.place with
    | .waiting remaining =>
      some { s with
        place := if s.drainErr = none then .polling remaining else .unsettled remaining }
    | _ => none
  | .poll err =>
    match s.place, err with
    | .polling _, some _ => some s
    | .polling remaining, none =>
      let left := pruneDepartedPods (podsOn nodeName s.pods) remaining
      if left = [] then some (settle (sawPods nodeName s) [] none)
      else some { sawPods nodeName s with place := .polling left }
    | _, _ => none
  | .stopPolling =>
    match s.place with
    | .polling remaining =>
      if s.drainErr = none then none else some { s with place := .unsettled remaining }
    | _ => none
  | .checkCaller =>
    match s.place with
    | .unsettled remaining =>
      match s.callerErr with
      | some err => some (settle s remaining (some err))
      | none => some { s with place := .checking remaining }
    | _ => none
  | .finalCheck err =>
    match s.place, err with
    | .checking remaining, some e => some (settle { s with finalFailed := true } remaining (some e))
    | .checking remaining, none =>
      some (settle (sawPods nodeName s)
        (pruneDepartedPods (podsOn nodeName s.pods) remaining) none)
    | _, _ => none
  | _ => none

end Wait

section Run

variable (nodeName : Text) (opts : DrainOptions)

def chosen (pods : List Pod) : List Pod :=
  pods.filter fun pod => decide ((ClassifyPodForDrain pod opts none).outcome ≠ .skip)

def skipped (pods : List Pod) : List PodDrainDecision :=
  (pods.map fun pod => ClassifyPodForDrain pod opts none).filter fun d => decide (d.outcome = .skip)

/-- The node's pods are listed and split. -/
def listPods (s : Drain) : Drain :=
  let listed := podsOn nodeName s.pods
  let t : Drain := { sawPods nodeName s with
    listed := listed
    atList := s.pods
    toEvict := chosen opts listed
    result := { s.result with skippedPods := skipped opts listed }
    drainErr := s.callerErr }
  if t.toEvict = [] then { t with place := .returned (.ok t.result.concluded) }
  else { t with place := .evicting }

def allFinished (s : Drain) : Bool :=
  (List.range s.toEvict.length).all fun i =>
    match s.workers i with
    | .finished _ => true
    | _ => false

def stepCall (s : Drain) : Act → Option Drain
  | .cordon err =>
    match s.place, err with
    | .cordoning, some e =>
      some { s with
        place := .returned (.error ("cordon before drain: cordon node: ".toList++e)) }
    | .cordoning, none => some { s with place := .listing }
    | _, _ => none
  | .list err =>
    match s.place, err with
    | .listing, some e =>
      some { s with place := .returned (.error ("list pods on node: ".toList++e)) }
    | .listing, none => some (listPods nodeName opts s)
    | _, _ => none
  | .work i move =>
    match s.place, s.toEvict[i]? with
    | .evicting, some pod => work opts s i pod move
    | _, _ => none
  | .join =>
    match s.place with
    | .evicting =>
      if allFinished s then
        if opts.waitForDeletion ∧ s.evicted ≠ [] then
          some { s with
            place := .waiting (remainingOf s.evicted)
            result := { s.result with waitedForDeletion := true } }
        else some { s with place := .returned (.ok s.result.concluded) }
      else none
    | _ => none
  | _ => none

/-- One step of anyone, up to the return; what is stored afterwards is remembered. -/
def step (s : Drain) (a : Act) : Option Drain :=
  match s.place with
  | .returned _ => none
  | _ =>
    (((stepAround s a).or (stepCall nodeName opts s a)).or (stepWait nodeName s a)).map fun t =>
      { t with past := t.pods::t.past }

/-- Pods with names and UIDs of their own. -/
structure Population where
  pods : List Pod
  names : pods.Pairwise fun p q => ¬(p.ns = q.ns ∧ p.name = q.name)
  uids : pods.Pairwise fun p q => p.uid ≠ q.uid

def start (p : Population) : Drain where
  pods := p.pods
  used := p.pods.map (·.uid)
  past := [p.pods]

end Run

end Radar.NodeDrain
