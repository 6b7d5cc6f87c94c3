import Mathlib.Algebra.Group.Int.Defs
import Radar.Base.TopKept

/-!
# Rollout evidence

A Secret changed after a container of a Pod had started, and the container
still runs on the old value. The fact is answered once a Ready Pod of another
ReplicaSet runs the same container, started since the change and reading the
same Secret. The evidence is read from the Pods in one pass, which keeps, for
every way of reading a Secret, the two revisions that started last.
-/

set_option autoImplicit false

namespace Radar.StaleEnv

open TopKept

/-- Nanoseconds since the zero time of Go. -/
abbrev Time := ℤ

def Time.isZero (t : Time) : Bool := t == 0

structure OwnerReference where
  apiVersion : String
  kind : String
  name : String
  uid : String
  controller : Option Bool

/-- A key is required of every selector that the API server stores. -/
structure SecretKeySelector where
  name : String
  key : String
  key_ne : key ≠ ""

structure EnvVar where
  secretKeyRef : Option SecretKeySelector

structure EnvFromSource where
  secretRef : Option String

structure Container where
  name : String
  env : List EnvVar
  envFrom : List EnvFromSource
  restartPolicy : Option String

structure ContainerStatus where
  name : String
  ready : Bool
  /-- `State.Running.StartedAt` -/
  running : Option Time

structure PodCondition where
  type : String
  status : String

structure Pod where
  name : String
  ownerReferences : List OwnerReference
  deletionTimestamp : Option Time
  initContainers : List Container
  containers : List Container
  conditions : List PodCondition
  initContainerStatuses : List ContainerStatus
  containerStatuses : List ContainerStatus

structure StaleSecretEnvSubject where
  group : String
  kind : String
  «namespace» : String
  name : String

structure StaleSecretEnvCheck where
  podName : String
  container : String
  secretName : String
  key : String
  secretChangedAt : Time

def controllerOwnerRef (refs : List OwnerReference) : Option OwnerReference :=
  refs.find? fun ref => ref.controller == some true

def ownerReferenceIdentity (ref : OwnerReference) : String :=
  if ref.uid ≠ "" then ref.uid
  else ref.apiVersion ++ "\x00" ++ ref.kind ++ "\x00" ++ ref.name

def isPodReadyForProblem (pod : Pod) : Bool :=
  match pod.conditions.find? (fun cond => cond.type == "Ready") with
  | some cond => cond.status == "True"
  | none => false

def isRestartableInitContainer (container : Container) : Bool :=
  container.restartPolicy == some "Always"

def staleSecretEnvContainers (pod : Pod) : List Container :=
  pod.initContainers.filter isRestartableInitContainer ++ pod.containers

def restartableInitContainerNames (pod : Pod) : List String :=
  (pod.initContainers.filter isRestartableInitContainer).map Container.name

/-- The map by container name; a later status replaces an earlier one. -/
def staleSecretEnvContainerStatuses (pod : Pod) (name : String) : Option ContainerStatus :=
  let init := pod.initContainerStatuses.filter fun status =>
    status.name ∈ restartableInitContainerNames pod
  (init++pod.containerStatuses).reverse.find? fun status => status.name == name

structure StaleSecretEnvConsumption where
  container : String
  secret : String
  /-- Empty for the whole Secret. -/
  key : String
deriving DecidableEq

structure StaleSecretEnvReplacement where
  revision : String
  startedAt : Time

/-- Maps read as Go's do: what is absent has the zero value. -/
structure StaleSecretEnvRolloutEvidence where
  revisionByPod : String → String
  replacements : StaleSecretEnvConsumption → List StaleSecretEnvReplacement

/-- `sort.Slice` by `startedAt`, the last started first. -/
abbrev SortReplacements := SortFunc (descending StaleSecretEnvReplacement.startedAt)

/-- Ten minutes. -/
def staleSecretEnvRolloutEvidenceWindow : ℤ := 10*60*10^9

namespace StaleSecretEnvRolloutEvidence

def empty : StaleSecretEnvRolloutEvidence := ⟨fun _ => "",fun _ => []⟩

variable (sort : SortReplacements)

def add (e : StaleSecretEnvRolloutEvidence) (consumption : StaleSecretEnvConsumption)
    (replacement : StaleSecretEnvReplacement) : StaleSecretEnvRolloutEvidence :=
  let candidates := keepAt StaleSecretEnvReplacement.revision StaleSecretEnvReplacement.startedAt
    sort 2 e.replacements consumption replacement
  { e with replacements := candidates }

def addEnv (container : Container) (replacement : StaleSecretEnvReplacement)
    (e : StaleSecretEnvRolloutEvidence) (env : EnvVar) : StaleSecretEnvRolloutEvidence :=
  match env.secretKeyRef with
  | none => e
  | some ref => e.add sort ⟨container.name,ref.name,ref.key⟩ replacement

def addEnvFrom (container : Container) (replacement : StaleSecretEnvReplacement)
    (e : StaleSecretEnvRolloutEvidence) (envFrom : EnvFromSource) :
    StaleSecretEnvRolloutEvidence :=
  match envFrom.secretRef with
  | none => e
  | some secret => e.add sort ⟨container.name,secret,""⟩ replacement

def addContainer (now : Time) (pod : Pod) (revision : String)
    (e : StaleSecretEnvRolloutEvidence) (container : Container) : StaleSecretEnvRolloutEvidence :=
  match staleSecretEnvContainerStatuses pod container.name with
  | none => e
  | some status =>
    match status.running with
    | none => e
    | some startedAt =>
      if !status.ready || startedAt.isZero then e
      else if startedAt > now ∨ now-startedAt > staleSecretEnvRolloutEvidenceWindow then e
      else
        let replacement := ⟨revision,startedAt⟩
        let e := container.env.foldl (addEnv sort container replacement) e
        container.envFrom.foldl (addEnvFrom sort container replacement) e

def addPod (now : Time) (e : StaleSecretEnvRolloutEvidence) (pod : Option Pod) :
    StaleSecretEnvRolloutEvidence :=
  match pod with
  | none => e
  | some pod =>
    match controllerOwnerRef pod.ownerReferences with
    | none => e
    | some revisionRef =>
      if revisionRef.kind ≠ "ReplicaSet" then e
      else
        let revision := ownerReferenceIdentity revisionRef
        let e := { e with revisionByPod := Function.update e.revisionByPod pod.name revision }
        if pod.deletionTimestamp.isSome || !isPodReadyForProblem pod then e
        else (staleSecretEnvContainers pod).foldl (addContainer sort now pod revision) e

end StaleSecretEnvRolloutEvidence

open StaleSecretEnvRolloutEvidence

/-- The subjects whose Pods belong to ReplicaSets. -/
def StaleSecretEnvSubject.rollsOut (subject : StaleSecretEnvSubject) : Prop :=
  (subject.group = "apps" ∧ subject.kind = "Deployment") ∨
    (subject.group = "argoproj.io" ∧ subject.kind = "Rollout")

instance (subject : StaleSecretEnvSubject) : Decidable subject.rollsOut :=
  inferInstanceAs (Decidable (_ ∨ _))

def newStaleSecretEnvRolloutEvidence (sort : SortReplacements) (subject : StaleSecretEnvSubject)
    (pods : List (Option Pod)) (now : Time) : StaleSecretEnvRolloutEvidence :=
  if ¬subject.rollsOut then .empty
  else pods.foldl (addPod sort now) .empty

def StaleSecretEnvRolloutEvidence.supersedes (e : StaleSecretEnvRolloutEvidence)
    (check : StaleSecretEnvCheck) : Bool :=
  let staleRevision := e.revisionByPod check.podName
  if staleRevision = "" then false
  else
    let consumptions : List StaleSecretEnvConsumption :=
      [⟨check.container,check.secretName,check.key⟩,⟨check.container,check.secretName,""⟩]
    consumptions.any fun consumption =>
      (e.replacements consumption).any fun replacement =>
        decide (replacement.revision ≠ staleRevision) &&
          !decide (replacement.startedAt < check.secretChangedAt)

end Radar.StaleEnv
