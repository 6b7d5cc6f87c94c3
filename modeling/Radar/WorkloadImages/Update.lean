import Mathlib.Data.List.Lex
import Radar.Base.Run
import Radar.WorkloadImages.Template

/-!
# Setting the images of a workload

The workload is read, with what its template refers to, and a patch is built
from what was read. A patch that is refused may have met other positions, so
the workload is read once more and another patch is tried. Others write between
any two requests, and a request may fail.
-/

set_option autoImplicit false

namespace Radar.WorkloadImages

inductive Resource where
  | deployments
  | statefulsets
  | daemonsets
  | rollouts
  | replicasets
  | podtemplates
  deriving DecidableEq, Repr

namespace Resource

def group : Resource → String
  | rollouts => "argoproj.io"
  | podtemplates => ""
  | _ => "apps"

def name : Resource → String
  | deployments => "deployments"
  | statefulsets => "statefulsets"
  | daemonsets => "daemonsets"
  | rollouts => "rollouts"
  | replicasets => "replicasets"
  | podtemplates => "podtemplates"

def templatePath : Resource → List String
  | podtemplates => ["template"]
  | _ => ["spec","template"]

end Resource

/-- What the update reads of an object. The template is what stands at the template path of its
resource; a text that is missing is empty, and what is missing otherwise is none. -/
structure Workload where
  kind : String
  ns : String
  name : String
  terminating : Bool := false
  template : PodTemplate
  refKind : String := ""
  refName : String := ""
  refAPIVersion : String := ""
  paused : Bool := false
  strategyType : String := ""
  updateStrategyType : String := ""
  partition : Option ℤ := none
  /-- The number of steps of a canary strategy. -/
  canarySteps : Option ℕ := none
  /-- The automatic promotion of a blue-green strategy. -/
  blueGreen : Option (Option Bool) := none
  deriving DecidableEq

section Behavior

structure WorkloadUpdateBehavior where
  type : String
  partition : Option ℤ := none
  autoPromote : Option Bool := none
  gated : Option Bool := none
  deriving DecidableEq

def classifyWorkloadUpdateBehavior (normalizedKind : Resource) (root : Workload) :
    WorkloadUpdateBehavior :=
  match normalizedKind with
  | .deployments =>
    if root.paused then { type := "paused" }
    else if root.strategyType = "Recreate" then { type := "recreate" }
    else { type := "rolling" }
  | .daemonsets =>
    if root.updateStrategyType = "OnDelete" then { type := "onDelete" } else { type := "rolling" }
  | .statefulsets =>
    if root.updateStrategyType = "OnDelete" then { type := "onDelete" }
    else
      match root.partition with
      | some partition =>
        if 0 < partition then { type := "partitioned", partition := some partition }
        else { type := "rolling" }
      | none => { type := "rolling" }
  | .rollouts =>
    if root.paused then { type := "paused" }
    else
      match root.canarySteps, root.blueGreen with
      | some steps, _ => { type := "canary", gated := some (decide (0 < steps)) }
      | none, some autoPromote =>
        { type := "blueGreen", autoPromote := some (autoPromote.getD true) }
      | none, none => { type := "rolling" }
  | _ => { type := "rolling" }

end Behavior

section Targets

def NormalizeWorkloadKind (kind : String) : String :=
  if kind ∈ ["deployment","deployments"] then "deployments"
  else if kind ∈ ["statefulset","statefulsets"] then "statefulsets"
  else if kind ∈ ["daemonset","daemonsets"] then "daemonsets"
  else if kind ∈ ["rollout","rollouts"] then "rollouts"
  else kind

def workloadImageRoots (normalizedKind : String) : Option Resource :=
  [Resource.deployments,.statefulsets,.daemonsets,.rollouts].find? fun r =>
    decide (r.name = normalizedKind)

def workloadRefTargets (kind : String) : Option Resource :=
  if kind = "Deployment" then some .deployments
  else if kind = "ReplicaSet" then some .replicasets
  else if kind = "PodTemplate" then some .podtemplates
  else none

/-- The group of an API version; a version without one, or with too many slashes, has none. -/
def groupOf (apiVersion : String) : String :=
  match apiVersion.splitOn "/" with
  | [group,_] => group
  | _ => ""

/-- An object by its resource, its namespace and its name. -/
structure Ref where
  resource : Resource
  ns : String
  name : String
  deriving DecidableEq

def ResolveTemplateTarget (ro : Workload) : Except UpdateError (Resource × String) :=
  if ro.refKind = "" ∨ ro.refName = "" then .ok (.rollouts,ro.name)
  else
    match workloadRefTargets ro.refKind with
    | some ref =>
      if groupOf ro.refAPIVersion = ref.group then .ok (ref,ro.refName)
      else .error (.unsupportedRef ("Rollout "++ro.ns++"/"++ro.name++" references a "++ro.refKind))
    | none =>
      .error (.unsupportedRef ("Rollout "++ro.ns++"/"++ro.name++" references a "++ro.refKind))

structure ResolvedWorkloadImageTarget where
  normalizedKind : Resource
  root : Workload
  target : Workload
  resource : Resource
  targetName : String
  deriving DecidableEq

structure WorkloadImageTarget where
  group : String
  resource : String
  kind : String
  ns : String
  name : String
  deriving DecidableEq

structure WorkloadImageInventory where
  target : WorkloadImageTarget
  containers : List WorkloadContainerImage
  behavior : WorkloadUpdateBehavior
  deriving DecidableEq

def inventory (r : ResolvedWorkloadImageTarget) : Except UpdateError WorkloadImageInventory := do
  let containers ← inventoryContainerImages r.resource.templatePath r.target.template
  return {
    target := ⟨r.resource.group,r.resource.name,r.target.kind,r.target.ns,r.targetName⟩
    containers := containers
    behavior := classifyWorkloadUpdateBehavior r.normalizedKind r.root }

structure SetWorkloadImagesResult where
  inventory : WorkloadImageInventory
  object : Workload
  deriving DecidableEq

end Targets

section Calls

/-- Where the call waits for the API server. -/
inductive Place where
  | root (kind : Resource)
  | target (kind : Resource) (root : Workload) (resource : Resource) (name : String)
  | patch (r : ResolvedWorkloadImageTarget) (ops : List Operation) (locations : List ImageLocation)
  | reread (r : ResolvedWorkloadImageTarget) (locations : List ImageLocation) (err : ApiError)
  | retry (r : ResolvedWorkloadImageTarget) (ops : List Operation)
  | last (r : ResolvedWorkloadImageTarget) (err : ApiError)
  | returned (out : Except UpdateError SetWorkloadImagesResult)

inductive Request where
  | get (ref : Ref)
  | patch (ref : Ref) (ops : List Operation)

/-- What is stored by now, where the call is, and the versions that its patches met and made. -/
structure Update where
  stored : Ref → Option Workload
  place : Place
  applied : List (Workload × Workload) := []

variable (ns name : String) (updates : List WorkloadImageUpdate)

def targetRef (r : ResolvedWorkloadImageTarget) : Ref := ⟨r.resource,r.target.ns,r.targetName⟩

def request : Place → Option Request
  | .root kind => some (.get ⟨kind,ns,name⟩)
  | .target _ _ resource targetName => some (.get ⟨resource,ns,targetName⟩)
  | .patch r ops _ => some (.patch (targetRef r) ops)
  | .reread r _ _ => some (.get (targetRef r))
  | .retry r ops => some (.patch (targetRef r) ops)
  | .last r _ => some (.get (targetRef r))
  | .returned _ => none

def failed (err : UpdateError) : Place := .returned (.error err)

def called (w : Workload) : String := w.kind++" "++w.ns++"/"++w.name

/-- The updates are checked and the first patch is built. -/
def resolved (r : ResolvedWorkloadImageTarget) : Place :=
  match validateImageUpdates updates with
  | .error err => failed err
  | .ok _ =>
    match buildImagePatch r.target.template updates with
    | .error err => failed err
    | .ok (ops,locations) => .patch r ops locations

/-- What was patched is told, image by image. -/
def patched (r : ResolvedWorkloadImageTarget) (updated : Workload) : Place :=
  match inventory { r with target := updated } with
  | .error err => failed err
  | .ok i => .returned (.ok ⟨i,updated⟩)

def updateFailed (err : ApiError) : Place := failed (.api "failed to update workload images" err)

/-- The call goes on with the answer to its request. -/
def resume : Place → Except ApiError Workload → Place
  | .root _, .error err => failed (.api "failed to get workload" err)
  | .root kind, .ok root =>
    if root.terminating then failed (.terminating (root.kind++" "++ns++"/"++name))
    else if kind ≠ .rollouts then resolved updates ⟨kind,root,root,kind,name⟩
    else
      match ResolveTemplateTarget root with
      | .error err => failed err
      | .ok (resource,targetName) =>
        if resource = .rollouts ∧ targetName = name then
          resolved updates ⟨kind,root,root,resource,targetName⟩
        else .target kind root resource targetName
  | .target _ _ _ targetName, .error err =>
    failed (.api ("failed to get workload "++ns++"/"++targetName++" referenced by Rollout "++name) err)
  | .target kind root resource targetName, .ok target =>
    if target.terminating then
      failed (.terminating (target.kind++" "++ns++"/"++targetName++" referenced by Rollout "++name))
    else resolved updates ⟨kind,root,target,resource,targetName⟩
  | .patch r _ locations, .error err =>
    if err.isInvalid then .reread r locations err else updateFailed err
  | .patch r _ _, .ok updated => patched r updated
  | .reread _ _ _, .error err =>
    failed (.api "failed to re-read workload after rejected image patch" err)
  | .reread r locations err, .ok latest =>
    if latest.terminating then failed (.terminating (called latest))
    else
      match buildImagePatch latest.template updates with
      | .error err => failed err
      | .ok (retryOps,retryLocations) =>
        if locations = retryLocations then updateFailed err else .retry r retryOps
  | .retry r _, .error err => if err.isInvalid then .last r err else updateFailed err
  | .retry r _, .ok updated => patched r updated
  | .last _ _, .error err =>
    failed (.api "failed to re-read workload after retried image patch" err)
  | .last _ err, .ok final =>
    if final.terminating then failed (.terminating (called final))
    else
      match buildImagePatch final.template updates with
      | .error conflict => failed conflict
      | .ok _ => updateFailed err
  | .returned out, _ => .returned out

inductive Act where
  /-- Others write, delete and create. -/
  | others (stored : Ref → Option Workload)
  /-- The API server answers the request, or fails it. -/
  | answer (fault : Option ApiError)

def rejected : ApiError := .invalid "the server rejected our request due to an error in our request"

/-- A patch is applied to what is stored under the name, as a whole or not at all. -/
def serve (s : Update) : Request → Option ApiError → Update × Except ApiError Workload
  | _, some err => (s,.error err)
  | .get ref, none =>
    match s.stored ref with
    | none => (s,.error .notFound)
    | some w => (s,.ok w)
  | .patch ref ops, none =>
    match s.stored ref with
    | none => (s,.error .notFound)
    | some w =>
      match applyPatch w.template ops with
      | none => (s,.error rejected)
      | some template =>
        let updated : Workload := { w with template := template }
        ({ s with
          stored := fun r => if r = ref then some updated else s.stored r
          applied := (w,updated)::s.applied },.ok updated)

def step (s : Update) : Act → Option Update
  | .others stored => some { s with stored := stored }
  | .answer fault =>
    match request ns name s.place with
    | none => none
    | some req =>
      let (t,answer) := serve s req fault
      some { t with place := resume ns name updates s.place answer }

/-- The call begins, unless the kind is none that it knows. -/
def start (kind : String) (stored : Ref → Option Workload) : Update where
  stored := stored
  place :=
    match workloadImageRoots (NormalizeWorkloadKind kind.toLower) with
    | none => failed (.unsupported kind)
    | some kind => .root kind

end Calls

end Radar.WorkloadImages
