import Mathlib.Data.List.AList
import Mathlib.Logic.Function.Basic
import Radar.Base.Firsts
import Radar.Base.Join
import Radar.Base.Names
import Radar.Base.SortFunc

/-!
# The environment of a Pod

Every container's variables are bound in the order of its sources and of its
list, with references to the ones before. What comes from a sensitive source
stays behind the flag of its row. Names, field paths and quantities are read
by libraries.
-/

set_option autoImplicit false

namespace Radar.EnvResolve

inductive ValueState where
  | resolved | masked | unavailable | missing | denied
  deriving DecidableEq, Repr

inductive MissingImpact where
  | startupBlocked | restartBlocked
  deriving DecidableEq, Repr

/-- The empty state is `unset`. -/
inductive SourceState where
  | available | missing | denied | unavailable | unset
  deriving DecidableEq, Repr

structure SourceID where
  kind : String
  name : String
  deriving DecidableEq, Repr

structure SourceData where
  kind : String := ""
  name : String := ""
  state : SourceState := .unset
  optional : Bool := false
  keys : List String := []
  values : AList (fun _ : String => String) := ∅
  sensitive : Bool := false
  message : String := ""

abbrev Sources := SourceID → Option SourceData

structure SourceRef where
  kind : String
  name : String := ""
  key : String := ""
  variableName : String := ""
  deriving DecidableEq, Repr

structure Row where
  name : String
  value : String := ""
  state : ValueState
  sensitive : Bool := false
  source : SourceRef
  dependencies : List SourceRef := []
  shadowedSources : List SourceRef := []
  message : String := ""
  optional : Bool := false
  missingImpact : Option MissingImpact := none
  runtimeDependent : Bool := false
  currentPodValue : Bool := false
  placeholder : Bool := false
  deriving DecidableEq, Repr

structure Binding where
  row : Row
  value : String := ""
  available : Bool := false
  deriving DecidableEq, Repr

section Pods

structure KeySelector where
  name : String
  key : String
  optional : Option Bool := none

structure SourceSelector where
  name : String
  optional : Option Bool := none

structure EnvFromSource where
  namePrefix : String := ""
  configMapRef : Option SourceSelector := none
  secretRef : Option SourceSelector := none

variable (Quantity : Type)

structure ResourceFieldSelector where
  containerName : String := ""
  resource : String
  divisor : Quantity

structure EnvVarSource where
  configMapKeyRef : Option KeySelector := none
  secretKeyRef : Option KeySelector := none
  fieldRef : Option String := none
  resourceFieldRef : Option (ResourceFieldSelector Quantity) := none

structure EnvVar where
  name : String
  value : String := ""
  valueFrom : Option (EnvVarSource Quantity) := none

abbrev ResourceList := String → Option Quantity

/-- A container of the spec. -/
structure PodContainer where
  name : String
  restartAlways : Bool := false
  envFrom : List EnvFromSource := []
  env : List (EnvVar Quantity) := []
  limits : ResourceList Quantity := fun _ => none
  requests : ResourceList Quantity := fun _ => none

structure ContainerStatus where
  name : String
  waiting : Option String := none
  running : Bool := false
  terminated : Bool := false
  lastTerminated : Bool := false
  containerID : String := ""

structure Pod where
  name : String := ""
  ns : String := ""
  uid : String := ""
  labels : List (String × String) := []
  annotations : List (String × String) := []
  nodeName : String := ""
  serviceAccountName : String := ""
  initContainers : List (PodContainer Quantity) := []
  containers : List (PodContainer Quantity) := []
  hostIP : String := ""
  hostIPs : List String := []
  podIP : String := ""
  podIPs : List String := []
  initContainerStatuses : List ContainerStatus := []
  containerStatuses : List ContainerStatus := []

structure NodeData where
  state : SourceState := .unset
  allocatable : ResourceList Quantity := fun _ => none

/-- `IsEnvVarName`, `ExtractFieldPathAsString`, `ExtractContainerResourceValue` and the quoting of
the `%q` verb. -/
structure Lib where
  isEnvVarName : String → Bool
  extractFieldPath : Pod Quantity → String → Except String String
  extractResource : ResourceFieldSelector Quantity → PodContainer Quantity → Except String String
  quote : String → String

/-- What a run leaves open: in which order a map is ranged over and how ties are sorted. -/
structure Choices where
  range : List String → List String
  range_perm : ∀ l, (range l).Perm l
  sortRows : SortFunc (compareOn Row.name)

end Pods

section States

def stateForSource (state : SourceState) (optional : Bool) (kind name : String) :
    ValueState × String :=
  match state with
  | .denied => (.denied,"Access to " ++ kind ++ "/" ++ name ++ " is required to resolve these variables.")
  | .unavailable => (.unavailable,kind ++ "/" ++ name ++ " could not be read.")
  | _ =>
    if optional then (.missing,"Optional " ++ kind ++ "/" ++ name ++ " is absent.")
    else (.missing,kind ++ "/" ++ name ++ " is missing.")

def rankValueState : ValueState → ℕ
  | .denied => 3
  | .missing => 2
  | .unavailable => 1
  | _ => 0

def unavailable (name kind message : String) : Binding where
  row := { name := name, state := .unavailable, source := { kind := kind }, message := message }

def refKey (ref : SourceRef) : String :=
  ref.kind ++ "\x00" ++ ref.name ++ "\x00" ++ ref.key ++ "\x00" ++ ref.variableName

def compactRefs (refs : List SourceRef) : List SourceRef :=
  Firsts.firsts refKey (refs.filter (·.kind ≠ ""))

end States

section Expand

/-- What `expand` has so far. -/
structure Expansion where
  out : List Char := []
  deps : List SourceRef := []
  sensitive : Bool := false
  available : Bool := true
  runtimeDependent : Bool := false
  dependencyState : ValueState := .resolved
  dependencyMessage : String := ""
  deriving DecidableEq, Repr

abbrev Bindings := AList (fun _ : String => Binding)

def Expansion.write (e : Expansion) (text : List Char) : Expansion := { e with out := e.out++text }

/-- A reference that is written `raw`. -/
def Expansion.refer (e : Expansion) (bindings : Bindings) (name raw : List Char) : Expansion :=
  match bindings.lookup (String.ofList name) with
  | none => { e.write raw with runtimeDependent := true }
  | some dep =>
    if dep.row.state = .missing ∧ dep.row.optional = true then e.write raw
    else
      { out := e.out++dep.value.toList
        deps := e.deps++[{ kind := "Variable", variableName := String.ofList name }]++
          (if dep.row.source.kind ≠ "Direct" then [dep.row.source] else [])++dep.row.dependencies
        sensitive := e.sensitive || dep.row.sensitive
        available := e.available && dep.available
        runtimeDependent := e.runtimeDependent || dep.row.runtimeDependent
        dependencyState :=
          if rankValueState dep.row.state > rankValueState e.dependencyState then dep.row.state
          else e.dependencyState
        dependencyMessage :=
          if rankValueState dep.row.state > rankValueState e.dependencyState then dep.row.message
          else e.dependencyMessage }

/-- The loop of `expand`. A reference that is not closed ends it. -/
def expandFrom (bindings : Bindings) (e : Expansion) : List Char → Expansion
  | [] => e
  | '$' :: '$' :: s => expandFrom bindings (e.write ['$']) s
  | '$' :: '(' :: s =>
    match _h : Join.cut ')' s with
    | none => e.write ('$' :: '(' :: s)
    | some (name,rest) =>
      expandFrom bindings (e.refer bindings name ('$' :: '(' :: (name++[')']))) rest
  | c::s => expandFrom bindings (e.write [c]) s
termination_by s => s.length
decreasing_by
  · simp only [List.length_cons]
    omega
  · obtain ⟨rfl,-⟩ := Join.cut_eq_some _h
    simp only [List.length_cons, List.length_append]
    omega
  · simp only [List.length_cons]
    omega

def expand (input : String) (bindings : Bindings) : Expansion :=
  let e := expandFrom bindings {} input.toList
  { e with deps := compactRefs e.deps }

end Expand

section Explicit

variable {Quantity : Type} (lib : Lib Quantity)

def joinIPs (ips : List String) : String := ",".intercalate ips

def podFieldValue (pod : Pod Quantity) (path : String) : Except String String :=
  if path = "spec.nodeName" then .ok pod.nodeName
  else if path = "spec.serviceAccountName" then .ok pod.serviceAccountName
  else if path = "status.hostIP" then .ok pod.hostIP
  else if path = "status.hostIPs" then .ok (joinIPs pod.hostIPs)
  else if path = "status.podIP" then .ok pod.podIP
  else if path = "status.podIPs" then .ok (joinIPs pod.podIPs)
  else lib.extractFieldPath pod path

/-- The resource of a `limits.` selector that the container has no limit for. -/
def missingLimitResource (container : PodContainer Quantity) (selector : String) : Option String :=
  if "limits.".toList <+: selector.toList then
    let name := String.ofList (selector.toList.drop "limits.".length)
    if (container.limits name).isSome then none else some name
  else none

def resourceFieldContainer (pod : Pod Quantity) (current : PodContainer Quantity) (name : String) :
    Except String (PodContainer Quantity) :=
  if name = "" ∨ name = current.name then .ok current
  else
    match (pod.initContainers++pod.containers).find? (·.name = name) with
    | some c => .ok c
    | none => .error ("container " ++ lib.quote name ++ " was not found")

def optionalOf (optional : Option Bool) : Bool := optional.getD false

/-- An entry without a kind is no entry. -/
def sourceOf (sources : Sources) (kind name : String) : Option SourceData :=
  (sources { kind := kind, name := name }).filter (·.kind ≠ "")

def resolveKeyRef (envName kind name key : String) (optional : Bool) (sources : Sources) : Binding :=
  let source := (sourceOf sources kind name).getD { kind := kind, name := name, state := .missing }
  let ref : SourceRef := { kind := kind, name := name, key := key }
  if source.state ≠ .available then
    let (state,message) := stateForSource source.state optional kind name
    { row := { name := envName, state := state, sensitive := kind = "Secret", source := ref
               message := if source.message ≠ "" then source.message else message
               optional := optional } }
  else
    match source.values.lookup key with
    | some value =>
      { row := { name := envName, state := if source.sensitive then .masked else .resolved
                 sensitive := source.sensitive, source := ref, optional := optional }
        value := value
        available := true }
    | none =>
      if source.sensitive ∧ key ∈ source.keys then
        { row := { name := envName, state := .masked, sensitive := true, source := ref
                   optional := optional } }
      else
        { row := { name := envName, state := .missing, sensitive := source.sensitive, source := ref
                   message :=
                    if optional then
                      "Optional key " ++ key ++ " is absent from " ++ kind ++ "/" ++ name ++ "."
                    else "Key " ++ key ++ " is missing from " ++ kind ++ "/" ++ name ++ "."
                   optional := optional } }

def runtimeMessage : String :=
  "This value is completed when the container starts because it uses another variable that is not declared on the Pod."

/-- A value that the Pod spells out. -/
def resolveDirect (name value : String) (bindings : Bindings) : Binding :=
  let e := expand value bindings
  { row :=
      { name := name
        state :=
          if e.dependencyState ≠ .resolved then e.dependencyState
          else if e.sensitive then .masked
          else if !e.available || e.runtimeDependent then .unavailable
          else .resolved
        sensitive := e.sensitive
        source := { kind := "Direct" }
        dependencies := e.deps
        message :=
          if e.runtimeDependent ∧ e.dependencyMessage = "" then runtimeMessage
          else e.dependencyMessage
        runtimeDependent := e.runtimeDependent }
    value := String.ofList e.out
    available := e.available && !e.runtimeDependent }

def resolveFieldRef (pod : Pod Quantity) (name path : String) : Binding :=
  match podFieldValue lib pod path with
  | .error err => unavailable name "Pod" err
  | .ok value =>
    { row :=
        { name := name
          state := .resolved
          source := { kind := "Pod", key := path }
          currentPodValue := true
          message := "This is the current Pod value; the container evaluated it when it started." }
      value := value
      available := true }

/-- The value of a resource of the container it is read from. -/
def resourceValue (name : String) (ref : ResourceFieldSelector Quantity)
    (container : PodContainer Quantity) : Binding :=
  match lib.extractResource ref container with
  | .error err => unavailable name "Container resources" err
  | .ok value =>
    { row :=
        { name := name
          state := .resolved
          source := { kind := "Container resources", key := ref.resource }
          currentPodValue := true
          message := "This is the current resource value; the container evaluated it when it started." }
      value := value
      available := true }

/-- A limit that is not set is what the Node can allocate. -/
def resolveResourceRef (pod : Pod Quantity) (container : PodContainer Quantity)
    (node : NodeData Quantity) (name : String) (ref : ResourceFieldSelector Quantity) : Binding :=
  match resourceFieldContainer lib pod container ref.containerName with
  | .error err => unavailable name "Container resources" err
  | .ok resourceContainer =>
    match missingLimitResource resourceContainer ref.resource with
    | none => resourceValue lib name ref resourceContainer
    | some resourceName =>
      if node.state ≠ .available then
        let (state,message) := stateForSource node.state false "Node" pod.nodeName
        { row := { name := name, state := state
                   source := { kind := "Container resources", key := ref.resource }
                   message := message } }
      else
        match node.allocatable resourceName with
        | none =>
          unavailable name "Container resources" "The assigned Node does not report this resource."
        | some quantity =>
          resourceValue lib name ref { resourceContainer with
            limits := Function.update resourceContainer.limits resourceName (some quantity) }

def resolveExplicit (pod : Pod Quantity) (container : PodContainer Quantity) (env : EnvVar Quantity)
    (bindings : Bindings) (sources : Sources) (node : NodeData Quantity) : Binding :=
  match env.valueFrom with
  | none => resolveDirect env.name env.value bindings
  | some { configMapKeyRef := some ref, .. } =>
    resolveKeyRef env.name "ConfigMap" ref.name ref.key (optionalOf ref.optional) sources
  | some { secretKeyRef := some ref, .. } =>
    resolveKeyRef env.name "Secret" ref.name ref.key (optionalOf ref.optional) sources
  | some { fieldRef := some path, .. } => resolveFieldRef lib pod env.name path
  | some { resourceFieldRef := some ref, .. } => resolveResourceRef lib pod container node env.name ref
  | some _ => unavailable env.name "Unknown" "Unsupported value source"

end Explicit

section Resolve

variable {Quantity : Type} (lib : Lib Quantity) (choices : Choices)

def envFromIdentity (fromSource : EnvFromSource) : String × String × Bool :=
  match fromSource with
  | { configMapRef := some ref, .. } => ("ConfigMap",ref.name,optionalOf ref.optional)
  | { secretRef := some ref, .. } => ("Secret",ref.name,optionalOf ref.optional)
  | _ => ("","",false)

/-- The variables so far, and the sources of those that were overwritten. -/
structure Bound where
  bindings : Bindings := ∅
  shadowed : String → List SourceRef := fun _ => []

def Bound.shadow (b : Bound) (name : String) : Bound :=
  match b.bindings.lookup name with
  | none => b
  | some previous =>
    { b with shadowed := Function.update b.shadowed name (b.shadowed name++[previous.row.source]) }

def Bound.bind (b : Bound) (name : String) (binding : Binding) : Bound :=
  { b with bindings := b.bindings.insert name binding }

def sourceKeys (source : SourceData) : List String :=
  Names.sorted (if source.keys = [] then choices.range source.values.keys else source.keys)

def bindKey (namePrefix kind : String) (optional : Bool) (source : SourceData) (b : Bound)
    (key : String) : Bound :=
  let name := namePrefix ++ key
  if lib.isEnvVarName name then
    (b.shadow name).bind name
      { row := { name := name, state := if source.sensitive then .masked else .resolved
                 sensitive := source.sensitive
                 source := { kind := kind, name := source.name, key := key }
                 optional := optional }
        value := (source.values.lookup key).getD ""
        available := (source.values.lookup key).isSome }
  else b

/-- What stands for the keys of a source that cannot be read. -/
def placeholder (namePrefix kind : String) (optional : Bool) (source : SourceData) : Binding :=
  let name := namePrefix ++ "* (" ++ kind ++ "/" ++ source.name ++ ")"
  let (state,message) := stateForSource source.state optional kind source.name
  { row := { name := name, state := state, sensitive := kind = "Secret"
             source := { kind := kind, name := source.name }
             message := if source.message ≠ "" then source.message else message
             optional := optional
             placeholder := true } }

def bindFrom (sources : Sources) (b : Bound) (fromSource : EnvFromSource) : Bound :=
  let (kind,name,optional) := envFromIdentity fromSource
  if name = "" then b
  else
    let source := (sourceOf sources kind name).getD
      { kind := kind, name := name, state := .missing, optional := optional }
    if source.state ≠ .available then
      let binding := placeholder fromSource.namePrefix kind optional source
      b.bind binding.row.name binding
    else
      (sourceKeys choices source).foldl (bindKey lib fromSource.namePrefix kind optional source) b

def bindEnv (pod : Pod Quantity) (container : PodContainer Quantity) (sources : Sources)
    (node : NodeData Quantity) (b : Bound) (env : EnvVar Quantity) : Bound :=
  (b.shadow env.name).bind env.name
    (resolveExplicit lib pod container env b.bindings sources node)

def resolveBindings (pod : Pod Quantity) (container : PodContainer Quantity) (sources : Sources)
    (node : NodeData Quantity) : Bound :=
  container.env.foldl (bindEnv lib pod container sources node)
    (container.envFrom.foldl (bindFrom lib choices sources) {})

def requiredMissingImpact (pod : Pod Quantity) (containerName : String) : MissingImpact :=
  match (pod.initContainerStatuses++pod.containerStatuses).find? (·.name = containerName) with
  | none => .startupBlocked
  | some status =>
    if status.waiting.isSome then .startupBlocked
    else if status.running || status.terminated || status.lastTerminated ||
        status.containerID ≠ "" then .restartBlocked
    else .startupBlocked

def missingImpactMessage (message : String) (impact : MissingImpact) : String :=
  let suffix := if impact = .restartBlocked then
      "The Pod has already started, but this container cannot start again while this is missing."
    else "This prevents the container from starting."
  if message = "" then suffix else message ++ " " ++ suffix

def missingRow (pod : Pod Quantity) (containerName : String) (row : Row) : Row :=
  if row.state = .missing ∧ row.optional = false then
    { row with
      missingImpact := some (requiredMissingImpact pod containerName)
      message := missingImpactMessage row.message (requiredMissingImpact pod containerName) }
  else row

/-- The row of a variable. The value of a sensitive one is left out. -/
def resolveRow (pod : Pod Quantity) (containerName : String) (b : Bound) (name : String)
    (current : Binding) : Row :=
  let row := missingRow pod containerName
    { current.row with shadowedSources := compactRefs (b.shadowed name) }
  if row.sensitive then row else { row with value := current.value }

structure Container where
  name : String
  role : String
  rows : List Row
  deriving DecidableEq, Repr

def resolveContainer (pod : Pod Quantity) (container : PodContainer Quantity) (role : String)
    (sources : Sources) (node : NodeData Quantity) : Container :=
  let b := resolveBindings lib choices pod container sources node
  let rows := (choices.range b.bindings.keys).filterMap fun name =>
    (b.bindings.lookup name).map (resolveRow pod container.name b name)
  { name := container.name, role := role, rows := choices.sortRows.run rows }

def roleOf (container : PodContainer Quantity) : String :=
  if container.restartAlways then "sidecar" else "init"

def resolvePod (pod : Option (Pod Quantity)) (sources : Sources) (node : NodeData Quantity) :
    List Container :=
  match pod with
  | none => []
  | some pod =>
    (pod.initContainers.map fun c =>
      resolveContainer lib choices pod c (roleOf c) sources node)++
    pod.containers.map fun c => resolveContainer lib choices pod c "container" sources node

end Resolve

end Radar.EnvResolve
