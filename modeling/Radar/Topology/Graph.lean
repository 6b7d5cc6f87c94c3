import Mathlib.Data.String.Basic
import Radar.Base.Names

/-!
# Topology graphs and who may read them

A graph's nodes carry a data map of arbitrary values. From the data of a node
come the tuples an access review is asked about: the exact provider of a node
class, the recorded resource of a cluster-scoped dynamic node, every API group
that served a Calico policy, and the namespace of a secret.
-/

set_option autoImplicit false

namespace Radar.Topology

/-- A value of a data map, up to the types the readers tell apart. -/
inductive Value where
  | nil
  | str (s : String)
  | strs (l : List String)
  /-- A decoded array; what is not a string is kept as its text. -/
  | anys (l : List (String ⊕ String))
  | other (text : String)
  deriving DecidableEq, Repr

abbrev Fields := String → Option Value

/-- `map[string]any`, which may be nil. -/
abbrev Data := Option Fields

/-- A node whose data is `D`: a map, or a reference to one. -/
structure Node (D : Type) where
  id : String
  kind : String
  name : String
  status : String
  data : D

structure Edge where
  id : String
  source : String
  target : String
  type : String
  label : String := ""
  isPartial : Bool := false
  skipIfKindVisible : String := ""
  policyEffect : String := ""
  deriving DecidableEq, Repr

/-- The other fields of a topology that are written to the wire. -/
structure Remarks where
  warnings : List String := []
  largeCluster : Bool := false
  hiddenKinds : List String := []
  requiresNamespaceFilter : Bool := false
  crdDiscoveryStatus : String := ""
  estimatedNodes : ℤ := 0
  summaryMode : Bool := false
  deriving DecidableEq, Repr

/-- What a topology holds, and what is marshaled of it. -/
structure Graph where
  nodes : List (Node Data)
  edges : List Edge
  remarks : Remarks

structure SARTuple where
  group : String
  resource : String
  ns : String
  deriving DecidableEq, Repr

def kindNodeClass : String := "NodeClass"
def kindSecret : String := "Secret"
def kindNetworkPolicy : String := "NetworkPolicy"
def kindCiliumNetworkPolicy : String := "CiliumNetworkPolicy"
def kindCiliumClusterwideNetworkPolicy : String := "CiliumClusterwideNetworkPolicy"

section Fields

def get (d : Data) (key : String) : Option Value := d.bind fun m => m key

/-- `v, _ := d[key].(string)` -/
def text (d : Data) (key : String) : String :=
  match get d key with
  | some (.str s) => s
  | _ => ""

def nodeNamespaceFromData (n : Node Data) : String := text n.data "namespace"

/-- What stands before the first slash, or nothing. -/
def groupFromAPIVersion (apiVersion : String) : String :=
  if '/' ∈ apiVersion.toList then String.ofList (apiVersion.toList.takeWhile (· ≠ '/')) else ""

def nodeAPIGroupFromData (n : Node Data) : String := groupFromAPIVersion (text n.data "apiVersion")

end Fields

section Calico

def calicoProjectGroup : String := "projectcalico.org"
def calicoCRDGroup : String := "crd.projectcalico.org"

structure CalicoPolicyDefinition where
  nodeKind : String
  resource : String
  deriving DecidableEq, Repr

def calicoPolicyDefinitions : List CalicoPolicyDefinition :=
  [⟨"CalicoNetworkPolicy","networkpolicies"⟩,
    ⟨"CalicoGlobalNetworkPolicy","globalnetworkpolicies"⟩,
    ⟨"CalicoStagedNetworkPolicy","stagednetworkpolicies"⟩,
    ⟨"CalicoStagedGlobalNetworkPolicy","stagedglobalnetworkpolicies"⟩,
    ⟨"CalicoStagedKubernetesNetworkPolicy","stagedkubernetesnetworkpolicies"⟩]

def calicoPolicyDefinitionForNodeKind (kind : String) : Option CalicoPolicyDefinition :=
  calicoPolicyDefinitions.find? fun d => d.nodeKind = kind

def isCalicoPolicyKind (kind : String) : Bool :=
  calicoPolicyDefinitions.any fun d => d.nodeKind = kind

def isCalicoAPIGroup (group : String) : Bool :=
  group = calicoProjectGroup || group = calicoCRDGroup

/-- Every recorded apiVersion, or the advertised one. -/
def calicoNodeAPIVersions (n : Node Data) : List String :=
  let versions := match get n.data "apiVersions" with
    | some (.strs l) => l
    | some (.anys l) => l.filterMap Sum.getLeft?
    | _ => []
  if versions = [] ∧ text n.data "apiVersion" ≠ "" then [text n.data "apiVersion"] else versions

def calicoNodeAPIGroups (n : Node Data) : List String :=
  ((calicoNodeAPIVersions n).map groupFromAPIVersion).filter (· ≠ "")

/-- One tuple for each group that served the policy; none for a malformed node. -/
def calicoPolicyRBACTuples (n : Node Data) : Option (List SARTuple) :=
  match calicoPolicyDefinitionForNodeKind n.kind with
  | none => none
  | some definition =>
    let groups := ((calicoNodeAPIGroups n).map String.toLower).filter isCalicoAPIGroup
    let tuples := (Names.distinctFrom [] groups).map fun group =>
      ⟨group,definition.resource,nodeNamespaceFromData n⟩
    if tuples = [] then none else some tuples

end Calico

section Tuples

/-- `RBACTuplesForNode` of a node class: a namespaced one is allowed and a malformed one denied,
both without tuples to check. -/
def rbacTuplesForNodeClass (n : Node Data) : Option (List SARTuple) :=
  if nodeNamespaceFromData n ≠ "" then none
  else if nodeAPIGroupFromData n = "" ∨ text n.data "resource" = "" then none
  else some [⟨nodeAPIGroupFromData n,text n.data "resource",""⟩]

def clusterScopedDynamicTuple (n : Node Data) : Option SARTuple :=
  if text n.data "clusterScopedResource" = "" then none
  else some ⟨text n.data "clusterScopedGroup",text n.data "clusterScopedResource",""⟩

def secretTuple (n : Node Data) : SARTuple := ⟨"","secrets",nodeNamespaceFromData n⟩

def nodeClassRBACTuples (nodes : List (Node Data)) : List SARTuple :=
  Names.distinctFrom [] ((nodes.filter (·.kind = kindNodeClass)).flatMap fun n =>
    (rbacTuplesForNodeClass n).getD [])

def clusterScopedDynamicRBACTuples (nodes : List (Node Data)) : List SARTuple :=
  Names.distinctFrom [] (nodes.filterMap clusterScopedDynamicTuple)

def topologyCalicoRBACTuples (nodes : List (Node Data)) : List SARTuple :=
  Names.distinctFrom [] (nodes.flatMap fun n => (calicoPolicyRBACTuples n).getD [])

def secretRBACTuples (nodes : List (Node Data)) : List SARTuple :=
  (Names.distinctFrom [] ((nodes.filter (·.kind = kindSecret)).map secretTuple)).insertionSort
    fun a b => a.ns ≤ b.ns

end Tuples

section Denials

variable (allowed : List SARTuple)

/-- The verdict of each strip on one node. -/
def nodeClassDenied (n : Node Data) : Bool :=
  n.kind = kindNodeClass && !((rbacTuplesForNodeClass n).getD []).any (· ∈ allowed)

def clusterScopedDynamicDenied (n : Node Data) : Bool :=
  match clusterScopedDynamicTuple n with
  | none => false
  | some tuple => tuple ∉ allowed

def calicoPolicyDenied (n : Node Data) : Bool :=
  isCalicoPolicyKind n.kind && !((calicoPolicyRBACTuples n).getD []).any (· ∈ allowed)

def secretDenied (n : Node Data) : Bool := n.kind = kindSecret && secretTuple n ∉ allowed

/-- The apiVersion a surviving policy is to advertise instead, if the caller cannot use the one
it has and can use another. -/
def readvertisedVersion (n : Node Data) : Option String :=
  match calicoPolicyDefinitionForNodeKind n.kind with
  | none => none
  | some definition =>
    let tupleFor := fun apiVersion : String => SARTuple.mk
      (groupFromAPIVersion apiVersion).toLower definition.resource (nodeNamespaceFromData n)
    if n.data.isNone ∨ tupleFor (text n.data "apiVersion") ∈ allowed then none
    else (calicoNodeAPIVersions n).find? fun apiVersion => tupleFor apiVersion ∈ allowed

end Denials

/-- A network policy of any API: hiding one withholds coverage verdicts. -/
def isNetworkPolicyKind (kind : String) : Bool :=
  kind = kindNetworkPolicy || kind = kindCiliumNetworkPolicy ||
    kind = kindCiliumClusterwideNetworkPolicy || isCalicoPolicyKind kind

def hiddenPolicyNamespaces (nodes : List (Node Data)) (deny : List String) : List String :=
  (nodes.filter fun n => n.id ∈ deny && isNetworkPolicyKind n.kind).map nodeNamespaceFromData

end Radar.Topology
