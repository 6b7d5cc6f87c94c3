import Radar.Topology.ResourceKinds

/-!
# The neighborhood of a resource

A breadth-first walk from the node that a reference resolves to, over the edges
of a profile, with a budget of nodes and a gate that each candidate must pass.
-/

set_option autoImplicit false

namespace Radar.Topology

structure ResourceRef where
  kind : String
  ns : String
  name : String
  group : String := ""
  deriving DecidableEq, Repr

structure NeighborhoodOptions where
  profile : String := ""
  hops : ℤ := 0
  maxNodes : ℤ := 0
  /-- The gate; a denied node is skipped. -/
  allow : Node Data → Bool

structure Subgraph where
  root : ResourceRef
  nodes : List (Node Data) := []
  edges : List Edge := []
  truncated : Bool := false
  rbacDenied : ℕ := 0
  ambiguousRoot : Bool := false

def neighborhoodMaxHops : ℤ := 2
def neighborhoodDefaultHops : ℤ := 1
def neighborhoodDefaultMaxNodes : ℤ := 25

namespace NeighborhoodOptions

def boundedHops (opts : NeighborhoodOptions) : ℕ :=
  (min (if opts.hops ≤ 0 then neighborhoodDefaultHops else opts.hops) neighborhoodMaxHops).toNat

def budget (opts : NeighborhoodOptions) : ℕ :=
  (if opts.maxNodes ≤ 0 then neighborhoodDefaultMaxNodes else opts.maxNodes).toNat

end NeighborhoodOptions

section EdgeTypes

def allEdgeTypes : List String :=
  ["manages", "routes-to", "exposes", "uses", "protects", "configures"]

def edgeTypesForAuto (rootKind : String) : List String :=
  if rootKind ∈ ["Pod", "PodGroup", "Deployment", "StatefulSet", "DaemonSet", "ReplicaSet",
      "Rollout", "Job", "CronJob", "Workflow", "CronWorkflow", "KnativeService",
      "KnativeRevision", "KnativeConfiguration"] then
    ["manages", "routes-to", "exposes", "protects"]++
      if rootKind = "Workflow" ∨ rootKind = "CronWorkflow" then ["configures"] else []
  else if rootKind ∈ ["WorkflowTemplate", "ClusterWorkflowTemplate"] then ["configures", "manages"]
  else if rootKind ∈ ["Application", "Kustomization", "HelmRelease", "GitRepository"] then
    ["manages"]
  else if rootKind ∈ ["Service", "Ingress", "Gateway", "GatewayClass", "HTTPRoute", "GRPCRoute",
      "TCPRoute", "TLSRoute", "UDPRoute", "VirtualService", "IstioGateway", "HTTPProxy",
      "IngressRoute", "IngressRouteTCP", "IngressRouteUDP"] then
    ["routes-to", "exposes"]
  else if rootKind ∈ ["NetworkPolicy", "CiliumNetworkPolicy", "CiliumClusterwideNetworkPolicy",
      "ClusterNetworkPolicy", "CalicoNetworkPolicy", "CalicoGlobalNetworkPolicy",
      "CalicoStagedNetworkPolicy", "CalicoStagedGlobalNetworkPolicy",
      "CalicoStagedKubernetesNetworkPolicy", "PodDisruptionBudget", "MachineHealthCheck",
      "PeerAuthentication", "AuthorizationPolicy"] then
    ["protects"]
  else if rootKind ∈ ["Node", "NodePool", "NodeClaim", "NodeClass"] then ["manages"]
  else allEdgeTypes

/-- A profile that is not known is auto. -/
def edgeTypesForProfile (profile rootKind : String) : List String :=
  if profile = "all" then allEdgeTypes else edgeTypesForAuto rootKind

end EdgeTypes

section Root

variable (u : Unicode) (root : ResourceRef)

/-- Whether the id that the reference is written with stands for the node. -/
def namesRoot (n : Node Data) : Bool :=
  n.id = buildNodeID u root.kind root.ns root.name &&
    if root.group = "" then nodeIsCanonicalBuiltin n else nodeMatchesAPIGroup u n root.group

/-- What `findNodeByRef` does not skip. -/
def matchesRef (n : Node Data) : Bool :=
  let resourceKind := normalizeKind u root.kind
  let group := nodeAPIGroupFromData n
  (u.equalFold n.kind (pseudoKindFor u resourceKind root.group) ||
      u.equalFold (kubernetesKindForNode n) resourceKind) &&
    n.name = root.name && nodeNamespaceFromData n = root.ns &&
    (root.group = "" || nodeMatchesAPIGroup u n root.group) &&
    !(root.group = "" && group ≠ "" && (match builtinGroup resourceKind with
      | some builtin => group ≠ builtin
      | none => false))

/-- The loop of `findNodeByRef`, which has found `found`; the second component says ambiguous. -/
def findNodeByRefFrom (found : Option (Node Data)) : List (Node Data) → Option (Node Data) × Bool
  | [] => (found,false)
  | n::rest =>
    if !matchesRef u root n then findNodeByRefFrom found rest
    else
      match found with
      | some m =>
        if nodeAPIGroupFromData n ≠ nodeAPIGroupFromData m then (none,true)
        else findNodeByRefFrom (some n) rest
      | none => findNodeByRefFrom (some n) rest

def findNodeByRef (nodes : List (Node Data)) : Option (Node Data) × Bool :=
  findNodeByRefFrom u root none nodes

end Root

/-- A map by id keeps the last node of an id. -/
def nodeByID (nodes : List (Node Data)) (id : String) : Option (Node Data) :=
  (nodes.filter fun n => n.id = id).getLast?

/-- The root of the walk, and whether more than one API group has it. -/
def resolveRoot (u : Unicode) (root : ResourceRef) (nodes : List (Node Data)) :
    Option (Node Data) × Bool :=
  match nodeByID nodes (buildNodeID u root.kind root.ns root.name) with
  | some n =>
    if root.group ≠ "" ∧ nodeMatchesAPIGroup u n root.group = false then findNodeByRef u root nodes
    else if root.group = "" ∧ nodeIsCanonicalBuiltin n = false then findNodeByRef u root nodes
    else (some n,false)
  | none => findNodeByRef u root nodes

section Index

structure NodeEdgeSlots where
  incoming : List Edge := []
  outgoing : List Edge := []

/-- One round of the loop of `IndexByResource` over the edges. -/
def indexEdge (byNodeID : String → NodeEdgeSlots) (e : Edge) : String → NodeEdgeSlots :=
  let byNodeID := if e.source ≠ "" then
      Function.update byNodeID e.source
        { byNodeID e.source with outgoing := (byNodeID e.source).outgoing++[e] }
    else byNodeID
  if e.target ≠ "" then
    Function.update byNodeID e.target
      { byNodeID e.target with incoming := (byNodeID e.target).incoming++[e] }
  else byNodeID

def indexByResource (edges : List Edge) : String → NodeEdgeSlots :=
  edges.foldl indexEdge fun _ => {}

/-- The edges that the walk follows from a node, those that go out first. -/
def neighbors (byNodeID : String → NodeEdgeSlots) (allowedEdges : List String) (id : String) :
    List Edge :=
  (byNodeID id).outgoing.filter (·.type ∈ allowedEdges)++
    (byNodeID id).incoming.filter (·.type ∈ allowedEdges)

end Index

/-- `order` is also the set of the included nodes. -/
structure Walk where
  order : List String
  next : List String := []
  truncated : Bool := false
  denied : List String := []
  deriving DecidableEq, Repr

section Walk

variable (allow : Node Data → Bool) (budget : ℕ) (nodes : List (Node Data))

/-- An edge of the node whose turn it is. -/
def Walk.visit (id : String) (w : Walk) (e : Edge) : Walk :=
  let other := if e.source = id then e.target else e.source
  if other ∈ w.order then w
  else if other ∈ w.denied then w
  else
    match nodeByID nodes other with
    | none => w
    | some candidate =>
      if !allow candidate then { w with denied := w.denied++[other] }
      else if budget ≤ w.order.length then { w with truncated := true }
      else { w with order := w.order++[other], next := w.next++[other] }

variable (edgesOf : String → List Edge)

/-- The nodes of a level, until the budget is spent. -/
def Walk.level (w : Walk) : List String → Walk
  | [] => w
  | id::frontier =>
    let w := (edgesOf id).foldl (visit allow budget nodes id) w
    if w.truncated then w else level w frontier

def Walk.hops (w : Walk) : ℕ → Walk
  | 0 => w
  | n+1 =>
    let w := level allow budget nodes edgesOf { w with next := [] } w.next
    if w.truncated ∨ w.next = [] then w else hops w n

end Walk

/-- What was computed over the whole graph is not shown under a gate. -/
def redact (n : Node Data) : Node Data :=
  let covers := match get n.data "policyCoverageWorkloads" with
    | none | some .nil => false
    | _ => true
  if covers || (get n.data "policyStatus").isSome then
    { n with data := n.data.map fun m key =>
      if key = "policyCoverageWorkloads" ∨ key = "policyStatus" then none else m key }
  else n

section Build

variable (u : Unicode) (root : ResourceRef) (opts : NeighborhoodOptions) (t : Graph)

/-- The walk from a root that passes the gate. -/
def expand (rootNode : Node Data) (sub : Subgraph) : Subgraph :=
  let allowedEdges := edgeTypesForProfile opts.profile rootNode.kind
  let w := Walk.hops opts.allow opts.budget t.nodes
    (neighbors (indexByResource t.edges) allowedEdges)
    { order := [rootNode.id], next := [rootNode.id] } opts.boundedHops
  { sub with
    nodes := w.order.filterMap fun id => (nodeByID t.nodes id).map redact
    edges := t.edges.filter fun e =>
      e.type ∈ allowedEdges && e.source ∈ w.order && e.target ∈ w.order
    truncated := w.truncated
    rbacDenied := w.denied.length }

/-- `BuildNeighborhoodWithIndex` with the index of the topology and without discovery. -/
def buildNeighborhood : Subgraph :=
  match resolveRoot u root t.nodes with
  | (_,true) => { root := root, ambiguousRoot := true }
  | (none,false) => { root := root }
  | (some rootNode,false) =>
    let sub : Subgraph :=
      { root :=
          { kind := kubernetesKindForNode rootNode
            ns := nodeNamespaceFromData rootNode
            name := rootNode.name
            group := if root.group = "" then nodeGroup rootNode else root.group } }
    if !opts.allow rootNode then { sub with rbacDenied := 1 } else expand opts t rootNode sub

end Build

end Radar.Topology
