import Radar.Base.Grouping
import Radar.Topology.BuildOptions
import Radar.Topology.Strip

/-!
# Shared frames

A broadcast cycle builds one graph for the clients whose options it writes
alike, asks what each of them may see of it, and marshals one frame for the
clients that may see the same. Maps are visited in any order.
-/

set_option autoImplicit false

namespace Radar.Sse

open Radar.Topology Radar.Strip Radar.Grouping

/-- Group, resource, namespace and verb; nil when none is wired. -/
abbrev Authorizer := Option (String → String → String → String → Bool)

structure ClientInfo where
  namespaces : Option (List String)
  viewMode : String
  showPolicyEffect : Bool
  /-- The keys of the map; its values are true. -/
  deniedKinds : List String
  authorize : Authorizer

structure Client where
  ch : ℕ
  info : ClientInfo

/-- `Subscribe`: the namespaces are sorted, and nil is kept apart from the empty list. -/
def subscribe (namespaces : Option (List String)) (viewMode : String) (deniedKinds : List String)
    (authorize : Authorizer) (showPolicyEffect : Bool) : ClientInfo :=
  ⟨namespaces.map Names.sorted,viewMode,showPolicyEffect,deniedKinds,authorize⟩

section Keys

structure ClientKey where
  namespacesKey : String
  deniedKindsKey : String
  viewMode : String
  showPolicyEffect : Bool
  deriving DecidableEq

def deniedKindsKey (deny : List String) : String :=
  (String.singleton ',').intercalate (Names.sorted (Names.distinctFrom [] deny))

def clientKey (info : ClientInfo) : ClientKey where
  namespacesKey := (String.singleton ',').intercalate (info.namespaces.getD [])
  deniedKindsKey := deniedKindsKey info.deniedKinds
  viewMode := info.viewMode
  showPolicyEffect := info.showPolicyEffect

def sarTupleText (t : SARTuple) : String :=
  t.group++String.singleton '\x00'++t.resource++String.singleton '\x00'++t.ns

def nodeClassTupleText (t : SARTuple) : String :=
  t.group++String.singleton '\x00'++t.resource

/-- Both tuple keys: the tuples' texts sorted and joined. -/
def tuplesKey (text : SARTuple → String) (tuples : List SARTuple) : String :=
  (String.singleton '\x01').intercalate (Names.sorted (tuples.map text))

def sarTuplesKey (tuples : List SARTuple) : String := tuplesKey sarTupleText tuples

def nodeClassTuplesKey (tuples : List SARTuple) : String := tuplesKey nodeClassTupleText tuples

end Keys

section Authorize

def nodeClassAuthorizer (authorize : Authorizer) (t : SARTuple) : Bool :=
  match authorize with
  | none => false
  | some f => f t.group t.resource "" "list"

/-- What a client may see, by the tuples of a graph. -/
structure Allowed where
  nodeClass : List SARTuple
  dynamic : List SARTuple
  calico : List SARTuple
  secrets : List SARTuple

def authorizedNodeClassTuples (nodes : List (Node Data)) (authorize : SARTuple → Bool) :
    List SARTuple := (nodeClassRBACTuples nodes).filter authorize

def authorizedClusterScopedDynamicTuples (nodes : List (Node Data))
    (authorize : SARTuple → Bool) : List SARTuple :=
  (clusterScopedDynamicRBACTuples nodes).filter authorize

def authorizedCalicoPolicyTuples (nodes : List (Node Data)) (authorize : Authorizer) :
    List SARTuple :=
  match authorize with
  | none => []
  | some f => (topologyCalicoRBACTuples nodes).filter fun t => f t.group t.resource t.ns "list"

def authorizedSecretTuples (nodes : List (Node Data)) (authorize : Authorizer) : List SARTuple :=
  match authorize with
  | none => []
  | some f =>
    let tuples := secretRBACTuples nodes
    let clusterWide := tuples ≠ [] && f "" "secrets" "" "list"
    tuples.filter fun t => clusterWide || f "" "secrets" t.ns "list"

def allowedTuples (nodes : List (Node Data)) (authorize : Authorizer) : Allowed where
  nodeClass := authorizedNodeClassTuples nodes (nodeClassAuthorizer authorize)
  dynamic := authorizedClusterScopedDynamicTuples nodes (nodeClassAuthorizer authorize)
  calico := authorizedCalicoPolicyTuples nodes authorize
  secrets := authorizedSecretTuples nodes authorize

def authKey (a : Allowed) : String :=
  nodeClassTuplesKey a.nodeClass++String.singleton '\x02'++nodeClassTuplesKey a.dynamic++
    String.singleton '\x03'++sarTuplesKey a.calico++String.singleton '\x04'++
    sarTuplesKey a.secrets

end Authorize

section Build

/-- A fresh map for every node of a build. -/
def allocNodes : Heap → List (Node Data) → List (Node Ref) × Heap
  | h, [] => ([],h)
  | h, n::ns =>
    let r : Ref × Heap := match n.data with
      | none => (none,h)
      | some m => (some h.data.next,{ h with data := (h.data.alloc m).2 })
    let rest := allocNodes r.2 ns
    (⟨n.id,n.kind,n.name,n.status,r.1⟩::rest.1,rest.2)

/-- A build's result: new arrays and new maps. -/
def newTopology (h : Heap) (g : Topology.Graph) : Topology × Heap :=
  let r := allocNodes h g.nodes
  ({ nodes := ⟨r.2.nodes.next,r.1.length⟩
     edges := ⟨r.2.edges.next,g.edges.length⟩
     remarks := g.remarks },
    { r.2 with nodes := (r.2.nodes.alloc r.1).2, edges := (r.2.edges.alloc g.edges).2 })

def clientOptions (namespaces : Option (List String)) (viewMode : String)
    (showPolicyEffect : Bool) : BuildOptions :=
  { defaultBuildOptions with
    namespaces := namespaces
    viewMode := if viewMode = "traffic" then "traffic" else "resources"
    showPolicyEffect := showPolicyEffect }

/-- The four strips after the authorization. -/
def stripUnauthorized (h : Heap) (t : Topology) (a : Allowed) : Topology × Heap :=
  let r := stripNodeClassesExcept h t a.nodeClass
  let r := stripClusterScopedDynamicExcept r.2 r.1 a.dynamic
  let r := stripCalicoPoliciesExcept r.2 r.1 a.calico
  stripSecretsExcept r.2 r.1 a.secrets

end Build

section Cycle

/-- The loops over maps of one cycle. -/
inductive Occasion where
  | clients
  | groups
  | members (key : ClientKey)
  | authGroups (key : ClientKey)

/-- The order in which a map's entries are visited, each time it is. -/
structure MapOrder where
  visit : Occasion → {α : Type} → List α → List α
  perm : ∀ (o : Occasion) {α : Type} (l : List α), (visit o l).Perm l

/-- What a group keeps of its first client. -/
structure GroupHead where
  namespaces : Option (List String)
  showPolicyEffect : Bool
  deniedKinds : List String

def groupHead (c : Client) : GroupHead :=
  ⟨c.info.namespaces,c.info.showPolicyEffect,c.info.deniedKinds⟩

abbrev ClientGroup := Group ClientKey GroupHead Client

abbrev AuthGroup := Group String Allowed Client

abbrev Sent := List (ℕ × Topology.Graph)

variable (order : MapOrder) (build : BuildOptions → Option Topology.Graph)

def clientGroups (clients : List Client) : List ClientGroup :=
  collect (fun c => clientKey c.info) groupHead (order.visit .clients clients)

def nodeClassGroups (nodes : List (Node Data)) (g : ClientGroup) : List AuthGroup :=
  collect (fun c => authKey (allowedTuples nodes c.info.authorize))
    (fun c => allowedTuples nodes c.info.authorize) (order.visit (.members g.key) g.members)

/-- One clone, stripped and marshaled, for every client of the group. -/
def sendFrame (topo : Topology) (st : Heap × Sent) (g : AuthGroup) : Heap × Sent :=
  let r := cloneTopology st.1 topo
  let r := stripUnauthorized r.2 r.1 g.head
  (r.2,st.2++g.members.map fun c => (c.ch,content r.2 r.1))

def sendGroup (st : Heap × Sent) (g : ClientGroup) : Heap × Sent :=
  match build (clientOptions g.head.namespaces g.key.viewMode g.head.showPolicyEffect) with
  | none => st
  | some graph =>
    let r := newTopology st.1 graph
    let r := stripNodeKinds r.2 r.1 g.head.deniedKinds
    let groups := nodeClassGroups order (views r.2 r.1) g
    (order.visit (.authGroups g.key) groups).foldl (sendFrame r.1) (r.2,st.2)

def emptyHeap : Heap := ⟨⟨fun _ _ => none,0⟩,⟨fun _ => [],0⟩,⟨fun _ => [],0⟩⟩

/-- The topology frames of one cycle, with the channels they are sent to. -/
def broadcastTopologyUpdate (clients : List Client) : Sent :=
  ((order.visit .groups (clientGroups order clients)).foldl (sendGroup order build)
    (emptyHeap,[])).2

def queued (sent : Sent) (ch : ℕ) : List Topology.Graph := (sent.filter (·.1 = ch)).map Prod.snd

/-- The frame of a client that is alone. -/
def frameAlone (info : ClientInfo) : Option Topology.Graph :=
  match build (clientOptions info.namespaces info.viewMode info.showPolicyEffect) with
  | none => none
  | some graph =>
    let r := newTopology emptyHeap graph
    let r := stripNodeKinds r.2 r.1 info.deniedKinds
    let r := stripUnauthorized r.2 r.1 (allowedTuples (views r.2 r.1) info.authorize)
    some (content r.2 r.1)

end Cycle

end Radar.Sse
