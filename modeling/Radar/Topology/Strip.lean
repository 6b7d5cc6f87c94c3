import Radar.Base.Store
import Radar.Topology.Graph

/-!
# Stripping a topology in place

A topology is two slices of shared arrays, and a node refers to its data map.
Stripping compacts the arrays of the topology it is given; a data map is
shared between the topologies that were cloned from one build, so a strip
replaces the map of a node before it writes to it.
-/

set_option autoImplicit false

namespace Radar.Strip

open Radar.Topology

/-- A reference to a data map, or nil. -/
abbrev Ref := Option ℕ

structure Slice where
  addr : ℕ
  len : ℕ

structure Topology where
  nodes : Slice
  edges : Slice
  remarks : Remarks

structure Heap where
  data : Store Fields
  nodes : Store (List (Node Ref))
  edges : Store (List Edge)

section Read

def load (h : Heap) (r : Ref) : Data := r.map h.data.cell

def view (h : Heap) (n : Node Ref) : Node Data := ⟨n.id,n.kind,n.name,n.status,load h n.data⟩

def nodesOf (h : Heap) (t : Topology) : List (Node Ref) :=
  (h.nodes.cell t.nodes.addr).take t.nodes.len

def edgesOf (h : Heap) (t : Topology) : List Edge :=
  (h.edges.cell t.edges.addr).take t.edges.len

def views (h : Heap) (t : Topology) : List (Node Data) := (nodesOf h t).map (view h)

/-- What a topology holds now; `json.Marshal` writes this. -/
def content (h : Heap) (t : Topology) : Graph := ⟨views h t,edgesOf h t,t.remarks⟩

end Read

section Write

/-- `maps.Clone` -/
def cloneData (h : Heap) : Ref → Ref × Heap
  | none => (none,h)
  | some a => (some h.data.next,{ h with data := (h.data.alloc (h.data.cell a)).2 })

/-- `d[key] = v`, or `delete(d, key)`. No write below reaches a nil map. -/
def setField (h : Heap) (key : String) (v : Option Value) : Ref → Heap
  | none => h
  | some a => { h with data := h.data.write a (Function.update (h.data.cell a) key v) }

/-- Over the front of an array. -/
def overwrite {α : Type} (old new : List α) : List α := new++old.drop new.length

def writeNodes (h : Heap) (t : Topology) (nodes : List (Node Ref)) : Heap :=
  { h with nodes := h.nodes.write t.nodes.addr (overwrite (h.nodes.cell t.nodes.addr) nodes) }

def writeEdges (h : Heap) (t : Topology) (edges : List Edge) : Heap :=
  { h with edges := h.edges.write t.edges.addr (overwrite (h.edges.cell t.edges.addr) edges) }

/-- `kept := t.Nodes[:0]` and its appends: the write index never passes the read index. -/
def keepNodes (h : Heap) (t : Topology) (kept : List (Node Ref)) : Topology × Heap :=
  ({ t with nodes := ⟨t.nodes.addr,kept.length⟩ },writeNodes h t kept)

def keepEdges (h : Heap) (t : Topology) (kept : List Edge) : Topology × Heap :=
  ({ t with edges := ⟨t.edges.addr,kept.length⟩ },writeEdges h t kept)

/-- A loop over the nodes that may give each another map. -/
def eachNode (f : Heap → Node Ref → Ref × Heap) : Heap → List (Node Ref) → List (Node Ref) × Heap
  | h, [] => ([],h)
  | h, n::ns =>
    let r := f h n
    let rest := eachNode f r.2 ns
    ({ n with data := r.1 }::rest.1,rest.2)

end Write

section Strip

def coverageField : String := "policyCoverageWorkloads"
def statusField : String := "policyStatus"

/-- The coverage verdict may rest on a policy of these namespaces. -/
def statusHidden (hidden : List String) (d : Data) : Bool :=
  ("" ∈ hidden || text d "namespace" ∈ hidden) && (get d statusField).isSome

/-- The workload references that stay, if the value is a list of them. -/
def visibleRefs (deny : List String) : Option Value → Option (List String)
  | some (.strs refs) => some (refs.filter (· ∉ deny))
  | _ => none

/-- A map with something to withhold is cloned and the clone edited. -/
def withhold (deny hidden : List String) (h : Heap) (n : Node Ref) : Ref × Heap :=
  let d := load h n.data
  let r := if (get d coverageField).getD .nil ≠ .nil ∨ statusHidden hidden d then
      cloneData h n.data
    else (n.data,h)
  let h := match visibleRefs deny (get (load r.2 r.1) coverageField) with
    | some visible => setField r.2 coverageField (some (.strs visible)) r.1
    | none => r.2
  (r.1,if statusHidden hidden d then setField h statusField none r.1 else h)

def stripNodeIDs (h : Heap) (t : Topology) (deny : List String) : Topology × Heap :=
  if deny = [] then (t,h)
  else
    let hidden := hiddenPolicyNamespaces (views h t) deny
    let r := keepNodes h t ((nodesOf h t).filter fun n => n.id ∉ deny)
    let r := keepEdges r.2 r.1
      ((edgesOf r.2 r.1).filter fun e => e.source ∉ deny && e.target ∉ deny)
    let shown := eachNode (withhold deny hidden) r.2 (nodesOf r.2 r.1)
    (r.1,writeNodes shown.2 r.1 shown.1)

/-- The identifiers of the nodes a strip denies. -/
def deniedIDs (denied : Node Data → Bool) (nodes : List (Node Data)) : List String :=
  (nodes.filter denied).map Node.id

def stripNodeKinds (h : Heap) (t : Topology) (deny : List String) : Topology × Heap :=
  if deny = [] then (t,h) else stripNodeIDs h t (deniedIDs (fun n => n.kind ∈ deny) (views h t))

def stripNodeClassesExcept (h : Heap) (t : Topology) (allowed : List SARTuple) :
    Topology × Heap :=
  stripNodeIDs h t (deniedIDs (nodeClassDenied allowed) (views h t))

def stripClusterScopedDynamicExcept (h : Heap) (t : Topology) (allowed : List SARTuple) :
    Topology × Heap :=
  let deny := deniedIDs (clusterScopedDynamicDenied allowed) (views h t)
  if deny = [] then (t,h) else stripNodeIDs h t deny

/-- The map is replaced, not written. -/
def readvertiseCalicoPolicy (allowed : List SARTuple) (h : Heap) (n : Node Ref) : Ref × Heap :=
  match n.data, readvertisedVersion allowed (view h n) with
  | some a, some apiVersion =>
    let replacement := Function.update (h.data.cell a) "apiVersion" (some (.str apiVersion))
    (some h.data.next,{ h with data := (h.data.alloc replacement).2 })
  | r, _ => (r,h)

/-- No turn of the loop changes what a later one reads, so the denied nodes are those of the
start. -/
def stripCalicoPoliciesExcept (h : Heap) (t : Topology) (allowed : List SARTuple) :
    Topology × Heap :=
  let deny := deniedIDs (calicoPolicyDenied allowed) (views h t)
  let r := eachNode (fun h n => if calicoPolicyDenied allowed (view h n) then (n.data,h)
    else readvertiseCalicoPolicy allowed h n) h (nodesOf h t)
  stripNodeIDs (writeNodes r.2 t r.1) t deny

def stripSecretsExcept (h : Heap) (t : Topology) (allowed : List SARTuple) : Topology × Heap :=
  stripNodeIDs h t (deniedIDs (secretDenied allowed) (views h t))

/-- New arrays over the same nodes; the nodes' maps are shared. -/
def cloneTopology (h : Heap) (t : Topology) : Topology × Heap :=
  ({ t with
      nodes := ⟨h.nodes.next,(nodesOf h t).length⟩
      edges := ⟨h.edges.next,(edgesOf h t).length⟩ },
    { h with
      nodes := (h.nodes.alloc (nodesOf h t)).2
      edges := (h.edges.alloc (edgesOf h t)).2 })

end Strip

end Radar.Strip
