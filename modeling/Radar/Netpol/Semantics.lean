import Radar.Netpol.Policy

/-!
# What policies mean

Kubernetes semantics of NetworkPolicy, stated without the evaluator. A
completion fixes what a static reader cannot see. Policies are additive: a
pod no policy isolates is open, and an isolated one admits what some policy
that isolates it admits.
-/

set_option autoImplicit false

namespace Radar.Netpol

/-- Labels of namespaces that were not supplied, whether an address range matches a peer, what a
malformed selector or peer entry matches, and ports the caller does not know. -/
structure Completion where
  nsLabels : String → Labels
  blockMatches : IPBlock → Peer → Prop
  selectorMatches : LabelSelector → Labels → Prop
  emptyEntryMatches : NetworkPolicyPeer → Peer → Prop
  portOf : Backend → ℤ

inductive Traffic where
  | ingress
  | egress
  deriving DecidableEq, Repr

/-- An explicit list of policy types is authoritative. Without one a policy isolates ingress,
and egress when it has egress rules. -/
def isolatesTraffic (np : NetworkPolicy) : Traffic → Prop
  | .ingress => .ingress ∈ np.policyTypes ∨ np.policyTypes = []
  | .egress => .egress ∈ np.policyTypes ∨ np.policyTypes = [] ∧ np.egress ≠ []

def rulesFor (np : NetworkPolicy) : Traffic → List RuleView
  | .ingress => np.ingress
  | .egress => np.egress

section Semantics

variable {IP CIDR : Type} (lib : Lib IP CIDR) (c : Completion)

def selectorHolds (sel : LabelSelector) (labels : Labels) : Prop :=
  match lib.asSelector sel with
  | .ok m => m labels = true
  | .error _ => c.selectorMatches sel labels

/-- The policy selects the pod and isolates it for this traffic. -/
def isolates (t : Traffic) (np : NetworkPolicy) (pod : Pod) : Prop :=
  np.ns = pod.ns ∧ selectorHolds lib c np.podSelector pod.labels ∧ isolatesTraffic np t

/-- Protocols are compared in upper case and default to TCP. -/
def sameProtocol (p q : String) : Prop := protocolOrTCP lib p = protocolOrTCP lib q

/-- The number of the first container port of that name and protocol. -/
def namedPort (pod : Pod) (name proto : String) : Option ℤ :=
  ((pod.containers.flatMap Container.ports).find? fun cp =>
    cp.name = name ∧ protocolOrTCP lib cp.protocol = protocolOrTCP lib proto).map
    ContainerPort.containerPort

def portCovered (dst : Pod) (port : ℤ) (proto : String) (e : NetworkPolicyPort) : Prop :=
  match e.port with
  | none => True
  | some (.int start) => port = start ∨ ∃ stop, e.endPort = some stop ∧ start ≤ port ∧ port ≤ stop
  | some (.str name) => namedPort lib dst name proto = some port

def portMatches (dst : Pod) (port : ℤ) (proto : String) (e : NetworkPolicyPort) : Prop :=
  sameProtocol lib (e.protocol.getD "") proto ∧ portCovered lib dst port proto e

def namespaceLabels (target : Peer) (pod : Pod) : Labels :=
  match target.ns with
  | some ns => ns.labels
  | none => c.nsLabels pod.ns

/-- The namespaces of an entry; without a selector, the policy's own. -/
def nsMatches (entry : NetworkPolicyPeer) (target : Peer) (pod : Pod) (policyNs : String) : Prop :=
  match entry.namespaceSelector with
  | none => pod.ns = policyNs
  | some sel => selectorHolds lib c sel (namespaceLabels c target pod)

def podMatches (entry : NetworkPolicyPeer) (pod : Pod) : Prop :=
  ∀ sel, entry.podSelector = some sel → selectorHolds lib c sel pod.labels

def peerMatches (target : Peer) (policyNs : String) (entry : NetworkPolicyPeer) : Prop :=
  match entry.ipBlock with
  | some block => c.blockMatches block target
  | none =>
    if entry.namespaceSelector.isNone ∧ entry.podSelector.isNone then
      c.emptyEntryMatches entry target
    else ∃ pod, target.pod = some pod ∧
      nsMatches lib c entry target pod policyNs ∧ podMatches lib c entry pod

/-- An empty list of ports or of peers restricts nothing. -/
def ruleAdmits (target : Peer) (policyNs : String) (dst : Pod) (port : ℤ) (proto : String)
    (rule : RuleView) : Prop :=
  (rule.ports = [] ∨ ∃ e ∈ rule.ports, portMatches lib dst port proto e) ∧
  (rule.peers = [] ∨ ∃ entry ∈ rule.peers, peerMatches lib c target policyNs entry)

def policyAdmits (t : Traffic) (target : Peer) (dst : Pod) (port : ℤ) (proto : String)
    (np : NetworkPolicy) : Prop :=
  ∃ rule ∈ rulesFor np t, ruleAdmits lib c target np.ns dst port proto rule

def trafficAdmitted (t : Traffic) (policies : List (Option NetworkPolicy)) (selected : Pod)
    (target : Peer) (dst : Pod) (port : ℤ) (proto : String) : Prop :=
  (∃ np, some np ∈ policies ∧ isolates lib c t np selected) →
    ∃ np, some np ∈ policies ∧ isolates lib c t np selected ∧
      policyAdmits lib c t target dst port proto np

def actualPort (b : Backend) : ℤ := if b.port ≤ 0 then c.portOf b else b.port

def egressAdmitted (policies : List (Option NetworkPolicy)) (src : Pod) (b : Backend)
    (dst : Pod) : Prop :=
  trafficAdmitted lib c .egress policies src b.toPeer dst (actualPort c b) b.protocol

def ingressAdmitted (policies : List (Option NetworkPolicy)) (src : Peer) (b : Backend)
    (dst : Pod) : Prop :=
  trafficAdmitted lib c .ingress policies dst src dst (actualPort c b) b.protocol

/-- A pod always reaches itself; any other path needs the source's egress and the
destination's ingress. -/
def pathAdmitted (policies : List (Option NetworkPolicy)) (src : Peer) (srcPod : Pod)
    (b : Backend) (dst : Pod) : Prop :=
  samePod srcPod dst = true ∨
    egressAdmitted lib c policies srcPod b dst ∧ ingressAdmitted lib c policies src b dst

end Semantics

end Radar.Netpol
