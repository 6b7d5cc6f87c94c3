import Radar.Base.Join
import Radar.Base.Names
import Radar.Netpol.Semantics

/-!
# Differences of NetworkPolicies

`diffNetworkPolicy` compares two versions of a policy by what it shows of them:
selectors, isolated directions and rules, each rule as one line. No other
comparison backs it, so an edit whose lines read alike is not recorded.
-/

set_option autoImplicit false

namespace Radar.Netpol

open Radar.Names

/-- What a field change shows: nothing, a line or a list of lines. -/
inductive FieldValue where
  | line (text : String)
  | lines (texts : List String)
  deriving DecidableEq, Repr

structure FieldChange where
  path : String
  oldValue : FieldValue
  newValue : FieldValue
  deriving DecidableEq, Repr

def joinOrNone (values : List String) : String :=
  if values.length = 0 then "none" else ",".intercalate values

def ruleCountSummary (direction : String) (oldCount newCount : ℕ) : String :=
  if oldCount = newCount then direction ++ " rules changed"
  else direction ++ " rules " ++ toString oldCount ++ "→" ++ toString newCount

def policyTypesDisplay (np : NetworkPolicy) : List String :=
  let types := effectivePolicyTypes np
  (if types.ingress then ["Ingress"] else []) ++ if types.egress then ["Egress"] else []

def IntOrString.text : IntOrString → String
  | .int val => toString val
  | .str val => val

def portDisplay (p : NetworkPolicyPort) : String :=
  match p.port with
  | none => "all"
  | some port =>
    match p.endPort with
    | none => port.text
    | some stop => port.text ++ "-" ++ toString stop

def policyPortDisplay (p : NetworkPolicyPort) : String :=
  p.protocol.getD "TCP" ++ "/" ++ portDisplay p

def policyPortsDisplay (ports : List NetworkPolicyPort) : String :=
  if ports.length = 0 then "all" else ",".intercalate (sorted (ports.map policyPortDisplay))

section Display

-- `metav1.FormatLabelSelector`
variable (format : LabelSelector → String)

def podSelectorDisplay (sel : LabelSelector) : String :=
  if selectorIsEmpty sel then "all pods" else format sel

def namespaceSelectorDisplay (sel : LabelSelector) : String :=
  if selectorIsEmpty sel then "all namespaces" else "namespaces " ++ format sel

def ipBlockDisplay (block : IPBlock) : String :=
  if block.except.length > 0 then
    block.cidr ++ " except " ++ ",".intercalate (sorted block.except)
  else block.cidr

/-- An entry with no field set shows nothing. -/
def peerDisplay (peer : NetworkPolicyPeer) : Option String :=
  match peer.ipBlock,peer.podSelector,peer.namespaceSelector with
  | some block,_,_ => some (ipBlockDisplay block)
  | none,some pods,some namespaces =>
    some ("pods " ++ podSelectorDisplay format pods ++ " in " ++
      namespaceSelectorDisplay format namespaces)
  | none,none,some namespaces => some (namespaceSelectorDisplay format namespaces)
  | none,some pods,none => some ("pods " ++ podSelectorDisplay format pods)
  | none,none,none => none

def peersDisplay (peers : List NetworkPolicyPeer) : String :=
  if peers.length = 0 then "anywhere"
  else "[" ++ "; ".intercalate (sorted (peers.filterMap (peerDisplay format))) ++ "]"

def ruleRef (direction : String) (rule : RuleView) : String :=
  direction ++ peersDisplay format rule.peers ++ " ports " ++ policyPortsDisplay rule.ports

def ingressRuleRefs (rules : List RuleView) : List String :=
  sorted (rules.map (ruleRef format "from "))

def egressRuleRefs (rules : List RuleView) : List String :=
  sorted (rules.map (ruleRef format "to "))

def diffNetworkPolicy (old new : NetworkPolicy) : List FieldChange × List String :=
  let oldSel := podSelectorDisplay format old.podSelector
  let newSel := podSelectorDisplay format new.podSelector
  let selector :=
    if oldSel ≠ newSel then
      [(FieldChange.mk "spec.podSelector" (.line oldSel) (.line newSel),
        "podSelector: " ++ oldSel ++ "→" ++ newSel)]
    else []
  let oldTypes := policyTypesDisplay old
  let newTypes := policyTypesDisplay new
  let types :=
    if oldTypes ≠ newTypes then
      [(FieldChange.mk "spec.policyTypes" (.lines oldTypes) (.lines newTypes),
        "isolates: " ++ joinOrNone oldTypes ++ "→" ++ joinOrNone newTypes)]
    else []
  let rules (path direction : String) (oldRefs newRefs : List String) :=
    if oldRefs ≠ newRefs then
      [(FieldChange.mk path (.lines oldRefs) (.lines newRefs),
        ruleCountSummary direction oldRefs.length newRefs.length)]
    else []
  let ingress := rules "spec.ingress" "ingress" (ingressRuleRefs format old.ingress)
    (ingressRuleRefs format new.ingress)
  let egress := rules "spec.egress" "egress" (egressRuleRefs format old.egress)
    (egressRuleRefs format new.egress)
  (selector++types++ingress++egress).unzip

end Display

section Accepted

/-- Digits, colons and dots with a prefix length. -/
def isCIDR (text : String) : Prop :=
  '/' ∈ text.toList ∧ ∀ c ∈ text.toList, c.isAlphanum ∨ c ∈ ['.',':','/']

/-- `IsValidPortName`: lower-case letters, digits and dashes, with a letter. -/
def isPortName (name : String) : Prop :=
  name.length ≤ 15 ∧ (∀ c ∈ name.toList, c.isLower ∨ c.isDigit ∨ c = '-') ∧
    ∃ c ∈ name.toList, c.isLower

/-- What the API server accepts in a policy. -/
structure AcceptedPort (p : NetworkPolicyPort) : Prop where
  protocol : ∀ q, p.protocol = some q → q ∈ ["TCP","UDP","SCTP"]
  number : ∀ n, p.port = some (.int n) → 1 ≤ n ∧ n ≤ 65535
  name : ∀ s, p.port = some (.str s) → isPortName s
  endPort : ∀ stop, p.endPort = some stop → ∃ n, p.port = some (.int n) ∧ n ≤ stop ∧ stop ≤ 65535

structure AcceptedBlock (block : IPBlock) : Prop where
  cidr : isCIDR block.cidr
  except : ∀ e ∈ block.except, isCIDR e

variable {IP CIDR : Type} (lib : Lib IP CIDR)

def AcceptedSelector (sel : LabelSelector) : Prop := ∃ m, lib.asSelector sel = .ok m

structure AcceptedPeer (peer : NetworkPolicyPeer) : Prop where
  podSelector : ∀ sel, peer.podSelector = some sel → AcceptedSelector lib sel
  namespaceSelector : ∀ sel, peer.namespaceSelector = some sel → AcceptedSelector lib sel
  block : ∀ block, peer.ipBlock = some block →
    AcceptedBlock block ∧ peer.podSelector = none ∧ peer.namespaceSelector = none
  specified : peer.ipBlock.isSome ∨ peer.podSelector.isSome ∨ peer.namespaceSelector.isSome

structure AcceptedPolicy (np : NetworkPolicy) : Prop where
  podSelector : AcceptedSelector lib np.podSelector
  peers : ∀ t, ∀ rule ∈ rulesFor np t, ∀ peer ∈ rule.peers, AcceptedPeer lib peer
  ports : ∀ t, ∀ rule ∈ rulesFor np t, ∀ p ∈ rule.ports, AcceptedPort p

/-- The text of a selector is the list of its requirements: it can be read back, and a blank
stands only beside the operator of a set. -/
structure FormatsSelectors (format : LabelSelector → String) : Prop where
  same : ∀ s t m n, lib.asSelector s = .ok m → lib.asSelector t = .ok n → format s = format t →
    ∀ labels, m labels = n labels
  blank : ∀ s m a b, lib.asSelector s = .ok m → selectorIsEmpty s = false →
    (format s).toList = a++ ' '::b →
      "in (".toList <+: b ∨ "notin (".toList <+: b ∨ "(".toList <+: b
  free : ∀ s m, lib.asSelector s = .ok m → ';' ∉ (format s).toList ∧ ']' ∉ (format s).toList

end Accepted

section Meaning

variable {IP CIDR : Type} (lib : Lib IP CIDR) (c : Completion)

/-- An address range holds what its network holds and its exceptions do not. -/
def BlocksAreRanges (inRange : String → Peer → Prop) : Prop :=
  ∀ block target, c.blockMatches block target ↔
    inRange block.cidr target ∧ ∀ e ∈ block.except, ¬inRange e target

/-- Two versions of a policy that no pod, peer or connection tells apart. -/
structure SameMeaning (np np' : NetworkPolicy) : Prop where
  selects : ∀ labels, selectorHolds lib c np.podSelector labels ↔
    selectorHolds lib c np'.podSelector labels
  isolates : ∀ t, isolatesTraffic np t ↔ isolatesTraffic np' t
  admits : ∀ t target dst port proto, policyAdmits lib c t target dst port proto np ↔
    policyAdmits lib c t target dst port proto np'

def peersMatch (policyNs : String) (rule : RuleView) (target : Peer) : Prop :=
  rule.peers = [] ∨ ∃ entry ∈ rule.peers, peerMatches lib c target policyNs entry

/-- The rule has an entry for the protocol that names no port. -/
def leavesOpen (rule : RuleView) (proto : String) : Prop :=
  ∃ e ∈ rule.ports, e.protocol.getD "TCP" = proto ∧ e.port = none

def namesAll (rule : RuleView) (proto : String) : Prop :=
  ∃ e ∈ rule.ports, e.protocol.getD "TCP" = proto ∧ e.port = some (.str "all")

/-- A protocol whose port one rule leaves open and the other restricts to the port named all. -/
def Confused (rule rule' : RuleView) : Prop :=
  ∃ proto, leavesOpen rule proto ∧ namesAll rule' proto ∧ ¬leavesOpen rule' proto

/-- No rule of the one policy and rule of the other are for the same peers and confused. -/
def Told (np np' : NetworkPolicy) : Prop :=
  ∀ t, ∀ rule ∈ rulesFor np t, ∀ rule' ∈ rulesFor np' t,
    (∀ target, peersMatch lib c np.ns rule target ↔ peersMatch lib c np'.ns rule' target) →
      ¬Confused rule rule' ∧ ¬Confused rule' rule

end Meaning

end Radar.Netpol
