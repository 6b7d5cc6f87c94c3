import Radar.Base.Names

/-!
# NetworkPolicy objects

Pods, namespaces, peers and policies with the fields the evaluator reads, and
the rules for policy types and ports. Ports and counters are integers, since
the code only compares them. Label selectors, upper-casing and network addresses
come from libraries and are the fields of `Lib`.
-/

set_option autoImplicit false

namespace Radar.Netpol

/-- A Go map from label names to values. -/
abbrev Labels := String → Option String

structure LabelSelectorRequirement where
  key : String
  operator : String
  values : List String
  deriving DecidableEq, Repr

/-- The map of exact labels is listed by key, so a key occurs once. -/
structure LabelSelector where
  matchLabels : List (String × String) := []
  matchExpressions : List LabelSelectorRequirement := []
  keys_sorted : (matchLabels.map Prod.fst).Pairwise (· < ·) := by simp
  deriving DecidableEq, Repr

theorem LabelSelector.empty_sorted :
    (([] : List (String × String)).map Prod.fst).Pairwise (· < ·) := by simp

def selectorIsEmpty (sel : LabelSelector) : Bool :=
  sel.matchLabels.isEmpty && sel.matchExpressions.isEmpty

/-- `LabelSelectorAsSelector`, `strings.ToUpper`, and what the evaluator calls of package `net`:
`ipOf` is the address of a network, `to4` whether an address has an IPv4 form. -/
structure Lib (IP CIDR : Type) where
  asSelector : LabelSelector → Except String (Labels → Bool)
  toUpper : String → String
  parseIP : String → Option IP
  parseCIDR : String → Option (IP × CIDR)
  ipOf : CIDR → IP
  to4 : IP → Bool
  contains : CIDR → IP → Bool

/-- An empty selector is well formed and matches every object; upper case is stable. -/
structure Lawful {IP CIDR : Type} (lib : Lib IP CIDR) : Prop where
  empty_matches_all : ∀ sel, selectorIsEmpty sel = true →
    ∃ m, lib.asSelector sel = .ok m ∧ ∀ l, m l = true
  upper_upper : ∀ p, lib.toUpper (lib.toUpper p) = lib.toUpper p
  upper_tcp : lib.toUpper "TCP" = "TCP"
  upper_ne_empty : ∀ p, p ≠ "" → lib.toUpper p ≠ ""

structure ContainerPort where
  name : String := ""
  containerPort : ℤ
  protocol : String := ""

structure Container where
  ports : List ContainerPort

structure Pod where
  ns : String
  name : String
  uid : String := ""
  labels : Labels := fun _ => none
  hostNetwork : Bool := false
  containers : List Container := []
  podIP : String := ""
  podIPs : List String := []

structure Namespace where
  labels : Labels

/-- An external endpoint is not a pod. Without a pod and not external, the pod is unknown. -/
structure Peer where
  pod : Option Pod := none
  ns : Option Namespace := none
  external : Bool := false
  host : Bool := false
  ip : String := ""
  external_no_pod : external = true → pod = none := by simp

structure Backend extends Peer where
  port : ℤ
  protocol : String

inductive IntOrString where
  | int (val : ℤ)
  | str (val : String)
  deriving DecidableEq, Repr

def IntOrString.named : IntOrString → Bool
  | .int _ => false
  | .str _ => true

structure NetworkPolicyPort where
  protocol : Option String := none
  port : Option IntOrString := none
  endPort : Option ℤ := none

/-- By uid when both are known. -/
def samePod (a b : Pod) : Bool :=
  if a.uid ≠ "" ∧ b.uid ≠ "" then a.uid = b.uid else a.ns = b.ns ∧ a.name = b.name

structure IPBlock where
  cidr : String
  except : List String := []

structure NetworkPolicyPeer where
  podSelector : Option LabelSelector := none
  namespaceSelector : Option LabelSelector := none
  ipBlock : Option IPBlock := none

/-- An ingress rule with its `from` list or an egress rule with its `to` list. -/
structure RuleView where
  ports : List NetworkPolicyPort := []
  peers : List NetworkPolicyPeer := []

inductive PolicyType where
  | ingress
  | egress
  | other (text : String) (fresh : text ∉ ["Ingress", "Egress"])
  deriving DecidableEq, Repr

structure NetworkPolicy where
  ns : String
  name : String
  podSelector : LabelSelector := { keys_sorted := LabelSelector.empty_sorted }
  policyTypes : List PolicyType := []
  ingress : List RuleView := []
  egress : List RuleView := []

structure PolicyTypes where
  ingress : Bool := false
  egress : Bool := false

def policyTypesStep (t : PolicyTypes) : PolicyType → PolicyTypes
  | .ingress => { t with ingress := true }
  | .egress => { t with egress := true }
  | .other _ _ => t

def effectivePolicyTypes (np : NetworkPolicy) : PolicyTypes :=
  if np.policyTypes.length > 0 then np.policyTypes.foldl policyTypesStep {}
  else { ingress := true, egress := decide (np.egress.length > 0) }

section Ports

variable {IP CIDR : Type} (lib : Lib IP CIDR)

def protocolOrTCP (p : String) : String := if p = "" then "TCP" else lib.toUpper p

theorem protocolOrTCP_idem (hl : Lawful lib) (p : String) :
    protocolOrTCP lib (protocolOrTCP lib p) = protocolOrTCP lib p := by
  by_cases hp : p = ""
  · simp [protocolOrTCP, hp, hl.upper_tcp]
  · simp [protocolOrTCP, hp, hl.upper_ne_empty p hp, hl.upper_upper]

def protoString (p : Option String) : String := p.getD ""

def containerPortByName (pod : Option Pod) (name proto : String) : Option ℤ :=
  match pod with
  | none => none
  | some pod => pod.containers.findSome? fun c => c.ports.findSome? fun cp =>
      if cp.name = name ∧ protocolOrTCP lib cp.protocol = proto then some cp.containerPort else none

/-- One entry of the loop of `ruleMatchesPort`, for a normalized protocol. -/
def portEntryMatches (podPort : ℤ) (proto : String) (pod : Option Pod)
    (rp : NetworkPolicyPort) : Bool :=
  if protocolOrTCP lib (protoString rp.protocol) ≠ proto then false
  else match rp.port with
    | none => true
    | some (.int start) =>
      let stop := match rp.endPort with
        | some e => if e ≥ start then e else start
        | none => start
      decide (podPort ≥ start ∧ podPort ≤ stop)
    | some (.str name) =>
      match containerPortByName lib pod name proto with
      | none => false
      | some n => decide (n = podPort)

def ruleMatchesPort (rulePorts : List NetworkPolicyPort) (podPort : ℤ) (proto : String)
    (pod : Option Pod) : Bool :=
  if rulePorts.length = 0 then true
  else rulePorts.any (portEntryMatches lib podPort (protocolOrTCP lib proto) pod)

end Ports

theorem policyTypes_foldl (l : List PolicyType) (t : PolicyTypes) :
    ((l.foldl policyTypesStep t).ingress = true ↔ t.ingress = true ∨ .ingress ∈ l) ∧
    ((l.foldl policyTypesStep t).egress = true ↔ t.egress = true ∨ .egress ∈ l) := by
  induction l generalizing t with
  | nil => simp
  | cons p l ih =>
    rw [List.foldl_cons, (ih _).1, (ih _).2]
    cases p <;> simp [policyTypesStep]

theorem effectivePolicyTypes_ingress (np : NetworkPolicy) :
    (effectivePolicyTypes np).ingress = true ↔ .ingress ∈ np.policyTypes ∨ np.policyTypes = [] := by
  by_cases h : np.policyTypes = []
  · simp [effectivePolicyTypes, h]
  · simp [effectivePolicyTypes, List.length_pos_iff.mpr h, (policyTypes_foldl _ _).1, h]

theorem effectivePolicyTypes_egress (np : NetworkPolicy) :
    (effectivePolicyTypes np).egress = true ↔
      .egress ∈ np.policyTypes ∨ np.policyTypes = [] ∧ np.egress ≠ [] := by
  by_cases h : np.policyTypes = []
  · simp [effectivePolicyTypes, h, List.length_pos_iff]
  · simp [effectivePolicyTypes, List.length_pos_iff.mpr h, (policyTypes_foldl _ _).2, h]

end Radar.Netpol
