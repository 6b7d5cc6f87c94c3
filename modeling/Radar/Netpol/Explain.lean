import Radar.Base.Tri
import Radar.Netpol.Policy

/-!
# One policy, one connection

The rule walk behind every verdict, with the sentence it gives an operator.
Loops of the source are recursions over the remaining entries; a loop that
returns early ends in `.error` with what it returns.
-/

set_option autoImplicit false

namespace Radar.Netpol

inductive Direction where
  | unset
  | ingress
  | egress
  | both
  deriving DecidableEq, Repr

inductive Effect where
  | notApplicable
  | admits
  | doesNotAdmit
  | undecidable
  deriving DecidableEq, Repr

structure Explanation where
  effect : Effect
  reason : String
  deriving DecidableEq, Repr

section Texts

variable {IP CIDR : Type} (lib : Lib IP CIDR)

def podRef (pod : Pod) : String := if pod.ns = "" then pod.name else pod.ns ++ "/" ++ pod.name

def flowWord (dir : Direction) : String := if dir = .egress then "outgoing" else "incoming"

def fromTo (dir : Direction) : String := if dir = .egress then "to" else "from"

def peerDesc (p : Peer) (dir : Direction) : String :=
  let role := if dir = .egress then "the destination" else "the source"
  match p.pod with
  | some pod => role ++ " pod " ++ podRef pod
  | none =>
    if p.external ∧ p.ip ≠ "" then role ++ " " ++ p.ip ++ " (outside the cluster)"
    else if p.external then role ++ " (outside the cluster)"
    else if p.host ∧ p.ip ≠ "" then role ++ " " ++ p.ip ++ " (host network)"
    else if p.host then role ++ " (host network)"
    else role

def portDesc (port : ℤ) (proto : String) : String :=
  let p := protocolOrTCP lib proto
  if port ≤ 0 then p ++ " (port unknown)" else p ++ "/" ++ toString port

def addrOrPeer (p : Peer) (dir : Direction) : String :=
  if p.ip ≠ "" then p.ip
  else match p.pod with
    | some pod => if pod.podIP ≠ "" then pod.podIP else peerDesc p dir
    | none => peerDesc p dir

def familyWord (cidr : String) : String :=
  match lib.parseCIDR cidr with
  | some (ip, _) => if lib.to4 ip then "IPv4" else "IPv6"
  | none => "IPv4"

def requirementDesc (e : LabelSelectorRequirement) : String :=
  if e.values.length > 0 then e.key ++ " " ++ e.operator ++ " (" ++ ",".intercalate e.values ++ ")"
  else e.key ++ " " ++ e.operator

def selectorDesc (sel : LabelSelector) : String :=
  let keys := Names.sorted (sel.matchLabels.map Prod.fst)
  let parts := keys.map (fun k => k ++ "=" ++ (sel.matchLabels.lookup k).getD "")++
    sel.matchExpressions.map requirementDesc
  if parts.length = 0 then "with any labels" else "labeled " ++ ", ".intercalate parts

def selectorPeerDesc (entry : NetworkPolicyPeer) (policyNs : String) : String :=
  let pods := match entry.podSelector with
    | some sel => if selectorIsEmpty sel then "any pod" else "pods " ++ selectorDesc sel
    | none => "any pod"
  match entry.namespaceSelector with
  | none => pods ++ " in namespace " ++ policyNs
  | some sel =>
    if selectorIsEmpty sel then pods ++ " in any namespace"
    else pods ++ " in namespaces " ++ selectorDesc sel

def dedupe (reasons : List String) : List String := Names.distinctFrom [""] reasons

def podRangeCaveat : String := "network plugins disagree on whether address ranges match pod addresses (Cilium doesn't by default), so Radar can't tell whether this rule applies"

end Texts

section Addresses

variable {IP CIDR : Type} (lib : Lib IP CIDR)

def podIPs (pod : Pod) : List IP :=
  (Names.distinctFrom [""] (pod.podIP::pod.podIPs)).filterMap lib.parseIP

def peerIPs (p : Peer) : List IP :=
  match lib.parseIP p.ip with
  | some ip => [ip]
  | none => match p.pod with
    | some pod => podIPs lib pod
    | none => []

def ipBlockWellFormed (block : IPBlock) : Bool :=
  (lib.parseCIDR block.cidr).isSome && block.except.all fun ex => (lib.parseCIDR ex).isSome

/-- Whether an exception holds the address; open when one is malformed before that is known. -/
def excepted (ip : IP) : List String → Tri
  | [] => .no
  | ex::exs => match lib.parseCIDR ex with
    | none => .unknown
    | some (_, exCIDR) => if lib.contains exCIDR ip then .yes else excepted ip exs

def ipBlockLoop (block : IPBlock) (cidr : CIDR) : List IP → Tri → Tri
  | [], out => out
  | ip::ips, out =>
    if lib.to4 ip ≠ lib.to4 (lib.ipOf cidr) then ipBlockLoop block cidr ips out
    else
      let out := if out = .unknown then .no else out
      if ¬lib.contains cidr ip then ipBlockLoop block cidr ips out
      else match excepted lib ip block.except with
        | .unknown => .unknown
        | .yes => ipBlockLoop block cidr ips out
        | .no => .yes

def ipBlockMatch (block : IPBlock) (ips : List IP) : Tri :=
  match lib.parseCIDR block.cidr with
  | none => .unknown
  | some (_, cidr) => ipBlockLoop lib block cidr ips .unknown

end Addresses

section Rules

variable {IP CIDR : Type} (lib : Lib IP CIDR)

/-- The error is the text of a malformed selector. -/
def selects (np : Option NetworkPolicy) (pod : Option Pod) : Except String Bool :=
  match np, pod with
  | some np, some pod =>
    if np.ns ≠ pod.ns then .ok false
    else match lib.asSelector np.podSelector with
      | .error err => .error err
      | .ok m => .ok (m pod.labels)
  | _, _ => .ok false

def rulePortsLoop (port : ℤ) (proto : String) (namedPortPod : Option Pod) (external : Bool) :
    List NetworkPolicyPort → Tri → Tri
  | [], out => out
  | entry::ports, out =>
    if protocolOrTCP lib (protoString entry.protocol) ≠ proto then
      rulePortsLoop port proto namedPortPod external ports out
    else match entry.port with
      | none => .yes
      | some p =>
        if port ≤ 0 then
          rulePortsLoop port proto namedPortPod external ports (out.fold .unknown)
        else if p.named ∧ namedPortPod.isNone ∧ ¬external then
          rulePortsLoop port proto namedPortPod external ports (out.fold .unknown)
        else if ruleMatchesPort lib [entry] port proto namedPortPod then .yes
        else rulePortsLoop port proto namedPortPod external ports out

def rulePortsMatch (ports : List NetworkPolicyPort) (port : ℤ) (proto : String)
    (namedPortPod : Option Pod) (external : Bool) : Tri :=
  rulePortsLoop lib port (protocolOrTCP lib proto) namedPortPod external ports .no

def selectorTri (sel : LabelSelector) (labels : Labels) : Tri :=
  match lib.asSelector sel with
  | .error _ => .unknown
  | .ok m => if m labels then .yes else .no

def peerNsTri (entry : NetworkPolicyPeer) (target : Peer) (pod : Pod) (policyNs : String) : Tri :=
  match entry.namespaceSelector with
  | none => if pod.ns ≠ policyNs then .no else .yes
  | some sel =>
    if selectorIsEmpty sel then .yes
    else match target.ns with
      | none => .unknown
      | some ns => selectorTri lib sel ns.labels

def peerPodTri (entry : NetworkPolicyPeer) (pod : Pod) : Tri :=
  match entry.podSelector with
  | none => .yes
  | some sel => selectorTri lib sel pod.labels

def ipBlockAdmits (block : IPBlock) (target : Peer) (dir : Direction) : Tri × String :=
  let desc := "addresses in " ++ block.cidr ++
    if block.except.length > 0 then " (except " ++ ", ".intercalate block.except ++ ")" else ""
  if dir = .egress ∧ ¬target.external then (.unknown, desc ++ ": " ++ podRangeCaveat)
  else if ¬ipBlockWellFormed lib block then
    (.unknown, desc ++ ": the range or one of its exceptions is not a valid CIDR")
  else
    let ips := peerIPs lib target
    match ipBlockMatch lib block ips with
    | .yes =>
      if ¬target.external then (.unknown, desc ++ ": " ++ podRangeCaveat) else (.yes, desc)
    | .no =>
      if dir = .egress then (.no, desc)
      else (.unknown, desc ++ ": the network may change the source address before this rule sees it, so Radar can't tell whether " ++ addrOrPeer target dir ++ " falls in this range")
    | .unknown =>
      if dir = .egress ∧ ips.length > 0 then (.no, desc)
      else (.unknown, desc ++ ": no " ++ familyWord lib block.cidr ++ " address is known for " ++
        peerDesc target dir)

def selectorAdmits (entry : NetworkPolicyPeer) (target : Peer) (policyNs : String) :
    Tri × String :=
  let desc := selectorPeerDesc entry policyNs
  if target.external then (.no, desc)
  else match target.pod with
    | none => (.unknown, desc ++ ": the pod at the other end can't be looked up (it may no longer exist)")
    | some target_pod =>
      let ns := peerNsTri lib entry target target_pod policyNs
      let pod := peerPodTri lib entry target_pod
      if ns = .no then (.no, desc)
      else if pod = .no then (.no, desc)
      else if ns = .unknown then (.unknown, desc ++ ": can't check the labels of namespace " ++
        target_pod.ns ++ " — they are unavailable")
      else if pod = .unknown then (.unknown, desc ++ ": Radar could not interpret this selector")
      else (.yes, desc)

def peerAdmits (entry : NetworkPolicyPeer) (target : Peer) (policyNs : String) (dir : Direction) :
    Tri × String :=
  match entry.ipBlock with
  | some block => ipBlockAdmits lib block target dir
  | none =>
    if entry.namespaceSelector.isNone ∧ entry.podSelector.isNone then
      (.unknown, "an empty from/to entry, which Radar can't interpret")
    else selectorAdmits lib entry target policyNs

/-- The loop over the entries of one rule: what they fold to and the reasons they leave, or the
description of the entry that admits. -/
def peersLoop (target : Peer) (policyNs : String) (dir : Direction) :
    List NetworkPolicyPeer → Tri → List String → Except String (Tri × List String)
  | [], ruleTri, reasons => .ok (ruleTri, reasons)
  | entry::peers, ruleTri, reasons => match peerAdmits lib entry target policyNs dir with
    | (.yes, desc) => .error desc
    | (.unknown, desc) =>
      peersLoop target policyNs dir peers (ruleTri.fold .unknown) (reasons++[desc])
    | (.no, _) => peersLoop target policyNs dir peers ruleTri reasons

structure RuleWalk where
  overall : Tri := .no
  sawPortMatch : Bool := false
  reasons : List String := []

/-- What the walk over the rules does not change. -/
structure Connection where
  dir : Direction
  policyNs : String
  peer : Peer
  port : ℤ
  proto : String
  namedPortPod : Option Pod

def portReason (k : Connection) (i : ℕ) : String :=
  if k.port ≤ 0 then
    "rule " ++ toString i ++ " allows specific ports and the port of this connection is not known"
  else "rule " ++ toString i ++ " uses a named port and the destination pod can't be looked up"

def anyPeerReason (k : Connection) (i : ℕ) : String :=
  "rule " ++ toString i ++ " allows " ++ flowWord k.dir ++ " " ++ portDesc lib k.port k.proto ++
    " " ++ if k.dir = .egress then "to any destination" else "from any source"

def peerReason (k : Connection) (i : ℕ) (desc : String) : String :=
  "rule " ++ toString i ++ " allows " ++ flowWord k.dir ++ " " ++ portDesc lib k.port k.proto ++
    " " ++ fromTo k.dir ++ " " ++ desc

/-- The answer of a rule's port entries; a rule without any covers every port. -/
def rulePorts (k : Connection) (rule : RuleView) : Tri :=
  if rule.ports.length > 0 then
    rulePortsMatch lib rule.ports k.port k.proto k.namedPortPod k.peer.external
  else .yes

/-- The walk over the rules from the `i`-th (counted from 1) on. -/
def rulesLoop (k : Connection) : ℕ → List RuleView → RuleWalk → Except Explanation RuleWalk
  | _, [], w => .ok w
  | i, rule::rules, w => match rulePorts lib k rule with
    | .no => rulesLoop k (i+1) rules w
    | .unknown => rulesLoop k (i+1) rules
        { w with overall := w.overall.fold .unknown, reasons := w.reasons++[portReason k i] }
    | .yes =>
      if rule.peers.length = 0 then .error ⟨.admits, anyPeerReason lib k i⟩
      else match peersLoop lib k.peer k.policyNs k.dir rule.peers .no w.reasons with
        | .error desc => .error ⟨.admits, peerReason lib k i desc⟩
        | .ok (ruleTri, reasons) => rulesLoop k (i+1) rules ⟨w.overall.fold ruleTri, true, reasons⟩

/-- The rules of a policy for one direction, once it selects and isolates the pod. -/
def explainRules (k : Connection) (rules : List RuleView) : Explanation :=
  if rules.length = 0 then ⟨.doesNotAdmit, "requires " ++ flowWord k.dir ++
    " traffic to be explicitly allowed, but has no allow rules"⟩
  else match rulesLoop lib k 1 rules {} with
    | .error e => e
    | .ok w =>
      let portText := portDesc lib k.port k.proto
      if w.overall = .unknown then ⟨.undecidable, "; ".intercalate (dedupe w.reasons)⟩
      else if ¬w.sawPortMatch then
        ⟨.doesNotAdmit, "no rule allows " ++ portText ++ "; its rules cover other ports"⟩
      else ⟨.doesNotAdmit, "no rule allows " ++ flowWord k.dir ++ " " ++ portText ++ " " ++
        fromTo k.dir ++ " " ++ peerDesc k.peer k.dir⟩

/-- The checks on the two ends, once the policy is known to apply. -/
def explainApplied (np : NetworkPolicy) (dir : Direction) (selected : Pod) (peer : Peer)
    (port : ℤ) (proto : String) : Explanation :=
  if selected.hostNetwork then ⟨.undecidable, "pod " ++ podRef selected ++
    " runs on the host network, where NetworkPolicy does not apply the same way"⟩
  else match peer.pod.filter (·.hostNetwork) with
    | some pod => ⟨.undecidable, "pod " ++ podRef pod ++ " runs on the host network; whether policies see it as a pod depends on the network plugin"⟩
    | none =>
      if peer.host then ⟨.undecidable, peerDesc peer dir ++ " is a node or the host network; whether policies apply to it depends on the network plugin"⟩
      else explainRules lib ⟨dir,np.ns,peer,port,proto,if dir = .egress then peer.pod else some selected⟩
        (if dir = .ingress then np.ingress else np.egress)

def explain (np : Option NetworkPolicy) (dir : Direction) (selected : Option Pod) (peer : Peer)
    (port : ℤ) (proto : String) : Explanation :=
  match np with
  | none => ⟨.notApplicable, "no policy"⟩
  | some np => match selected with
    | none => ⟨.undecidable, "the pod this policy would apply to is not known"⟩
    | some pod => match selects lib (some np) (some pod) with
      | .error err => ⟨.undecidable,
        "Radar could not interpret this policy's pod selector (" ++ err ++ ")"⟩
      | .ok false => ⟨.notApplicable, "does not select pod " ++ podRef pod⟩
      | .ok true =>
        let types := effectivePolicyTypes np
        match dir with
        | .ingress =>
          if ¬types.ingress then ⟨.notApplicable, "does not apply to incoming traffic"⟩
          else explainApplied lib np dir pod peer port proto
        | .egress =>
          if ¬types.egress then ⟨.notApplicable, "does not apply to outgoing traffic"⟩
          else explainApplied lib np dir pod peer port proto
        | _ => ⟨.notApplicable, "no direction"⟩

end Rules

end Radar.Netpol
