import Radar.Netpol.Explain

/-!
# The verdict on a connection

Every backend is judged on its whole path, the source's egress and its own
ingress, and the paths are alternatives. A selector that cannot be read
leaves the whole connection open.
-/

set_option autoImplicit false

namespace Radar.Netpol

inductive VerdictKind where
  | unknown
  | allowed
  | denied
  deriving DecidableEq, Repr

structure Verdict where
  kind : VerdictKind
  direction : Direction := .unset
  policies : List String := []
  deriving DecidableEq, Repr

def policyName (np : NetworkPolicy) : String := np.ns ++ "/" ++ np.name

def policyNames (policies : List NetworkPolicy) : List String :=
  Names.sorted (Names.distinctFrom [] (policies.map policyName))

def effectTri : Effect → Tri
  | .admits => .yes
  | .undecidable => .unknown
  | _ => .no

section Evaluate

variable {IP CIDR : Type} (lib : Lib IP CIDR)

/-- `none` when a selector could not be parsed. -/
def selectingPolicies (pod : Pod) (wants : PolicyTypes → Bool) :
    List (Option NetworkPolicy) → Option (List NetworkPolicy)
  | [] => some []
  | np::policies => match selects lib np (some pod) with
    | .error _ => none
    | .ok selects => do
      let out ← selectingPolicies pod wants policies
      match np with
      | some np => if selects ∧ wants (effectivePolicyTypes np) then some (np::out) else some out
      | none => some out

/-- Both directions: `selected` and `peer` are the ends as the policies see them. -/
def directionTri (dir : Direction) (selecting : List NetworkPolicy) (selected : Option Pod)
    (peer : Peer) (b : Backend) : Tri :=
  if selecting.length = 0 then .yes
  else selecting.foldl (fun verdict np => verdict.fold
    (effectTri (explain lib (some np) dir selected peer b.port b.protocol).effect)) .no

def egressAdmits (selecting : List NetworkPolicy) (src : Peer) (b : Backend) : Tri :=
  directionTri lib .egress selecting src.pod b.toPeer b

def ingressAdmits (selecting : List NetworkPolicy) (src : Peer) (b : Backend) : Tri :=
  directionTri lib .ingress selecting b.pod src b

structure BackendWalk where
  overall : Tri := .no
  egressAll : Tri := .no
  ingressAll : Tri := .no
  ingressPolicies : List NetworkPolicy := []

/-- The loop over the backends; `none` when it gives up. -/
def backendsLoop (policies : List (Option NetworkPolicy)) (egressPolicies : List NetworkPolicy)
    (src : Peer) (srcPod : Pod) : List (Backend × Pod) → BackendWalk → Option BackendWalk
  | [], w => some w
  | (b, bPod)::dst, w =>
    if samePod srcPod bPod then
      backendsLoop policies egressPolicies src srcPod dst
        { w with overall := .yes, egressAll := .yes, ingressAll := .yes }
    else do
      let egress := egressAdmits lib egressPolicies src b
      let selecting ← selectingPolicies lib bPod (·.ingress) policies
      let ingress := ingressAdmits lib selecting src b
      backendsLoop policies egressPolicies src srcPod dst
        ⟨w.overall.fold (egress.both ingress),w.egressAll.fold egress,w.ingressAll.fold ingress,
          w.ingressPolicies++selecting⟩

/-- The pods of the backends, unless one is missing or on the host network. -/
def backendPods : List Backend → Option (List (Backend × Pod))
  | [] => some []
  | b::dst => do
    let pod ← b.pod
    if pod.hostNetwork then none
    else do
      let rest ← backendPods dst
      some ((b, pod)::rest)

def denial (egressPolicies : List NetworkPolicy) (w : BackendWalk) : Verdict :=
  if w.egressAll = .no then ⟨.denied,.egress,policyNames egressPolicies⟩
  else if w.ingressAll = .no then ⟨.denied,.ingress,policyNames w.ingressPolicies⟩
  else ⟨.denied,.both,policyNames (egressPolicies++w.ingressPolicies)⟩

/-- The verdict once both ends are known to be pods with an address of their own. -/
def verdict (policies : List (Option NetworkPolicy)) (src : Peer) (srcPod : Pod)
    (dst : List (Backend × Pod)) : Option Verdict := do
  let egressPolicies ← selectingPolicies lib srcPod (·.egress) policies
  let w ← backendsLoop lib policies egressPolicies src srcPod dst {}
  match w.overall with
  | .yes => some ⟨.allowed,.unset,[]⟩
  | .unknown => none
  | .no => some (denial egressPolicies w)

/-- The source's checks, then the backends', then the verdict; `none` is its early return. -/
def evaluated (src : Peer) (dst : List Backend) (policies : List (Option NetworkPolicy)) :
    Option Verdict := do
  let srcPod ← src.pod
  if srcPod.hostNetwork ∨ dst.length = 0 then none
  else do
    let pods ← backendPods dst
    verdict lib policies src srcPod pods

def evaluate (src : Peer) (dst : List Backend) (policies : List (Option NetworkPolicy)) : Verdict :=
  (evaluated lib src dst policies).getD ⟨.unknown,.unset,[]⟩

end Evaluate

end Radar.Netpol
