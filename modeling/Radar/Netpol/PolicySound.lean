import Radar.Netpol.Evaluate
import Radar.Netpol.Semantics

/-!
# A policy's answer is sound

Every level of the rule walk settles what it stands for: a port list, a peer
entry, a rule, the rules of a policy. The walk keeps an answer that is never
yes, since a yes leaves the loop at once.
-/

set_option autoImplicit false

namespace Radar.Netpol

open Tri

variable {IP CIDR : Type} {lib : Lib IP CIDR}

theorem findSome_ite {α β : Type} (p : α → Prop) [DecidablePred p] (f : α → β) (l : List α) :
    l.findSome? (fun a => if p a then some (f a) else none) =
      (l.find? (fun a => decide (p a))).map f := by
  induction l with
  | nil => rfl
  | cons a l ih =>
    by_cases ha : p a
    · simp [ha]
    · simp [ha, ih]

theorem findSome_map {α β γ : Type} (g : α → Option β) (f : β → γ) (l : List α) :
    l.findSome? (fun a => (g a).map f) = (l.findSome? g).map f := by
  induction l with
  | nil => rfl
  | cons a l ih => cases h : g a <;> simp [h, ih]

theorem containerPortByName_eq (pod : Pod) (name proto : String) :
    containerPortByName lib (some pod) name (protocolOrTCP lib proto) =
      namedPort lib pod name proto := by
  simp only [containerPortByName, namedPort, findSome_ite, List.find?_flatMap, findSome_map]

theorem portEntryMatches_iff (dst : Pod) (port : ℤ) (proto : String)
    (e : NetworkPolicyPort) :
    portEntryMatches lib port (protocolOrTCP lib proto) (some dst) e = true ↔
      portMatches lib dst port proto e := by
  by_cases hp : protocolOrTCP lib (e.protocol.getD "") = protocolOrTCP lib proto
  · cases he : e.port with
    | none => simp [portEntryMatches, portMatches, portCovered, sameProtocol, protoString, hp, he]
    | some v =>
      cases v with
      | int start =>
        cases hs : e.endPort with
        | none =>
          simp [portEntryMatches, portMatches, portCovered, sameProtocol, protoString, hp, he, hs]
          omega
        | some stop =>
          simp only [portEntryMatches, portMatches, portCovered, sameProtocol, protoString, hp, he,
            hs, ne_eq, not_true_eq_false, if_false, decide_eq_true_eq, true_and,
            Option.some.injEq, exists_eq_left']
          split_ifs <;> omega
      | str name =>
        simp only [portEntryMatches, portMatches, portCovered, sameProtocol, protoString, hp, he,
          ne_eq, not_true_eq_false, if_false, true_and, containerPortByName_eq]
        cases namedPort lib dst name proto <;> simp
  · simp [portEntryMatches, portMatches, sameProtocol, protoString, hp]

/-- The port was normalized by the caller already. -/
theorem ruleMatchesPort_singleton (hl : Lawful lib) (dst : Pod) (port : ℤ) (proto : String)
    (e : NetworkPolicyPort) :
    ruleMatchesPort lib [e] port (protocolOrTCP lib proto) (some dst) = true ↔
      portMatches lib dst port proto e := by
  rw [← portEntryMatches_iff, ruleMatchesPort, protocolOrTCP_idem lib hl]
  simp

/-- What is known of a port: an unknown one may be any. -/
def Known (port actual : ℤ) : Prop := 0 < port → actual = port

theorem rulePortsLoop_settles (hl : Lawful lib) (dst : Pod) {port actual : ℤ}
    (hport : Known port actual) (proto : String) (external : Bool) (ports : List NetworkPolicyPort)
    {out : Tri} {p : Prop} (hout : Settles out p) :
    Settles (rulePortsLoop lib port (protocolOrTCP lib proto) (some dst) external ports out)
      (p ∨ ∃ e ∈ ports, portMatches lib dst actual proto e) := by
  induction ports generalizing out p with
  | nil => simpa [rulePortsLoop] using hout
  | cons e ports ih =>
    rw [List.exists_mem_cons_iff, ← or_assoc]
    by_cases hp : protocolOrTCP lib (protoString e.protocol) = protocolOrTCP lib proto
    · cases he : e.port with
      | none =>
        have hm : portMatches lib dst actual proto e := ⟨hp,by simp [portCovered, he]⟩
        simp only [rulePortsLoop, hp, he, ne_eq, not_true_eq_false, if_false]
        exact settles_yes (.inl (.inr hm))
      | some v =>
        simp only [rulePortsLoop, hp, he, ne_eq, not_true_eq_false, if_false]
        by_cases hu : port ≤ 0
        · rw [if_pos hu]
          exact ih (hout.fold (settles_unknown _))
        · have hm := ruleMatchesPort_singleton hl dst port proto e
          rw [hport (by omega)] at ih ⊢
          simp only [if_neg hu, Option.isNone_some, Bool.false_eq_true, false_and, and_false,
            if_false]
          by_cases hadm : portMatches lib dst port proto e
          · rw [if_pos (hm.mpr hadm)]
            exact settles_yes (.inl (.inr hadm))
          · rw [if_neg (fun h => hadm (hm.mp h))]
            exact ih (hout.congr (by simp [hadm]))
    · have hm : ¬portMatches lib dst actual proto e := fun h => hp h.1
      simp only [rulePortsLoop, ne_eq, hp, not_false_eq_true, if_true]
      exact ih (hout.congr (by simp [hm]))

section Peers

variable (c : Completion)

theorem selectorTri_settles (sel : LabelSelector) (labels : Labels) :
    Settles (selectorTri lib sel labels) (selectorHolds lib c sel labels) := by
  rw [selectorTri, selectorHolds]
  cases lib.asSelector sel with
  | error err => exact settles_unknown _
  | ok m =>
    by_cases h : m labels = true
    · simpa [h] using settles_yes trivial
    · simpa [h] using settles_no (fun h : False => h)

theorem peerNsTri_settles (hl : Lawful lib) (entry : NetworkPolicyPeer) (target : Peer) (pod : Pod)
    (policyNs : String) :
    Settles (peerNsTri lib entry target pod policyNs)
      (nsMatches lib c entry target pod policyNs) := by
  rw [peerNsTri, nsMatches]
  cases entry.namespaceSelector with
  | none =>
    by_cases h : pod.ns = policyNs
    · simpa [h] using settles_yes trivial
    · simpa [h] using settles_no (fun h : False => h)
  | some sel =>
    by_cases he : selectorIsEmpty sel = true
    · obtain ⟨m,hm,hall⟩ := hl.empty_matches_all sel he
      simp only [he, if_true, selectorHolds, hm]
      exact settles_yes (hall _)
    · simp only [he, Bool.false_eq_true, if_false]
      cases hns : target.ns with
      | none => exact settles_unknown _
      | some ns =>
        simp only [namespaceLabels, hns]
        exact selectorTri_settles c sel ns.labels

theorem peerPodTri_settles (entry : NetworkPolicyPeer) (pod : Pod) :
    Settles (peerPodTri lib entry pod) (podMatches lib c entry pod) := by
  rw [peerPodTri, podMatches]
  cases entry.podSelector with
  | none => exact settles_yes (by simp)
  | some sel => simpa using selectorTri_settles c sel pod.labels

/-- The two selectors of an entry are requirements on one pod. -/
theorem selectorAdmits_fst (entry : NetworkPolicyPeer) (target : Peer) (pod : Pod)
    (hpod : target.pod = some pod) (policyNs : String) :
    (selectorAdmits lib entry target policyNs).1 =
      (peerNsTri lib entry target pod policyNs).both (peerPodTri lib entry pod) := by
  have hext : target.external ≠ true := fun h => by simp [target.external_no_pod h] at hpod
  simp only [selectorAdmits, hext, hpod, Bool.false_eq_true, if_false]
  cases peerNsTri lib entry target pod policyNs <;> cases peerPodTri lib entry pod <;> rfl

/-- An address range never decides anything about a pod. -/
theorem ipBlockAdmits_pod (block : IPBlock) (target : Peer) (hext : target.external ≠ true)
    (dir : Direction) : (ipBlockAdmits lib block target dir).1 = .unknown := by
  cases dir <;> cases hb : ipBlockWellFormed lib block <;>
    cases hm : ipBlockMatch lib block (peerIPs lib target) <;> simp [ipBlockAdmits, hext, hb, hm]

theorem peerAdmits_settles (hl : Lawful lib) (entry : NetworkPolicyPeer) (target : Peer) (pod : Pod)
    (hpod : target.pod = some pod) (policyNs : String) (dir : Direction) :
    Settles (peerAdmits lib entry target policyNs dir).1
      (peerMatches lib c target policyNs entry) := by
  have hext : target.external ≠ true := fun h => by simp [target.external_no_pod h] at hpod
  rw [peerAdmits, peerMatches]
  cases entry.ipBlock with
  | some block =>
    simp only [ipBlockAdmits_pod block target hext dir]
    exact settles_unknown _
  | none =>
    by_cases he : entry.namespaceSelector.isNone ∧ entry.podSelector.isNone
    · simp only [if_pos he]
      exact settles_unknown _
    · simp only [if_neg he, selectorAdmits_fst entry target pod hpod policyNs]
      apply ((peerNsTri_settles c hl entry target pod policyNs).both
        (peerPodTri_settles c entry pod)).congr
      simp [hpod]

/-- The answer a loop goes on with: never yes, and right when it is no. -/
structure Pending (t : Tri) (p : Prop) : Prop where
  ne_yes : t ≠ .yes
  settles : Settles t p

theorem pending_no : Pending .no False where
  ne_yes := by simp
  settles := settles_no id

theorem Pending.fold {a b : Tri} {p q : Prop} (ha : Pending a p) (hb : Pending b q) :
    Pending (a.fold b) (p ∨ q) where
  ne_yes h := (fold_eq_yes.mp h).elim ha.ne_yes hb.ne_yes
  settles := ha.settles.fold hb.settles

theorem Pending.congr {t : Tri} {p q : Prop} (h : Pending t p) (hpq : p ↔ q) : Pending t q where
  ne_yes := h.ne_yes
  settles := h.settles.congr hpq

theorem pending_unknown (p : Prop) : Pending .unknown p where
  ne_yes := by simp
  settles := settles_unknown p

/-- What the loop over a rule's entries ends with is right about the rule's peers. -/
def PeersRight (p : Prop) : Except String (Tri × List String) → Prop
  | .error _ => p
  | .ok (ruleTri, _) => Pending ruleTri p

theorem peersLoop_right (hl : Lawful lib) (target : Peer) (pod : Pod) (hpod : target.pod = some pod)
    (policyNs : String) (dir : Direction) (peers : List NetworkPolicyPeer) {ruleTri : Tri}
    {p : Prop} (ht : Pending ruleTri p) (reasons : List String) :
    PeersRight (p ∨ ∃ entry ∈ peers, peerMatches lib c target policyNs entry)
      (peersLoop lib target policyNs dir peers ruleTri reasons) := by
  induction peers generalizing ruleTri p reasons with
  | nil => simpa [peersLoop, PeersRight] using ht
  | cons entry peers ih =>
    have hs := peerAdmits_settles c hl entry target pod hpod policyNs dir
    rw [List.exists_mem_cons_iff, ← or_assoc, peersLoop]
    cases hadm : peerAdmits lib entry target policyNs dir with
    | mk t desc =>
      rw [hadm] at hs
      cases t with
      | yes => exact .inl (.inr (hs.yes rfl))
      | unknown => exact ih (ht.fold (pending_unknown _)) _
      | no => exact ih (ht.congr (by simp [hs.no rfl])) _

end Peers

section RuleWalk

variable (c : Completion)

/-- The connection of a walk, against the pod its named ports resolve on. -/
structure Resolved (k : Connection) (dst : Pod) (actual : ℤ) : Prop where
  pod : ∃ pod, k.peer.pod = some pod
  named : k.namedPortPod = some dst
  port : Known k.port actual

theorem rulePorts_settles (hl : Lawful lib) {k : Connection} {dst : Pod} {actual : ℤ}
    (hk : Resolved k dst actual) (rule : RuleView) :
    Settles (rulePorts lib k rule)
      (rule.ports = [] ∨ ∃ e ∈ rule.ports, portMatches lib dst actual k.proto e) := by
  by_cases h : rule.ports = []
  · simpa [rulePorts, h] using settles_yes trivial
  · simp only [rulePorts, List.length_pos_iff.mpr h, if_true, h, false_or, rulePortsMatch, hk.named]
    apply (rulePortsLoop_settles hl dst hk.port k.proto k.peer.external rule.ports
      (settles_no id)).congr
    simp

def RulesRight (p : Prop) : Except Explanation RuleWalk → Prop
  | .error e => e.effect = .admits ∧ p
  | .ok w => Pending w.overall p

theorem rulesLoop_right (hl : Lawful lib) {k : Connection} {dst : Pod} {actual : ℤ}
    (hk : Resolved k dst actual) (rules : List RuleView) (i : ℕ) {w : RuleWalk} {p : Prop}
    (hw : Pending w.overall p) :
    RulesRight (p ∨ ∃ rule ∈ rules, ruleAdmits lib c k.peer k.policyNs dst actual k.proto rule)
      (rulesLoop lib k i rules w) := by
  induction rules generalizing i w p with
  | nil => simpa [rulesLoop, RulesRight] using hw
  | cons rule rules ih =>
    have hports := rulePorts_settles hl hk rule
    rw [List.exists_mem_cons_iff, ← or_assoc, rulesLoop]
    cases hp : rulePorts lib k rule with
    | no =>
      have hnot : ¬ruleAdmits lib c k.peer k.policyNs dst actual k.proto rule :=
        fun h => hports.no hp h.1
      exact ih _ (hw.congr (by simp [hnot]))
    | unknown => exact ih _ (hw.fold (pending_unknown _))
    | yes =>
      have hyes := hports.yes hp
      by_cases hpeers : rule.peers = []
      · simp only [hpeers, List.length_nil, if_true]
        exact ⟨rfl,.inl (.inr ⟨hyes,.inl hpeers⟩)⟩
      · obtain ⟨pod,hpod⟩ := hk.pod
        have hloop := peersLoop_right c hl k.peer pod hpod k.policyNs k.dir rule.peers
          pending_no w.reasons
        have hrule : ruleAdmits lib c k.peer k.policyNs dst actual k.proto rule ↔
            False ∨ ∃ entry ∈ rule.peers, peerMatches lib c k.peer k.policyNs entry := by
          simp only [ruleAdmits, hyes, hpeers, true_and, false_or]
        simp only [List.length_eq_zero_iff, hpeers, if_false]
        cases hres : peersLoop lib k.peer k.policyNs k.dir rule.peers .no w.reasons with
        | error desc =>
          rw [hres] at hloop
          exact ⟨rfl,.inl (.inr (hrule.mpr hloop))⟩
        | ok r =>
          rw [hres] at hloop
          exact ih _ (hw.fold (hloop.congr hrule.symm))

theorem explainRules_settles (hl : Lawful lib) {k : Connection} {dst : Pod} {actual : ℤ}
    (hk : Resolved k dst actual) (rules : List RuleView) :
    Settles (effectTri (explainRules lib k rules).effect)
      (∃ rule ∈ rules, ruleAdmits lib c k.peer k.policyNs dst actual k.proto rule) := by
  by_cases h : rules = []
  · simpa [explainRules, h, effectTri] using settles_no (fun h : False => h)
  · have hloop := rulesLoop_right c hl hk rules 1 (w := {}) pending_no
    rw [false_or] at hloop
    simp only [explainRules, List.length_eq_zero_iff, h, if_false]
    cases hres : rulesLoop lib k 1 rules {} with
    | error e =>
      rw [hres] at hloop
      simp only [hloop.1, effectTri]
      exact settles_yes hloop.2
    | ok w =>
      rw [hres] at hloop
      by_cases hu : w.overall = .unknown
      · simpa [hu, effectTri] using settles_unknown _
      · have hno : w.overall = .no := by
          have := hloop.ne_yes
          cases ho : w.overall <;> simp_all
        have hnone := hloop.settles.no hno
        by_cases hs : w.sawPortMatch = true <;> simpa [hno, hs, effectTri] using settles_no hnone

end RuleWalk

section Policy

def Traffic.direction : Traffic → Direction
  | .ingress => .ingress
  | .egress => .egress

def Traffic.wanted : Traffic → PolicyTypes → Bool
  | .ingress => PolicyTypes.ingress
  | .egress => PolicyTypes.egress

theorem wanted_iff (t : Traffic) (np : NetworkPolicy) :
    t.wanted (effectivePolicyTypes np) = true ↔ isolatesTraffic np t := by
  cases t with
  | ingress => exact effectivePolicyTypes_ingress np
  | egress => exact effectivePolicyTypes_egress np

variable (c : Completion)

/-- A policy the code reads as selecting or not selecting a pod does so under every completion. -/
theorem selects_iff {np : NetworkPolicy} {pod : Pod} {r : Bool}
    (h : selects lib (some np) (some pod) = .ok r) :
    r = true ↔ np.ns = pod.ns ∧ selectorHolds lib c np.podSelector pod.labels := by
  simp only [selects, ne_eq, ite_not] at h
  by_cases hns : np.ns = pod.ns
  · rw [if_pos hns] at h
    rw [selectorHolds]
    cases hsel : lib.asSelector np.podSelector with
    | error err => simp [hsel] at h
    | ok m =>
      rw [hsel] at h
      obtain rfl := Except.ok.inj h
      simp [hns]
  · rw [if_neg hns] at h
    obtain rfl := Except.ok.inj h
    simp [hns]

theorem explainApplied_settles (hl : Lawful lib) (np : NetworkPolicy) (t : Traffic)
    (selected : Pod) (peer : Peer) (dst : Pod) {port actual : ℤ} (proto : String)
    (hpod : ∃ pod, peer.pod = some pod)
    (hdst : (if t = .egress then peer.pod else some selected) = some dst)
    (hport : Known port actual) :
    Settles (effectTri (explainApplied lib np t.direction selected peer port proto).effect)
      (policyAdmits lib c t peer dst actual proto np) := by
  by_cases hh : selected.hostNetwork = true
  · simpa [explainApplied, hh, effectTri] using settles_unknown _
  · simp only [explainApplied, hh, Bool.false_eq_true, if_false]
    cases hf : peer.pod.filter (·.hostNetwork) with
    | some pod => exact settles_unknown _
    | none =>
      by_cases hhost : peer.host = true
      · simpa [hhost, effectTri] using settles_unknown _
      · simp only [hhost, Bool.false_eq_true, if_false, policyAdmits]
        cases t with
        | ingress => exact explainRules_settles c hl ⟨hpod,hdst,hport⟩ np.ingress
        | egress => exact explainRules_settles c hl ⟨hpod,hdst,hport⟩ np.egress

theorem explain_settles (hl : Lawful lib) {np : NetworkPolicy} {t : Traffic} {selected : Pod}
    (hsel : selects lib (some np) (some selected) = .ok true)
    (hwant : t.wanted (effectivePolicyTypes np) = true) (peer : Peer) (dst : Pod)
    {port actual : ℤ} (proto : String) (hpod : ∃ pod, peer.pod = some pod)
    (hdst : (if t = .egress then peer.pod else some selected) = some dst)
    (hport : Known port actual) :
    Settles
      (effectTri (explain lib (some np) t.direction (some selected) peer port proto).effect)
      (policyAdmits lib c t peer dst actual proto np) := by
  have happ := explainApplied_settles c hl np t selected peer dst proto hpod hdst hport
  rw [explain]
  simp only [hsel]
  cases t with
  | ingress =>
    simp only [Traffic.wanted] at hwant
    simpa [Traffic.direction, hwant] using happ
  | egress =>
    simp only [Traffic.wanted] at hwant
    simpa [Traffic.direction, hwant] using happ

end Policy

end Radar.Netpol
