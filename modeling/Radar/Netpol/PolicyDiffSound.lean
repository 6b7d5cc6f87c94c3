import Radar.Netpol.PolicyLines

/-!
# Unreported edits

Two versions of a policy that show the same mean the same, but for the port
named `all`.
-/

set_option autoImplicit false

namespace Radar.Netpol

open Radar.Names Radar.Join

section Rules

variable {IP CIDR : Type} {lib : Lib IP CIDR} {format : LabelSelector → String}
  {inRange : String → Peer → Prop} {c : Completion}

/-- A rule that the API server accepts. -/
def AcceptedRule (lib : Lib IP CIDR) (rule : RuleView) : Prop :=
  (∀ p ∈ rule.peers, AcceptedPeer lib p) ∧ ∀ e ∈ rule.ports, AcceptedPort e

theorem ruleRef_inj (hf : FormatsSelectors lib format) {direction : String} {r r' : RuleView}
    (h : AcceptedRule lib r) (h' : AcceptedRule lib r')
    (hdisplay : ruleRef format direction r = ruleRef format direction r') :
    peersDisplay format r.peers = peersDisplay format r'.peers ∧
      policyPortsDisplay r.ports = policyPortsDisplay r'.ports := by
  have hlists := congrArg String.toList hdisplay
  simp only [ruleRef, String.toList_append, List.append_assoc, List.append_cancel_left_eq] at hlists
  rcases peersDisplay_bracket hf h.1 with hp | ⟨text,hp,hfree⟩
  · rcases peersDisplay_bracket hf h'.1 with hp' | ⟨text',hp',hfree'⟩
    · rw [hp, hp', List.append_cancel_left_eq, List.append_cancel_left_eq] at hlists
      exact ⟨hp.trans hp'.symm,String.ext hlists⟩
    · rw [hp, hp'] at hlists
      simp at hlists
  · rcases peersDisplay_bracket hf h'.1 with hp' | ⟨text',hp',hfree'⟩
    · rw [hp, hp'] at hlists
      simp at hlists
    · rw [hp, hp'] at hlists
      simp only [String.toList_append, List.append_assoc, List.append_cancel_left_eq,
        show "]".toList = [']'] from rfl, List.singleton_append] at hlists
      obtain ⟨htext,hports⟩ := append_sep_inj hfree hfree' hlists
      rw [List.append_cancel_left_eq] at hports
      exact ⟨by rw [hp, hp', String.ext htext],String.ext hports⟩

theorem peersMatch_same (hl : Lawful lib) (hf : FormatsSelectors lib format)
    (hc : BlocksAreRanges c inRange) {r r' : RuleView} (h : AcceptedRule lib r)
    (h' : AcceptedRule lib r') (hdisplay : peersDisplay format r.peers = peersDisplay format r'.peers)
    (policyNs : String) (target : Peer) :
    peersMatch lib c policyNs r target ↔ peersMatch lib c policyNs r' target := by
  have hhalf : ∀ {r r' : RuleView}, AcceptedRule lib r → AcceptedRule lib r' →
      peersDisplay format r.peers = peersDisplay format r'.peers →
        peersMatch lib c policyNs r target → peersMatch lib c policyNs r' target := by
    intro r r' h h' hdisplay hmatch
    obtain ⟨hnil,halike⟩ := peers_alike hf h.1 h'.1 hdisplay
    rcases hmatch with hempty | ⟨p,hp,hmatch⟩
    · exact .inl (hnil.mp hempty)
    · obtain ⟨p',hp',hshow⟩ := halike p hp
      exact .inr ⟨p',hp',(peerDisplay_same hl hf hc (h.1 p hp) (h'.1 p' hp') hshow target
        policyNs).mp hmatch⟩
  exact ⟨hhalf h h' hdisplay,hhalf h' h hdisplay.symm⟩

/-- The traffic that a rule admits is admitted by one that shows the same, unless confused. -/
theorem ruleAdmits_of_display (hl : Lawful lib) (hf : FormatsSelectors lib format)
    (hc : BlocksAreRanges c inRange) {direction policyNs : String} {r r' : RuleView}
    (h : AcceptedRule lib r) (h' : AcceptedRule lib r')
    (hdisplay : ruleRef format direction r = ruleRef format direction r')
    (hconfused : ¬Confused r r') {target : Peer} {dst : Pod} {port : ℤ} {proto : String}
    (hadmits : ruleAdmits lib c target policyNs dst port proto r) :
    ruleAdmits lib c target policyNs dst port proto r' := by
  obtain ⟨hpeers,hports⟩ := ruleRef_inj hf h h' hdisplay
  refine ⟨?_,(peersMatch_same hl hf hc h h' hpeers policyNs target).mp hadmits.2⟩
  rcases hadmits.1 with hempty | ⟨e,he,hmatch⟩
  · left
    by_contra hne
    rw [hempty] at hports
    exact policyPortsDisplay_nonempty hne hports.symm
  · right
    obtain ⟨e',he',hshow⟩ := ports_alike h.2 h'.2 hports he
    obtain ⟨hproto,hport⟩ := policyPortDisplay_inj (h.2 e he) (h'.2 e' he') hshow
    have hsame := (sameProtocol_congr hl hproto proto).mp hmatch.1
    rcases portDisplay_covered lib (h.2 e he) (h'.2 e' he') hport with hopen | hopen | hcovered
    · -- an open port beside one named all: the other rule leaves the protocol open elsewhere
      have hleaves : leavesOpen r' (e.protocol.getD "TCP") := by
        by_contra hnone
        exact hconfused ⟨_,⟨e,he,rfl,hopen.1⟩,⟨e',he',hproto.symm,hopen.2⟩,hnone⟩
      obtain ⟨o,ho,hoproto,hoport⟩ := hleaves
      refine ⟨o,ho,(sameProtocol_congr hl hoproto.symm proto).mp hmatch.1,?_⟩
      rw [portCovered, hoport]
      trivial
    · refine ⟨e',he',hsame,?_⟩
      rw [portCovered, hopen.1]
      trivial
    · exact ⟨e',he',hsame,(hcovered dst port proto).mp hmatch.2⟩

end Rules

section Policies

variable {IP CIDR : Type} {lib : Lib IP CIDR} {format : LabelSelector → String}
  {inRange : String → Peer → Prop} {c : Completion} {np np' : NetworkPolicy}

def refsFor (format : LabelSelector → String) (np : NetworkPolicy) : Traffic → List String
  | .ingress => ingressRuleRefs format np.ingress
  | .egress => egressRuleRefs format np.egress

/-- Nothing is reported where all that is shown of the policies agrees. -/
theorem unreported (h : (diffNetworkPolicy format np np').1 = []) :
    podSelectorDisplay format np.podSelector = podSelectorDisplay format np'.podSelector ∧
      policyTypesDisplay np = policyTypesDisplay np' ∧
      ∀ t, refsFor format np t = refsFor format np' t := by
  simp only [diffNetworkPolicy, List.unzip_fst, List.map_append, List.append_eq_nil_iff] at h
  obtain ⟨⟨⟨hsel,htypes⟩,hingress⟩,hegress⟩ := h
  refine ⟨?_,?_,fun t => ?_⟩
  · by_contra hne
    simp [hne] at hsel
  · by_contra hne
    simp [hne] at htypes
  · cases t with
    | ingress =>
      by_contra hne
      rw [refsFor, refsFor] at hne
      simp [hne] at hingress
    | egress =>
      by_contra hne
      rw [refsFor, refsFor] at hne
      simp [hne] at hegress

theorem AcceptedPolicy.rule (h : AcceptedPolicy lib np) {t : Traffic} {r : RuleView}
    (hr : r ∈ rulesFor np t) : AcceptedRule lib r :=
  ⟨h.peers t r hr,h.ports t r hr⟩

theorem ingress_shown (np : NetworkPolicy) :
    "Ingress" ∈ policyTypesDisplay np ↔ isolatesTraffic np .ingress := by
  rw [isolatesTraffic, ← effectivePolicyTypes_ingress, policyTypesDisplay]
  simp

theorem egress_shown (np : NetworkPolicy) :
    "Egress" ∈ policyTypesDisplay np ↔ isolatesTraffic np .egress := by
  rw [isolatesTraffic, ← effectivePolicyTypes_egress, policyTypesDisplay]
  simp

theorem isolates_of_display (h : policyTypesDisplay np = policyTypesDisplay np') (t : Traffic) :
    isolatesTraffic np t ↔ isolatesTraffic np' t := by
  cases t with
  | ingress => rw [← ingress_shown, h, ingress_shown]
  | egress => rw [← egress_shown, h, egress_shown]

theorem shown_alike {t : Traffic} (h : refsFor format np t = refsFor format np' t) {r : RuleView}
    (hr : r ∈ rulesFor np t) :
    ∃ direction, ∃ r' ∈ rulesFor np' t,
      ruleRef format direction r = ruleRef format direction r' := by
  cases t with
  | ingress =>
    obtain ⟨r',hr',hshow⟩ := List.mem_map.mp
      (mem_of_sorted_eq h (List.mem_map_of_mem (f := ruleRef format "from ") hr))
    exact ⟨_,r',hr',hshow.symm⟩
  | egress =>
    obtain ⟨r',hr',hshow⟩ := List.mem_map.mp
      (mem_of_sorted_eq h (List.mem_map_of_mem (f := ruleRef format "to ") hr))
    exact ⟨_,r',hr',hshow.symm⟩

theorem admits_of_unreported (hl : Lawful lib) (hf : FormatsSelectors lib format)
    (hc : BlocksAreRanges c inRange) (h : AcceptedPolicy lib np) (h' : AcceptedPolicy lib np')
    (hns : np.ns = np'.ns) (htold : Told lib c np np') {t : Traffic}
    (hrefs : refsFor format np t = refsFor format np' t) {target : Peer} {dst : Pod} {port : ℤ}
    {proto : String} (hadmits : policyAdmits lib c t target dst port proto np) :
    policyAdmits lib c t target dst port proto np' := by
  obtain ⟨r,hr,hrule⟩ := hadmits
  obtain ⟨direction,r',hr',hshow⟩ := shown_alike hrefs hr
  have hpeers := (ruleRef_inj hf (h.rule hr) (h'.rule hr') hshow).1
  have hsame := peersMatch_same hl hf hc (h.rule hr) (h'.rule hr') hpeers
  have hconfused := (htold t r hr r' hr' fun target => by rw [← hns]; exact hsame np.ns target).1
  rw [hns] at hrule
  exact ⟨r',hr',ruleAdmits_of_display hl hf hc (h.rule hr) (h'.rule hr') hshow hconfused hrule⟩

theorem sameMeaning_of_unreported (hl : Lawful lib) (hf : FormatsSelectors lib format)
    (hc : BlocksAreRanges c inRange) (h : AcceptedPolicy lib np) (h' : AcceptedPolicy lib np')
    (hns : np.ns = np'.ns) (htold : Told lib c np np')
    (hdiff : (diffNetworkPolicy format np np').1 = []) : SameMeaning lib c np np' := by
  obtain ⟨hsel,htypes,hrefs⟩ := unreported hdiff
  have htold' : Told lib c np' np := fun t r hr r' hr' hpeers =>
    (htold t r' hr' r hr fun target => (hpeers target).symm).symm
  constructor
  · exact podSelector_same hl hf c h.podSelector h'.podSelector hsel
  · exact isolates_of_display htypes
  · intro t target dst port proto
    exact ⟨admits_of_unreported hl hf hc h h' hns htold (hrefs t),
      admits_of_unreported hl hf hc h' h hns.symm htold' (hrefs t).symm⟩

/-- A pod without container ports. -/
def barePod : Pod := { ns := "shop", name := "bare" }

theorem openOrAll_differ {e e' : NetworkPolicyPort} (h : OpenOrAll e e') :
    ¬∀ dst port proto, portMatches lib dst port proto e ↔ portMatches lib dst port proto e' := by
  intro hsame
  have hopen : portMatches lib barePod 1 (e.protocol.getD "") e := by
    refine ⟨rfl,?_⟩
    rw [portCovered, h.1]
    trivial
  have hall := ((hsame barePod 1 (e.protocol.getD "")).mp hopen).2
  rw [portCovered, h.2] at hall
  cases hall

/-- Entries that show the same mean the same, but for an open port and one named `all`. -/
theorem policyPortDisplay_same_iff (hl : Lawful lib) {e e' : NetworkPolicyPort}
    (h : AcceptedPort e) (h' : AcceptedPort e')
    (hdisplay : policyPortDisplay e = policyPortDisplay e') :
    (∀ dst port proto, portMatches lib dst port proto e ↔ portMatches lib dst port proto e') ↔
      ¬OpenOrAll e e' ∧ ¬OpenOrAll e' e := by
  constructor
  · intro hsame
    exact ⟨fun hopen => openOrAll_differ hopen hsame,
      fun hopen => openOrAll_differ hopen fun dst port proto => (hsame dst port proto).symm⟩
  · rintro ⟨hopen,hopen'⟩ dst port proto
    obtain ⟨hproto,hport⟩ := policyPortDisplay_inj h h' hdisplay
    rcases portDisplay_covered lib h h' hport with hbad | hbad | hcovered
    · exact absurd hbad hopen
    · exact absurd hbad hopen'
    · exact and_congr (sameProtocol_congr hl hproto proto) (hcovered dst port proto)

/-- An edit that is not reported changes nothing, unless it confuses a port named `all` with
an open one, which is what entries that show the same can differ in. -/
theorem unreported_same_meaning (hl : Lawful lib) (hf : FormatsSelectors lib format)
    (hc : BlocksAreRanges c inRange) (h : AcceptedPolicy lib np) (h' : AcceptedPolicy lib np')
    (hns : np.ns = np'.ns) :
    (Told lib c np np' → (diffNetworkPolicy format np np').1 = [] → SameMeaning lib c np np') ∧
      ∀ e e', AcceptedPort e → AcceptedPort e' → policyPortDisplay e = policyPortDisplay e' →
        ((∀ dst port proto, portMatches lib dst port proto e ↔ portMatches lib dst port proto e') ↔
          ¬OpenOrAll e e' ∧ ¬OpenOrAll e' e) :=
  ⟨sameMeaning_of_unreported hl hf hc h h' hns,
    fun _ _ he he' => policyPortDisplay_same_iff hl he he'⟩

section Examples

def web : LabelSelector := { matchLabels := [("app","web")] }

/-- Knows the empty selector and `app=web`. -/
def webLib : Lib Unit Unit where
  asSelector sel :=
    if selectorIsEmpty sel then .ok fun _ => true
    else if sel = web then .ok fun labels => labels "app" == some "web"
    else .error "unknown selector"
  toUpper := id
  parseIP _ := none
  parseCIDR _ := none
  ipOf _ := ()
  to4 _ := false
  contains _ _ := false

def webFormat (sel : LabelSelector) : String := if selectorIsEmpty sel then "<none>" else "app=web"

def noRanges : Completion where
  nsLabels _ := fun _ => none
  blockMatches _ _ := False
  selectorMatches _ _ := False
  emptyEntryMatches _ _ := False
  portOf _ := 0

theorem webLib_lawful : Lawful webLib where
  empty_matches_all sel h := ⟨fun _ => true,by simp [webLib, h],fun _ => rfl⟩
  upper_upper _ := rfl
  upper_tcp := rfl
  upper_ne_empty _ h := h

theorem webFormat_formats : FormatsSelectors webLib webFormat where
  same s t m n hm hn h labels := by
    simp only [webLib] at hm hn
    simp only [webFormat] at h
    cases hs : selectorIsEmpty s <;> cases ht : selectorIsEmpty t <;>
      simp only [hs, ht, if_true, Bool.false_eq_true, if_false] at hm hn h
    · split_ifs at hm hn
      rw [← Except.ok.inj hm, ← Except.ok.inj hn]
    · exact absurd h (by decide)
    · exact absurd h (by decide)
    · rw [← Except.ok.inj hm, ← Except.ok.inj hn]
  blank s m a b hm hs h := by
    have hblank : ' ' ∈ (webFormat s).toList := by simp [h]
    rw [webFormat, hs] at hblank
    exact absurd hblank (by decide)
  free s m hm := by
    rw [webFormat]
    cases selectorIsEmpty s <;> decide

/-- One ingress rule for pods labelled `app=web`. -/
def webPolicy (ports : List NetworkPolicyPort) : NetworkPolicy where
  ns := "shop"
  name := "web"
  podSelector := web
  ingress := [{ peers := [{ podSelector := some web }], ports := ports }]

theorem noRanges_ranges : BlocksAreRanges noRanges fun _ _ => False :=
  fun _ _ => ⟨fun h => h.elim,fun h => h.1⟩

theorem webPolicy_accepted {ports : List NetworkPolicyPort} (h : ∀ p ∈ ports, AcceptedPort p) :
    AcceptedPolicy webLib (webPolicy ports) := by
  have hweb : AcceptedSelector webLib web := ⟨_,rfl⟩
  constructor
  · exact hweb
  · intro t rule hrule peer hpeer
    cases t with
    | egress => nomatch hrule
    | ingress =>
      obtain rfl := List.mem_singleton.mp hrule
      obtain rfl := List.mem_singleton.mp hpeer
      constructor
      · rintro sel ⟨⟩
        exact hweb
      · exact fun _ h => nomatch h
      · exact fun _ h => nomatch h
      · exact .inr (.inl rfl)
  · intro t rule hrule p hp
    cases t with
    | egress => nomatch hrule
    | ingress =>
      obtain rfl := List.mem_singleton.mp hrule
      exact h p hp

/-- The protocol is written out where it was left to its default. -/
theorem unreported_same_meaning_tcp :
    (diffNetworkPolicy webFormat (webPolicy [{ port := some (.int 80) }])
        (webPolicy [{ protocol := some "TCP", port := some (.int 80) }])).1 = [] ∧
      SameMeaning webLib noRanges (webPolicy [{ port := some (.int 80) }])
        (webPolicy [{ protocol := some "TCP", port := some (.int 80) }]) := by
  have hdiff : (diffNetworkPolicy webFormat (webPolicy [{ port := some (.int 80) }])
      (webPolicy [{ protocol := some "TCP", port := some (.int 80) }])).1 = [] := by
    decide +kernel
  have hport : ∀ protocol, (∀ q, protocol = some q → q ∈ ["TCP","UDP","SCTP"]) →
      ∀ p ∈ [{ protocol := protocol, port := some (.int 80) : NetworkPolicyPort }],
        AcceptedPort p := by
    intro protocol hprotocol p hp
    obtain rfl := List.mem_singleton.mp hp
    refine ⟨hprotocol,?_,(fun _ h => nomatch h),(fun _ h => nomatch h)⟩
    rintro n ⟨⟩
    decide
  have hnamed : ∀ rule proto ports, rule ∈ rulesFor (webPolicy ports) .ingress →
      (∀ p ∈ ports, p.port = some (.int 80)) → ¬namesAll rule proto := by
    rintro rule proto ports hrule hports ⟨e,he,-,hall⟩
    obtain rfl := List.mem_singleton.mp hrule
    rw [hports e he] at hall
    nomatch hall
  have htold : Told webLib noRanges (webPolicy [{ port := some (.int 80) }])
      (webPolicy [{ protocol := some "TCP", port := some (.int 80) }]) := by
    intro t rule hrule rule' hrule' _
    cases t with
    | egress => nomatch hrule
    | ingress =>
      constructor
      · rintro ⟨proto,-,hall,-⟩
        exact hnamed rule' proto _ hrule' (by simp) hall
      · rintro ⟨proto,-,hall,-⟩
        exact hnamed rule proto _ hrule (by simp) hall
  exact ⟨hdiff,(unreported_same_meaning webLib_lawful webFormat_formats noRanges_ranges
    (webPolicy_accepted (hport none (fun _ h => nomatch h)))
    (webPolicy_accepted (hport (some "TCP") (by simp))) rfl).1 htold hdiff⟩

/-- Opening the port named `all` to every port is not reported. -/
theorem named_all_unreported :
    AcceptedPolicy webLib (webPolicy [{ port := some (.str "all") }]) ∧
      AcceptedPolicy webLib (webPolicy [{}]) ∧
      diffNetworkPolicy webFormat (webPolicy [{ port := some (.str "all") }]) (webPolicy [{}]) =
        ([],[]) ∧
      ¬SameMeaning webLib noRanges (webPolicy [{ port := some (.str "all") }])
        (webPolicy [{}]) := by
  refine ⟨webPolicy_accepted ?_,webPolicy_accepted ?_,by decide +kernel,?_⟩
  · intro p hp
    obtain rfl := List.mem_singleton.mp hp
    refine ⟨(fun _ h => nomatch h),(fun _ h => nomatch h),?_,(fun _ h => nomatch h)⟩
    rintro s ⟨⟩
    refine ⟨by decide,fun c hc => ?_,'a',by decide,by decide⟩
    have hlower : ("all".toList.all Char.isLower) = true := by decide
    exact .inl (List.all_eq_true.mp hlower c hc)
  · intro p hp
    obtain rfl := List.mem_singleton.mp hp
    exact ⟨(fun _ h => nomatch h),(fun _ h => nomatch h),(fun _ h => nomatch h),
      (fun _ h => nomatch h)⟩
  · intro hsame
    let source : Pod := { ns := "shop", name := "web", labels := fun _ => some "web" }
    have hopen : policyAdmits webLib noRanges .ingress { pod := some source } barePod 1 "TCP"
        (webPolicy [{}]) := by
      refine ⟨_,List.mem_singleton_self _,.inr ⟨_,List.mem_singleton_self _,rfl,trivial⟩,
        .inr ⟨_,List.mem_singleton_self _,?_⟩⟩
      refine ⟨source,rfl,rfl,?_⟩
      rintro sel ⟨⟩
      rfl
    obtain ⟨rule,hrule,hports,-⟩ := (hsame.admits _ _ _ _ _).mpr hopen
    obtain rfl := List.mem_singleton.mp hrule
    rcases hports with hempty | ⟨e,he,-,hcovered⟩
    · nomatch hempty
    · obtain rfl := List.mem_singleton.mp he
      nomatch hcovered

end Examples

end Policies

end Radar.Netpol
