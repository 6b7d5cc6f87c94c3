import Radar.Netpol.PolicySound

/-!
# A verdict is sound

An allowed connection has an admitted path under every completion, and a
denied one has none. The walk over the backends settles, for the backends
walked so far, whether one has an admitted path, and whether one is admitted
by either direction alone.
-/

set_option autoImplicit false

namespace Radar.Netpol

open Tri

variable {IP CIDR : Type} {lib : Lib IP CIDR}

theorem selectingPolicies_cons {pod : Pod} {wants : PolicyTypes → Bool} {np : Option NetworkPolicy}
    {policies : List (Option NetworkPolicy)} {out : List NetworkPolicy}
    (h : selectingPolicies lib pod wants (np::policies) = some out) :
    ∃ r rest, selects lib np (some pod) = .ok r ∧
      selectingPolicies lib pod wants policies = some rest ∧
      out = (np.toList.filter fun np => r && wants (effectivePolicyTypes np))++rest := by
  rw [selectingPolicies] at h
  cases hs : selects lib np (some pod) with
  | error err => simp [hs] at h
  | ok r =>
    rw [hs] at h
    cases hr : selectingPolicies lib pod wants policies with
    | none => simp [hr] at h
    | some rest =>
      refine ⟨r,rest,rfl,rfl,?_⟩
      cases np with
      | none => simpa [hr] using h.symm
      | some np =>
        by_cases hw : r = true ∧ wants (effectivePolicyTypes np) = true
        · simpa [hr, hw] using h.symm
        · have hw' : (r && wants (effectivePolicyTypes np)) = false := by simpa using hw
          simpa [hr, hw, hw'] using h.symm

theorem selectingPolicies_known {pod : Pod} {wants : PolicyTypes → Bool}
    {policies : List (Option NetworkPolicy)} {out : List NetworkPolicy}
    (h : selectingPolicies lib pod wants policies = some out) :
    ∀ np ∈ policies, ∃ r, selects lib np (some pod) = .ok r := by
  induction policies generalizing out with
  | nil => simp
  | cons np policies ih =>
    obtain ⟨r,rest,hr,hrest,-⟩ := selectingPolicies_cons h
    exact List.forall_mem_cons.mpr ⟨⟨r,hr⟩,ih hrest⟩

theorem mem_selectingPolicies {pod : Pod} {wants : PolicyTypes → Bool}
    {policies : List (Option NetworkPolicy)} {out : List NetworkPolicy}
    (h : selectingPolicies lib pod wants policies = some out) (np : NetworkPolicy) :
    np ∈ out ↔ some np ∈ policies ∧ selects lib (some np) (some pod) = .ok true ∧
      wants (effectivePolicyTypes np) = true := by
  induction policies generalizing out with
  | nil =>
    obtain rfl : [] = out := by simpa [selectingPolicies] using h
    simp
  | cons first policies ih =>
    obtain ⟨r,rest,hr,hrest,rfl⟩ := selectingPolicies_cons h
    rw [List.mem_append, ih hrest, List.mem_cons, or_and_right]
    apply or_congr_left
    rw [List.mem_filter, Option.mem_toList, Bool.and_eq_true]
    constructor
    · intro hmem
      have hfirst : first = some np := hmem.1
      subst hfirst
      exact ⟨rfl,by rw [hr, hmem.2.1],hmem.2.2⟩
    · intro hmem
      have hfirst : some np = first := hmem.1
      subst hfirst
      rw [hr] at hmem
      exact ⟨rfl,Except.ok.inj hmem.2.1,hmem.2.2⟩

section Verdict

variable (c : Completion)

/-- When every selector could be read, the policies found are the ones that isolate the pod. -/
theorem selectingPolicies_isolates {pod : Pod} {t : Traffic}
    {policies : List (Option NetworkPolicy)} {out : List NetworkPolicy}
    (h : selectingPolicies lib pod t.wanted policies = some out) (np : NetworkPolicy) :
    np ∈ out ↔ some np ∈ policies ∧ isolates lib c t np pod := by
  rw [mem_selectingPolicies h, wanted_iff, isolates]
  apply and_congr_right
  intro hmem
  obtain ⟨r,hr⟩ := selectingPolicies_known h (some np) hmem
  rw [← and_assoc, ← selects_iff c hr, hr]
  simp

theorem directionTri_settles (hl : Lawful lib) {policies : List (Option NetworkPolicy)}
    {selecting : List NetworkPolicy} {t : Traffic} {selected : Pod}
    (h : selectingPolicies lib selected t.wanted policies = some selecting)
    (peer : Peer) (b : Backend) (dst : Pod) (hpod : ∃ pod, peer.pod = some pod)
    (hdst : (if t = .egress then peer.pod else some selected) = some dst) :
    Settles (directionTri lib t.direction selecting (some selected) peer b)
      (trafficAdmitted lib c t policies selected peer dst (actualPort c b) b.protocol) := by
  have hiso := selectingPolicies_isolates c h
  by_cases hempty : selecting = []
  · have hnone : ¬∃ np, some np ∈ policies ∧ isolates lib c t np selected := by
      simp [← hiso, hempty]
    simp only [directionTri, hempty, List.length_nil, if_true]
    exact settles_yes (fun hex => absurd hex hnone)
  · have hport : Known b.port (actualPort c b) := by
      intro hpos
      rw [actualPort, if_neg (by omega)]
    obtain ⟨np,hnp⟩ := List.exists_mem_of_ne_nil selecting hempty
    have hex : ∃ np, some np ∈ policies ∧ isolates lib c t np selected := ⟨np,(hiso np).mp hnp⟩
    simp only [directionTri, List.length_eq_zero_iff, hempty, if_false]
    apply (settles_foldl (P := policyAdmits lib c t peer dst (actualPort c b) b.protocol)
      selecting (settles_no id) _).congr
    · simp only [false_or, trafficAdmitted, hex, true_implies, hiso, and_assoc]
    · intro np hmem
      have hsel := (mem_selectingPolicies h np).mp hmem
      exact explain_settles c hl hsel.2.1 hsel.2.2 peer dst b.protocol hpod hdst hport

end Verdict

theorem exists_mem_concat {α : Type} (P : α → Prop) (done : List α) (a : α) :
    (∃ x ∈ done++[a], P x) ↔ (∃ x ∈ done, P x) ∨ P a := by
  simp only [List.mem_append, List.mem_singleton, or_and_right, exists_or, exists_eq_left]

section Backends

variable (lib) (c : Completion) (policies : List (Option NetworkPolicy)) (src : Peer) (srcPod : Pod)

/-- What the walk knows after the backends of `done`. A backend that is the source itself counts
as admitted in either direction. -/
structure Judged (done : List (Backend × Pod)) (w : BackendWalk) : Prop where
  overall : Settles w.overall (∃ b ∈ done, pathAdmitted lib c policies src srcPod b.1 b.2)
  egressAll : Settles w.egressAll
    (∃ b ∈ done, samePod srcPod b.2 = true ∨ egressAdmitted lib c policies srcPod b.1 b.2)
  ingressAll : Settles w.ingressAll
    (∃ b ∈ done, samePod srcPod b.2 = true ∨ ingressAdmitted lib c policies src b.1 b.2)
  ingressPolicies : ∀ np, np ∈ w.ingressPolicies ↔
    ∃ b ∈ done, samePod srcPod b.2 ≠ true ∧ some np ∈ policies ∧ isolates lib c .ingress np b.2

variable {lib c policies src srcPod}

theorem judged_nil : Judged lib c policies src srcPod [] {} where
  overall := settles_no (by simp)
  egressAll := settles_no (by simp)
  ingressAll := settles_no (by simp)
  ingressPolicies := by simp

theorem Judged.same {done : List (Backend × Pod)} {w : BackendWalk}
    (hw : Judged lib c policies src srcPod done w) (b : Backend × Pod)
    (hb : samePod srcPod b.2 = true) : Judged lib c policies src srcPod (done++[b])
      { w with overall := .yes, egressAll := .yes, ingressAll := .yes } where
  overall := settles_yes (by rw [exists_mem_concat]; exact .inr (.inl hb))
  egressAll := settles_yes (by rw [exists_mem_concat]; exact .inr (.inl hb))
  ingressAll := settles_yes (by rw [exists_mem_concat]; exact .inr (.inl hb))
  ingressPolicies np := by rw [exists_mem_concat, hw.ingressPolicies]; simp [hb]

theorem Judged.other (hl : Lawful lib) (hsrc : src.pod = some srcPod)
    {egressPolicies selecting : List NetworkPolicy} {done : List (Backend × Pod)} {w : BackendWalk}
    (hw : Judged lib c policies src srcPod done w)
    (hegress : selectingPolicies lib srcPod (·.egress) policies = some egressPolicies)
    (b : Backend) (bPod : Pod) (hb : samePod srcPod bPod ≠ true) (hpod : b.pod = some bPod)
    (hsel : selectingPolicies lib bPod (·.ingress) policies = some selecting) :
    Judged lib c policies src srcPod (done++[(b, bPod)])
      ⟨w.overall.fold ((egressAdmits lib egressPolicies src b).both
          (ingressAdmits lib selecting src b)),
        w.egressAll.fold (egressAdmits lib egressPolicies src b),
        w.ingressAll.fold (ingressAdmits lib selecting src b),w.ingressPolicies++selecting⟩ := by
  have he : Settles (egressAdmits lib egressPolicies src b)
      (egressAdmitted lib c policies srcPod b bPod) := by
    rw [egressAdmits, hsrc]
    exact directionTri_settles (t := .egress) c hl hegress b.toPeer b bPod ⟨bPod,hpod⟩ (by simpa)
  have hi : Settles (ingressAdmits lib selecting src b)
      (ingressAdmitted lib c policies src b bPod) := by
    rw [ingressAdmits, hpod]
    exact directionTri_settles (t := .ingress) c hl hsel src b bPod ⟨srcPod,hsrc⟩ (by simp)
  constructor
  · apply (hw.overall.fold (he.both hi)).congr
    simp [pathAdmitted, hb]
  · apply (hw.egressAll.fold he).congr
    simp [hb]
  · apply (hw.ingressAll.fold hi).congr
    simp [hb]
  · intro np
    rw [List.mem_append, hw.ingressPolicies, exists_mem_concat]
    apply or_congr_right
    rw [selectingPolicies_isolates (t := .ingress) c hsel]
    simp [hb]

theorem backendsLoop_judged (hl : Lawful lib) (hsrc : src.pod = some srcPod)
    {egressPolicies : List NetworkPolicy}
    (hegress : selectingPolicies lib srcPod (·.egress) policies = some egressPolicies)
    (dst : List (Backend × Pod)) (hdst : ∀ b ∈ dst, b.1.pod = some b.2)
    {done : List (Backend × Pod)} {w w' : BackendWalk}
    (hw : Judged lib c policies src srcPod done w)
    (h : backendsLoop lib policies egressPolicies src srcPod dst w = some w') :
    Judged lib c policies src srcPod (done++dst) w' := by
  induction dst generalizing done w with
  | nil =>
    obtain rfl : w = w' := by simpa [backendsLoop] using h
    simpa using hw
  | cons b dst ih =>
    have hpod := hdst b List.mem_cons_self
    have hrest : ∀ x ∈ dst, x.1.pod = some x.2 := fun x hx => hdst x (List.mem_cons_of_mem b hx)
    rw [show done++b::dst = (done++[b])++dst by simp]
    by_cases hb : samePod srcPod b.2 = true
    · rw [backendsLoop, if_pos hb] at h
      exact ih hrest (hw.same b hb) h
    · rw [backendsLoop, if_neg hb] at h
      obtain ⟨selecting,hsel,h⟩ := Option.bind_eq_some_iff.mp h
      exact ih hrest (hw.other hl hsrc hegress b.1 b.2 hb hpod hsel) h

end Backends

theorem backendPods_spec {dst : List Backend} {pods : List (Backend × Pod)}
    (h : backendPods dst = some pods) :
    pods.map Prod.fst = dst ∧ ∀ b ∈ pods, b.1.pod = some b.2 := by
  induction dst generalizing pods with
  | nil =>
    obtain rfl : [] = pods := by simpa [backendPods] using h
    simp
  | cons b dst ih =>
    rw [backendPods] at h
    obtain ⟨pod,hpod,h⟩ := Option.bind_eq_some_iff.mp h
    by_cases hh : pod.hostNetwork = true
    · simp [hh] at h
    · rw [if_neg hh] at h
      obtain ⟨rest,hrest,h⟩ := Option.bind_eq_some_iff.mp h
      obtain rfl := Option.some.inj h
      have ⟨hmap,hall⟩ := ih hrest
      exact ⟨by simp [hmap],List.forall_mem_cons.mpr ⟨hpod,hall⟩⟩

theorem mem_policyNames {l : List NetworkPolicy} {n : String} :
    n ∈ policyNames l ↔ ∃ np ∈ l, policyName np = n := by
  simp [policyNames, Names.mem_distinctFrom]

theorem policyNames_sorted (l : List NetworkPolicy) : (policyNames l).Pairwise (· < ·) :=
  Names.sorted_strict (Names.distinctFrom_nodup _ _)

section Denial

variable (lib) (c : Completion) (policies : List (Option NetworkPolicy))

/-- The names of the policies that isolate the egress of the source. -/
def egressIsolating (srcPod : Pod) : Set String :=
  {n | ∃ np, some np ∈ policies ∧ isolates lib c .egress np srcPod ∧ policyName np = n}

/-- The names of the policies that isolate the ingress of a backend. -/
def ingressIsolating (dst : List Backend) : Set String :=
  {n | ∃ np, some np ∈ policies ∧
    (∃ b ∈ dst, ∃ pod, b.pod = some pod ∧ isolates lib c .ingress np pod) ∧ policyName np = n}

/-- What the direction of a denial says: which end alone cuts off every backend, and whose
policies are named. -/
def DirectionRight (src : Peer) (srcPod : Pod) (dst : List Backend) (v : Verdict) : Prop :=
  match v.direction with
  | .egress =>
    (∀ b ∈ dst, ∀ pod, b.pod = some pod → ¬egressAdmitted lib c policies srcPod b pod) ∧
      {n | n ∈ v.policies} = egressIsolating lib c policies srcPod
  | .ingress =>
    (∀ b ∈ dst, ∀ pod, b.pod = some pod → ¬ingressAdmitted lib c policies src b pod) ∧
      {n | n ∈ v.policies} = ingressIsolating lib c policies dst
  | .both => {n | n ∈ v.policies} =
      egressIsolating lib c policies srcPod ∪ ingressIsolating lib c policies dst
  | .unset => False

structure DenialRight (src : Peer) (srcPod : Pod) (dst : List Backend) (v : Verdict) : Prop where
  noPath : ∀ b ∈ dst, ∀ pod, b.pod = some pod → ¬pathAdmitted lib c policies src srcPod b pod
  sorted : v.policies.Pairwise (· < ·)
  direction : DirectionRight lib c policies src srcPod dst v

variable {lib c policies}

theorem denial_right {src : Peer} {srcPod : Pod} {dst : List Backend} {pods : List (Backend × Pod)}
    {egressPolicies : List NetworkPolicy} {w : BackendWalk} (hpods : backendPods dst = some pods)
    (hegress : selectingPolicies lib srcPod (·.egress) policies = some egressPolicies)
    (hw : Judged lib c policies src srcPod pods w) (hno : w.overall = .no) :
    DenialRight lib c policies src srcPod dst (denial egressPolicies w) := by
  have ⟨hmap,hall⟩ := backendPods_spec hpods
  -- a backend and its pod are one of the pairs the walk went over
  have hpair : ∀ b ∈ dst, ∀ pod, b.pod = some pod → (b, pod) ∈ pods := by
    intro b hb pod hpod
    rw [← hmap] at hb
    obtain ⟨x,hx,rfl⟩ := List.mem_map.mp hb
    obtain rfl := Option.some.inj ((hall x hx).symm.trans hpod)
    exact hx
  have hnone := hw.overall.no hno
  have hother : ∀ b ∈ pods, samePod srcPod b.2 ≠ true :=
    fun b hb hsame => hnone ⟨b,hb,.inl hsame⟩
  have hE : ∀ n, (∃ np ∈ egressPolicies, policyName np = n) ↔
      n ∈ egressIsolating lib c policies srcPod := by
    intro n
    have hiso := selectingPolicies_isolates (t := .egress) c hegress
    simp only [hiso, egressIsolating, Set.mem_ofPred_eq, and_assoc]
  have hI : ∀ n, (∃ np ∈ w.ingressPolicies, policyName np = n) ↔
      n ∈ ingressIsolating lib c policies dst := by
    intro n
    apply exists_congr
    intro np
    rw [hw.ingressPolicies, ← and_assoc]
    apply and_congr_left'
    constructor
    · intro h
      obtain ⟨b,hb,-,hmem,hiso⟩ := h
      exact ⟨hmem,b.1,hmap ▸ List.mem_map_of_mem hb,b.2,hall b hb,hiso⟩
    · intro h
      obtain ⟨hmem,b,hb,pod,hpod,hiso⟩ := h
      have hx := hpair b hb pod hpod
      exact ⟨(b, pod),hx,hother _ hx,hmem,hiso⟩
  constructor
  · exact fun b hb pod hpod hpath => hnone ⟨(b, pod),hpair b hb pod hpod,hpath⟩
  · by_cases he : w.egressAll = .no
    · simpa [denial, he] using policyNames_sorted egressPolicies
    · by_cases hi : w.ingressAll = .no
      · simpa [denial, he, hi] using policyNames_sorted w.ingressPolicies
      · simpa [denial, he, hi] using policyNames_sorted (egressPolicies++w.ingressPolicies)
  · by_cases he : w.egressAll = .no
    · simp only [denial, he, if_true, DirectionRight]
      constructor
      · exact fun b hb pod hpod hadm =>
          hw.egressAll.no he ⟨(b, pod),hpair b hb pod hpod,.inr hadm⟩
      · ext n
        rw [Set.mem_ofPred_eq, mem_policyNames, hE]
    · by_cases hi : w.ingressAll = .no
      · simp only [denial, he, hi, if_false, if_true, DirectionRight]
        constructor
        · exact fun b hb pod hpod hadm =>
            hw.ingressAll.no hi ⟨(b, pod),hpair b hb pod hpod,.inr hadm⟩
        · ext n
          rw [Set.mem_ofPred_eq, mem_policyNames, hI]
      · simp only [denial, he, hi, if_false, DirectionRight]
        ext n
        rw [Set.mem_ofPred_eq, mem_policyNames, Set.mem_union, ← hE, ← hI]
        simp only [List.mem_append, or_and_right, exists_or]

end Denial

/-- A verdict comes from a walk over every backend. -/
theorem evaluated_walk {src : Peer} {srcPod : Pod} (hsrc : src.pod = some srcPod)
    {dst : List Backend} {policies : List (Option NetworkPolicy)} {v : Verdict}
    (h : evaluated lib src dst policies = some v) :
    ∃ pods egressPolicies w, backendPods dst = some pods ∧
      selectingPolicies lib srcPod (·.egress) policies = some egressPolicies ∧
      backendsLoop lib policies egressPolicies src srcPod pods {} = some w ∧
      (w.overall = .yes ∧ v = ⟨.allowed,.unset,[]⟩ ∨
        w.overall = .no ∧ v = denial egressPolicies w) := by
  simp only [evaluated, hsrc, Option.bind_eq_bind, Option.bind_some] at h
  by_cases hbad : srcPod.hostNetwork = true ∨ dst.length = 0
  · rw [if_pos hbad] at h
    nomatch h
  · rw [if_neg hbad] at h
    obtain ⟨pods,hpods,h⟩ := Option.bind_eq_some_iff.mp h
    obtain ⟨egressPolicies,hegress,h⟩ := Option.bind_eq_some_iff.mp h
    obtain ⟨w,hw,h⟩ := Option.bind_eq_some_iff.mp h
    refine ⟨pods,egressPolicies,w,hpods,hegress,hw,?_⟩
    cases ho : w.overall with
    | yes => exact .inl ⟨rfl,by simpa [ho] using h.symm⟩
    | unknown => simp [ho] at h
    | no => exact .inr ⟨rfl,by simpa [ho] using h.symm⟩

/-- Whatever the static model cannot see, an allowed connection has an admitted path, and a denied
one has none and names the end and the policies that cut it off. -/
theorem evaluate_sound (hl : Lawful lib) (c : Completion) (src : Peer) (srcPod : Pod)
    (hsrc : src.pod = some srcPod) (dst : List Backend) (policies : List (Option NetworkPolicy)) :
    ((evaluate lib src dst policies).kind = .allowed →
      ∃ b ∈ dst, ∃ pod, b.pod = some pod ∧ pathAdmitted lib c policies src srcPod b pod) ∧
    ((evaluate lib src dst policies).kind = .denied →
      DenialRight lib c policies src srcPod dst (evaluate lib src dst policies)) := by
  rw [evaluate]
  cases h : evaluated lib src dst policies with
  | none => simp
  | some v =>
    obtain ⟨pods,egressPolicies,w,hpods,hegress,hloop,hv⟩ := evaluated_walk hsrc h
    have ⟨hmap,hall⟩ := backendPods_spec hpods
    have hw := backendsLoop_judged hl hsrc hegress pods hall (judged_nil (c := c)) hloop
    rw [List.nil_append] at hw
    rw [Option.getD_some]
    cases hv with
    | inl hyes =>
      obtain ⟨b,hb,hpath⟩ := hw.overall.yes hyes.1
      have hdst : b.1 ∈ dst := hmap ▸ List.mem_map_of_mem hb
      rw [hyes.2]
      exact ⟨fun _ => ⟨b.1,hdst,b.2,hall b hb,hpath⟩,fun hk => nomatch hk⟩
    | inr hno =>
      rw [hno.2]
      constructor
      · intro hk
        simp only [denial] at hk
        split_ifs at hk
      · exact fun _ => denial_right hpods hegress hw hno.1

/-- Exact labels only, and protocols that are in upper case already. -/
def plainLib : Lib Unit Unit where
  asSelector sel :=
    if sel.matchExpressions.isEmpty then .ok fun l => sel.matchLabels.all fun e => l e.1 == some e.2
    else .error "unsupported expression"
  toUpper p := p
  parseIP _ := none
  parseCIDR _ := none
  ipOf _ := ()
  to4 _ := true
  contains _ _ := false

theorem plainLib_lawful : Lawful plainLib where
  empty_matches_all sel h := by
    simp only [selectorIsEmpty, Bool.and_eq_true, List.isEmpty_iff] at h
    exact ⟨fun l => sel.matchLabels.all fun e => l e.1 == some e.2,by simp [plainLib, h.2],
      by simp [h.1]⟩
  upper_upper _ := rfl
  upper_tcp := rfl
  upper_ne_empty _ h := h

def webPod : Pod := { ns := "shop", name := "web" }

def dbBackend : Backend :=
  { pod := some { ns := "data", name := "db" }, port := 5432, protocol := "TCP" }

/-- Only pods of the namespace itself may come in. -/
def dbPolicy : NetworkPolicy :=
  { ns := "data", name := "db"
    ingress := [{ peers := [{ podSelector := some { keys_sorted := LabelSelector.empty_sorted } }] }] }

/-- Everything a static reader cannot see matches. -/
def openCompletion : Completion where
  nsLabels _ _ := some ""
  blockMatches _ _ := True
  selectorMatches _ _ := True
  emptyEntryMatches _ _ := True
  portOf b := b.port

theorem evaluate_sound_db :
    evaluate plainLib { pod := some webPod } [dbBackend] [some dbPolicy] =
      ⟨.denied,.ingress,["data/db"]⟩ ∧
    DenialRight plainLib openCompletion [some dbPolicy] { pod := some webPod } webPod [dbBackend]
      (evaluate plainLib { pod := some webPod } [dbBackend] [some dbPolicy]) :=
  ⟨by decide,(evaluate_sound plainLib_lawful openCompletion { pod := some webPod } webPod rfl
    [dbBackend] [some dbPolicy]).2 (by decide)⟩

end Radar.Netpol
