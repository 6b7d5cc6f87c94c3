import Mathlib.Data.List.TakeWhile
import Radar.Base.Decimal
import Radar.Netpol.PolicyDiff

/-!
# What the lines of a policy tell

Ports and peers are read back from what is shown of them. What two entries that
show the same can differ in is one thing: a port named `all` and no port.
-/

set_option autoImplicit false

namespace Radar.Netpol

open Radar.Names Radar.Join Radar.Decimal

theorem mem_of_sorted_eq {l l' : List String} (h : sorted l = sorted l') {x : String} (hx : x ∈ l) :
    x ∈ l' := by
  rw [← mem_sorted, ← h, mem_sorted]
  exact hx

section Ports

variable {IP CIDR : Type} {lib : Lib IP CIDR} {e e' : NetworkPolicyPort}

def hasLetter (s : String) : Prop := ∃ c ∈ s.toList, c.isLower = true

theorem int_no_letter (n : ℤ) : ¬hasLetter (toString n) := by
  rintro ⟨c,hc,hlower⟩
  rcases int_text_char hc with hdigit | rfl
  · have hlow : c.isLower = (decide (97 ≤ c.val) && decide (c.val ≤ 122)) := rfl
    rw [hlow] at hlower
    simp only [Char.isDigit, Bool.and_eq_true, decide_eq_true_eq, ge_iff_le,
      UInt32.le_iff_toNat_le] at hlower hdigit
    have h9 : '9'.val.toNat < 'a'.val.toNat := by decide
    have h9' : '9'.val.toNat = (57 : UInt32).toNat := by decide
    have ha' : 'a'.val.toNat = (97 : UInt32).toNat := by decide
    omega
  · exact absurd hlower (by decide)

theorem minus_not_mem_int {n : ℤ} (h : 0 ≤ n) : '-' ∉ (toString n).toList := by
  obtain ⟨m,rfl⟩ := Int.eq_ofNat_of_zero_le h
  exact minus_not_mem m

theorem portDisplay_letter (h : AcceptedPort e) :
    hasLetter (portDisplay e) ↔ ∀ n, e.port ≠ some (.int n) := by
  obtain ⟨protocol,port,stop⟩ := e
  rw [portDisplay]
  cases port with
  | none =>
    simp only [ne_eq, reduceCtorEq, not_false_eq_true, implies_true, iff_true]
    exact ⟨'a',by simp,by decide⟩
  | some port =>
    cases port with
    | int n =>
      simp only [ne_eq, Option.some_inj, IntOrString.int.injEq, forall_eq', iff_false,
        IntOrString.text]
      cases stop with
      | none => exact int_no_letter n
      | some stop =>
        rintro ⟨c,hc,hlower⟩
        rw [String.toList_append, String.toList_append, List.mem_append, List.mem_append] at hc
        rcases hc with (hc | hc) | hc
        · exact int_no_letter n ⟨c,hc,hlower⟩
        · rw [show "-".toList = ['-'] from rfl, List.mem_singleton] at hc
          subst hc
          exact absurd hlower (by decide)
        · exact int_no_letter stop ⟨c,hc,hlower⟩
    | str s =>
      have hstop : stop = none := by
        cases stop with
        | none => rfl
        | some stop =>
          obtain ⟨n,hn,-⟩ := h.endPort stop rfl
          nomatch hn
      subst hstop
      simpa [hasLetter, IntOrString.text] using (h.name s rfl).2.2

/-- The display of a numbered port determines it. -/
theorem numbered_inj {n n' : ℤ} (h : AcceptedPort e) (h' : AcceptedPort e')
    (he : e.port = some (.int n)) (he' : e'.port = some (.int n'))
    (hdisplay : portDisplay e = portDisplay e') : n = n' ∧ e.endPort = e'.endPort := by
  have hpos := minus_not_mem_int (by have := (h.number n he).1; omega : 0 ≤ n)
  have hpos' := minus_not_mem_int (by have := (h'.number n' he').1; omega : 0 ≤ n')
  rw [portDisplay, portDisplay, he, he'] at hdisplay
  simp only [IntOrString.text] at hdisplay
  cases hstop : e.endPort with
  | none =>
    cases hstop' : e'.endPort with
    | none =>
      rw [hstop, hstop'] at hdisplay
      exact ⟨int_text_inj hdisplay,rfl⟩
    | some stop' =>
      rw [hstop, hstop'] at hdisplay
      simp only at hdisplay
      rw [hdisplay] at hpos
      exact absurd (by simp) hpos
  | some stop =>
    cases hstop' : e'.endPort with
    | none =>
      rw [hstop, hstop'] at hdisplay
      simp only at hdisplay
      rw [← hdisplay] at hpos'
      exact absurd (by simp) hpos'
    | some stop' =>
      rw [hstop, hstop'] at hdisplay
      have hparts := @part_inj '-' _ _ _ _ hpos hpos' hdisplay
      exact ⟨int_text_inj hparts.1,congrArg some (int_text_inj hparts.2)⟩

/-- One leaves the port open and the other names it all. -/
def OpenOrAll (e e' : NetworkPolicyPort) : Prop :=
  e.port = none ∧ e'.port = some (.str "all")

theorem portDisplay_covered (lib : Lib IP CIDR) (h : AcceptedPort e) (h' : AcceptedPort e')
    (hdisplay : portDisplay e = portDisplay e') :
    OpenOrAll e e' ∨ OpenOrAll e' e ∨
      ∀ dst port proto, portCovered lib dst port proto e ↔ portCovered lib dst port proto e' := by
  have hletter := portDisplay_letter h
  rw [hdisplay, portDisplay_letter h'] at hletter
  have hstr : ∀ {e : NetworkPolicyPort} {s}, AcceptedPort e → e.port = some (.str s) →
      portDisplay e = s := by
    intro e s h hs
    have hstop : e.endPort = none := by
      cases hstop : e.endPort with
      | none => rfl
      | some stop =>
        obtain ⟨n,hn,-⟩ := h.endPort stop hstop
        rw [hs] at hn
        nomatch hn
    simp [portDisplay, hs, hstop, IntOrString.text]
  have hnone : ∀ {e : NetworkPolicyPort}, e.port = none → portDisplay e = "all" := by
    intro e hp
    simp [portDisplay, hp]
  cases hp : e.port with
  | none =>
    cases hp' : e'.port with
    | none => exact .inr (.inr fun _ _ _ => by simp [portCovered, hp, hp'])
    | some port' =>
      cases port' with
      | int n' => simp [hp, hp'] at hletter
      | str s' =>
        rw [hnone hp, hstr h' hp'] at hdisplay
        exact .inl ⟨hp,by rw [hp', hdisplay]⟩
  | some port =>
    cases port with
    | int n =>
      cases hp' : e'.port with
      | none => simp [hp, hp'] at hletter
      | some port' =>
        cases port' with
        | int n' =>
          obtain ⟨rfl,hstop⟩ := numbered_inj h h' hp hp' hdisplay
          exact .inr (.inr fun _ _ _ => by simp [portCovered, hp, hp', hstop])
        | str s' => simp [hp, hp'] at hletter
    | str s =>
      cases hp' : e'.port with
      | none =>
        rw [hstr h hp, hnone hp'] at hdisplay
        exact .inr (.inl ⟨hp',by rw [hp, hdisplay]⟩)
      | some port' =>
        cases port' with
        | int n' => simp [hp, hp'] at hletter
        | str s' =>
          rw [hstr h hp, hstr h' hp'] at hdisplay
          exact .inr (.inr fun _ _ _ => by simp [portCovered, hp, hp', hdisplay])

theorem protocol_free (h : AcceptedPort e) {c : Char} (hc : c ∈ ['/',',']) :
    c ∉ (e.protocol.getD "TCP").toList := by
  have hmem : e.protocol.getD "TCP" ∈ ["TCP","UDP","SCTP"] := by
    cases hp : e.protocol with
    | none => simp
    | some q => exact h.protocol q hp
  have hall : ∀ q ∈ ["TCP","UDP","SCTP"], ∀ c ∈ ['/',','], c ∉ q.toList := by simp
  exact hall _ hmem c hc

theorem policyPortDisplay_inj (h : AcceptedPort e) (h' : AcceptedPort e')
    (hdisplay : policyPortDisplay e = policyPortDisplay e') :
    e.protocol.getD "TCP" = e'.protocol.getD "TCP" ∧ portDisplay e = portDisplay e' :=
  @part_inj '/' _ _ _ _ (protocol_free h (by simp)) (protocol_free h' (by simp)) hdisplay

theorem sameProtocol_congr (hl : Lawful lib)
    (h : e.protocol.getD "TCP" = e'.protocol.getD "TCP") (proto : String) :
    sameProtocol lib (e.protocol.getD "") proto ↔ sameProtocol lib (e'.protocol.getD "") proto := by
  have hdefault : ∀ q : Option String,
      protocolOrTCP lib (q.getD "") = protocolOrTCP lib (q.getD "TCP") := by
    intro q
    cases q with
    | none => simp [protocolOrTCP, hl.upper_tcp]
    | some q => rfl
  rw [sameProtocol, sameProtocol, hdefault, h, ← hdefault]

theorem portDisplay_comma (h : AcceptedPort e) : ',' ∉ (portDisplay e).toList := by
  rw [portDisplay]
  have hint : ∀ n : ℤ, ',' ∉ (toString n).toList := by
    intro n hc
    rcases int_text_char hc with hdigit | hminus
    · exact absurd hdigit (by decide)
    · exact absurd hminus (by decide)
  have htext : ∀ port, e.port = some port → ',' ∉ port.text.toList := by
    intro port hp hc
    cases port with
    | int n => exact hint n hc
    | str s =>
      rcases (h.name s hp).2.1 _ hc with hlower | hdigit | hminus
      · exact absurd hlower (by decide)
      · exact absurd hdigit (by decide)
      · exact absurd hminus (by decide)
  cases hp : e.port with
  | none => simp
  | some port =>
    cases e.endPort with
    | none => exact htext port hp
    | some stop =>
      rw [String.toList_append, String.toList_append, List.mem_append, List.mem_append, not_or,
        not_or]
      exact ⟨⟨htext port hp,by decide⟩,hint stop⟩

theorem policyPortsDisplay_nonempty {ports : List NetworkPolicyPort} (h : ports ≠ []) :
    policyPortsDisplay ports ≠ "all" := by
  rw [policyPortsDisplay, if_neg (by simpa using h)]
  intro hall
  have hmem : ∀ p ∈ sorted (ports.map policyPortDisplay), '/' ∈ p.toList := by
    intro p hp
    rw [mem_sorted] at hp
    obtain ⟨e,-,rfl⟩ := List.mem_map.mp hp
    simp [policyPortDisplay]
  cases hs : sorted (ports.map policyPortDisplay) with
  | nil =>
    obtain ⟨e,he⟩ := List.exists_mem_of_ne_nil ports h
    have : policyPortDisplay e ∈ sorted (ports.map policyPortDisplay) :=
      mem_sorted.mpr (List.mem_map_of_mem he)
    rw [hs] at this
    nomatch this
  | cons p ps =>
    have hslash := hmem p (by rw [hs]; exact List.mem_cons_self)
    have hin : '/' ∈ (",".intercalate (p::ps)).toList := by
      rw [String.toList_intercalate, List.map_cons]
      cases ps with
      | nil => simpa using hslash
      | cons q qs =>
        rw [List.map_cons, List.intercalate_cons_cons]
        simp [hslash]
    rw [hs] at hall
    rw [hall] at hin
    exact absurd hin (by decide)

/-- Lists of ports that show the same have entries that show the same. -/
theorem ports_alike {ports ports' : List NetworkPolicyPort} (h : ∀ e ∈ ports, AcceptedPort e)
    (h' : ∀ e ∈ ports', AcceptedPort e) (hdisplay : policyPortsDisplay ports = policyPortsDisplay ports')
    (he : e ∈ ports) : ∃ e' ∈ ports', policyPortDisplay e = policyPortDisplay e' := by
  have hne : ports ≠ [] := List.ne_nil_of_mem he
  have hne' : ports' ≠ [] := by
    rintro rfl
    exact policyPortsDisplay_nonempty hne hdisplay
  rw [policyPortsDisplay, policyPortsDisplay, if_neg (by simpa using hne),
    if_neg (by simpa using hne')] at hdisplay
  have hfree : ∀ {ports : List NetworkPolicyPort}, (∀ e ∈ ports, AcceptedPort e) →
      Free ',' (sorted (ports.map policyPortDisplay)) := by
    intro ports h p hp
    rw [mem_sorted] at hp
    obtain ⟨e,he,rfl⟩ := List.mem_map.mp hp
    have hproto := protocol_free (h e he) (c := ',') (by simp)
    have hport := portDisplay_comma (h e he)
    simp [policyPortDisplay, hproto, hport]
  have hnil : ∀ {ports : List NetworkPolicyPort}, ports ≠ [] →
      sorted (ports.map policyPortDisplay) ≠ [] := by
    intro ports hne
    obtain ⟨e,he⟩ := List.exists_mem_of_ne_nil ports hne
    exact List.ne_nil_of_mem (mem_sorted.mpr (List.mem_map_of_mem he))
  have hsorted := @joined_inj ',' _ _ (hnil hne) (hnil hne') (hfree h) (hfree h') hdisplay
  have hmem := mem_of_sorted_eq hsorted (List.mem_map_of_mem he)
  obtain ⟨e',he',heq⟩ := List.mem_map.mp hmem
  exact ⟨e',he',heq.symm⟩

end Ports

section Selectors

variable {IP CIDR : Type} {lib : Lib IP CIDR} {format : LabelSelector → String}
  {s t : LabelSelector}

theorem selectorHolds_empty (hl : Lawful lib) (c : Completion) (h : selectorIsEmpty s = true)
    (labels : Labels) : selectorHolds lib c s labels := by
  obtain ⟨m,hm,hall⟩ := hl.empty_matches_all s h
  rw [selectorHolds, hm]
  exact hall labels

theorem selectorHolds_format (hf : FormatsSelectors lib format) (hs : AcceptedSelector lib s)
    (ht : AcceptedSelector lib t) (c : Completion) (h : format s = format t) (labels : Labels) :
    selectorHolds lib c s labels ↔ selectorHolds lib c t labels := by
  obtain ⟨m,hm⟩ := hs
  obtain ⟨n,hn⟩ := ht
  rw [selectorHolds, selectorHolds, hm, hn]
  change m labels = true ↔ n labels = true
  rw [hf.same s t m n hm hn h labels]

/-- What follows a blank in the text of a pod selector. -/
def PodText (text : List Char) : Prop :=
  ∀ a b, text = a++ ' '::b → "in (".toList <+: b ∨ "notin (".toList <+: b ∨ "(".toList <+: b ∨
    b = "pods".toList

theorem podText (hf : FormatsSelectors lib format) (hs : AcceptedSelector lib s) :
    PodText (podSelectorDisplay format s).toList := by
  intro a b h
  rw [podSelectorDisplay] at h
  cases hempty : selectorIsEmpty s with
  | true =>
    rw [hempty, if_pos rfl] at h
    have hall : "all pods".toList = "all".toList++ ' '::"pods".toList := by decide
    rw [hall] at h
    have hparts := @append_sep_last_inj _ ' ' _ _ _ _ (by decide) ?_ h
    · exact .inr (.inr (.inr hparts.2.symm))
    · -- the one blank of the text stands before `pods`
      intro hblank
      have hcount := congrArg (List.count ' ') h
      rw [List.count_append, List.count_append, List.count_cons_self, List.count_cons_self] at hcount
      have hone : List.count ' ' "all".toList = 0 := by decide
      have hnone : List.count ' ' "pods".toList = 0 := by decide
      have hpos := List.count_pos_iff.mpr hblank
      omega
  | false =>
    rw [hempty, if_neg Bool.false_ne_true] at h
    obtain ⟨m,hm⟩ := hs
    rcases hf.blank s m a b hm hempty h with h | h | h
    · exact .inl h
    · exact .inr (.inl h)
    · exact .inr (.inr (.inl h))

/-- The text of a namespace selector starts with a word of its own. -/
def NamespaceText (text : List Char) : Prop := text.head? = some 'a' ∨ text.head? = some 'n'

theorem namespaceText (format : LabelSelector → String) (s : LabelSelector) :
    NamespaceText (namespaceSelectorDisplay format s).toList := by
  rw [namespaceSelectorDisplay]
  cases selectorIsEmpty s with
  | true => exact .inl (by simp)
  | false => exact .inr (by simp)

theorem PodText.not_in {text a b n r : List Char} (h : PodText text) (hsplit : text = a++ ' '::b)
    (hn : NamespaceText n) (hin : "in ".toList++n = b++r) : False := by
  have hhead : ∀ {w : List Char}, w <+: b → w <+: "in ".toList++n := by
    rintro w ⟨u,rfl⟩
    rw [hin, List.append_assoc]
    exact List.prefix_append w _
  rcases h a b hsplit with h | h | h | h
  · obtain ⟨u,hu⟩ := hhead h
    simp only [show "in (".toList = "in ".toList++['('] from by decide, List.append_assoc,
      List.append_cancel_left_eq] at hu
    rw [NamespaceText, ← hu] at hn
    revert hn
    simp
  · obtain ⟨u,hu⟩ := hhead h
    simp at hu
  · obtain ⟨u,hu⟩ := hhead h
    simp at hu
  · subst h
    simp at hin

theorem pods_in_inj {p p' n n' : List Char} (hp : PodText p) (hp' : PodText p')
    (hn : NamespaceText n) (hn' : NamespaceText n')
    (h : p++(" in ".toList++n) = p'++(" in ".toList++n')) : p = p' ∧ n = n' := by
  have hsep : ∀ u : List Char, " in ".toList++u = ' '::("in ".toList++u) := fun u => by simp
  rcases List.append_eq_append_iff.mp h with ⟨m,hm,hrest⟩ | ⟨m,hm,hrest⟩
  · cases m with
    | nil =>
      rw [List.append_nil] at hm
      exact ⟨hm.symm,List.append_cancel_left hrest⟩
    | cons x m =>
      rw [hsep n, List.cons_append, List.cons.injEq] at hrest
      obtain ⟨rfl,hrest⟩ := hrest
      exact (hp'.not_in hm hn hrest).elim
  · cases m with
    | nil =>
      rw [List.append_nil] at hm
      exact ⟨hm,(List.append_cancel_left hrest).symm⟩
    | cons x m =>
      rw [hsep n', List.cons_append, List.cons.injEq] at hrest
      obtain ⟨rfl,hrest⟩ := hrest
      exact (hp.not_in hm hn' hrest).elim

theorem podSelector_same (hl : Lawful lib) (hf : FormatsSelectors lib format) (c : Completion)
    (hs : AcceptedSelector lib s) (ht : AcceptedSelector lib t)
    (h : podSelectorDisplay format s = podSelectorDisplay format t) (labels : Labels) :
    selectorHolds lib c s labels ↔ selectorHolds lib c t labels := by
  have hne : ∀ {u : LabelSelector}, AcceptedSelector lib u → selectorIsEmpty u = false →
      format u ≠ "all pods" := by
    rintro u ⟨m,hm⟩ hempty hall
    have hblank := hf.blank u m "all".toList "pods".toList hm hempty (by rw [hall]; decide)
    revert hblank
    decide
  rw [podSelectorDisplay, podSelectorDisplay] at h
  cases hempty : selectorIsEmpty s with
  | true =>
    cases hempty' : selectorIsEmpty t with
    | true =>
      exact iff_of_true (selectorHolds_empty hl c hempty labels)
        (selectorHolds_empty hl c hempty' labels)
    | false =>
      rw [hempty, hempty', if_pos rfl, if_neg Bool.false_ne_true] at h
      exact absurd h.symm (hne ht hempty')
  | false =>
    cases hempty' : selectorIsEmpty t with
    | true =>
      rw [hempty, hempty', if_pos rfl, if_neg Bool.false_ne_true] at h
      exact absurd h (hne hs hempty)
    | false =>
      rw [hempty, hempty', if_neg Bool.false_ne_true, if_neg Bool.false_ne_true] at h
      exact selectorHolds_format hf hs ht c h labels

theorem namespaceSelector_same (hl : Lawful lib) (hf : FormatsSelectors lib format)
    (c : Completion) (hs : AcceptedSelector lib s) (ht : AcceptedSelector lib t)
    (h : namespaceSelectorDisplay format s = namespaceSelectorDisplay format t) (labels : Labels) :
    selectorHolds lib c s labels ↔ selectorHolds lib c t labels := by
  have hne : ∀ u : LabelSelector, "namespaces " ++ format u ≠ "all namespaces" := by
    intro u hall
    have hlists := congrArg String.toList hall
    simp at hlists
  rw [namespaceSelectorDisplay, namespaceSelectorDisplay] at h
  cases hempty : selectorIsEmpty s with
  | true =>
    cases hempty' : selectorIsEmpty t with
    | true =>
      exact iff_of_true (selectorHolds_empty hl c hempty labels)
        (selectorHolds_empty hl c hempty' labels)
    | false =>
      rw [hempty, hempty', if_pos rfl, if_neg Bool.false_ne_true] at h
      exact absurd h.symm (hne t)
  | false =>
    cases hempty' : selectorIsEmpty t with
    | true =>
      rw [hempty, hempty', if_pos rfl, if_neg Bool.false_ne_true] at h
      exact absurd h (hne s)
    | false =>
      rw [hempty, hempty', if_neg Bool.false_ne_true, if_neg Bool.false_ne_true] at h
      have hlists := congrArg String.toList h
      rw [String.toList_append, String.toList_append] at hlists
      exact selectorHolds_format hf hs ht c (String.ext (List.append_cancel_left hlists)) labels

end Selectors

section Peers

variable {IP CIDR : Type} {lib : Lib IP CIDR} {format : LabelSelector → String}

theorem isCIDR.free {text : String} (h : isCIDR text) {c : Char} (hc : c ∈ [' ',',',';',']']) :
    c ∉ text.toList := by
  intro hin
  have hall : ∀ c ∈ [' ',',',';',']'], ¬(c.isAlphanum = true ∨ c ∈ ['.',':','/']) := by
    intro c hc
    simp only [List.mem_cons, List.not_mem_nil, or_false] at hc
    rcases hc with rfl | rfl | rfl | rfl <;> decide
  exact hall c hc (h.2 c hin)

theorem ipBlockDisplay_inj {b b' : IPBlock} (h : AcceptedBlock b) (h' : AcceptedBlock b')
    (hdisplay : ipBlockDisplay b = ipBlockDisplay b') :
    b.cidr = b'.cidr ∧ ∀ e, e ∈ b.except ↔ e ∈ b'.except := by
  have hcidr := h.cidr.free (c := ' ') (by simp)
  have hcidr' := h'.cidr.free (c := ' ') (by simp)
  have hfree : ∀ {b : IPBlock}, AcceptedBlock b → Free ',' (sorted b.except) := by
    intro b h e he
    exact (h.except e (mem_sorted.mp he)).free (by simp)
  have hempty : ∀ {b : IPBlock}, AcceptedBlock b → "" ∉ sorted b.except := by
    intro b h he
    have hslash := (h.except "" (mem_sorted.mp he)).1
    simp at hslash
  rw [ipBlockDisplay, ipBlockDisplay] at hdisplay
  by_cases hb : b.except.length > 0
  · by_cases hb' : b'.except.length > 0
    · rw [if_pos hb, if_pos hb'] at hdisplay
      have hlists := congrArg String.toList hdisplay
      simp only [String.toList_append, List.append_assoc,
        show " except ".toList = ' '::"except ".toList from by decide, List.cons_append] at hlists
      obtain ⟨hc,hrest⟩ := append_sep_inj hcidr hcidr' hlists
      have hjoin := String.ext (List.append_cancel_left hrest)
      have hsorted := @joined_inj_of_ne_empty ',' _ _ (hfree h) (hfree h') (hempty h) (hempty h')
        hjoin
      exact ⟨String.ext hc,fun e => ⟨mem_of_sorted_eq hsorted,mem_of_sorted_eq hsorted.symm⟩⟩
    · rw [if_pos hb, if_neg hb'] at hdisplay
      rw [← hdisplay] at hcidr'
      exact absurd (by simp) hcidr'
  · by_cases hb' : b'.except.length > 0
    · rw [if_neg hb, if_pos hb'] at hdisplay
      rw [hdisplay] at hcidr
      exact absurd (by simp) hcidr
    · rw [if_neg hb, if_neg hb'] at hdisplay
      have hnil : b.except = [] := by simpa using hb
      have hnil' : b'.except = [] := by simpa using hb'
      exact ⟨hdisplay,by simp [hnil, hnil']⟩

def firstWord (text : String) : List Char := text.toList.takeWhile (· ≠ ' ')

theorem firstWord_append {word rest : String} (h : ' ' ∉ word.toList) :
    firstWord (word ++ " " ++ rest) = word.toList := by
  rw [firstWord, String.toList_append, String.toList_append, List.append_assoc,
    List.takeWhile_append_of_pos]
  · simp
  · intro c hc
    have hne : c ≠ ' ' := fun heq => h (heq ▸ hc)
    simpa using hne

/-- A network is told from selectors by its first word. -/
theorem firstWord_block {b : IPBlock} (h : AcceptedBlock b) :
    '/' ∈ firstWord (ipBlockDisplay b) := by
  have hcidr := h.cidr.free (c := ' ') (by simp)
  rw [ipBlockDisplay]
  by_cases hb : b.except.length > 0
  · have hsplit : b.cidr ++ " except " ++ ",".intercalate (sorted b.except) =
        b.cidr ++ " " ++ ("except " ++ ",".intercalate (sorted b.except)) := by
      apply String.ext
      simp
    rw [if_pos hb, hsplit, firstWord_append hcidr]
    exact h.cidr.1
  · have hself : b.cidr.toList.takeWhile (· ≠ ' ') = b.cidr.toList := by
      apply List.takeWhile_eq_self_iff.mpr
      intro c hc
      have hne : c ≠ ' ' := fun heq => hcidr (heq ▸ hc)
      simpa using hne
    rw [if_neg hb, firstWord, hself]
    exact h.cidr.1

theorem firstWord_namespaces (format : LabelSelector → String) (s : LabelSelector) :
    firstWord (namespaceSelectorDisplay format s) ∈ ["all".toList,"namespaces".toList] := by
  rw [namespaceSelectorDisplay]
  cases selectorIsEmpty s with
  | true =>
    rw [if_pos rfl]
    decide
  | false =>
    have hsplit : "namespaces " ++ format s = "namespaces" ++ " " ++ format s := by
      apply String.ext
      simp
    rw [if_neg Bool.false_ne_true, hsplit, firstWord_append (by decide)]
    simp

theorem firstWord_pods (rest : String) : firstWord ("pods " ++ rest) = "pods".toList := by
  have hsplit : "pods " ++ rest = "pods" ++ " " ++ rest := by
    apply String.ext
    simp
  rw [hsplit, firstWord_append (by decide)]

/-- Two optional selectors that select alike. -/
def Alike (lib : Lib IP CIDR) (c : Completion) : Option LabelSelector → Option LabelSelector → Prop
  | none,none => True
  | some s,some t => ∀ labels, selectorHolds lib c s labels ↔ selectorHolds lib c t labels
  | _,_ => False

theorem peerMatches_alike {c : Completion} {p p' : NetworkPolicyPeer} (hb : p.ipBlock = none)
    (hb' : p'.ipBlock = none) (hpods : Alike lib c p.podSelector p'.podSelector)
    (hns : Alike lib c p.namespaceSelector p'.namespaceSelector)
    (hp : p.podSelector.isSome ∨ p.namespaceSelector.isSome) (target : Peer) (policyNs : String) :
    peerMatches lib c target policyNs p ↔ peerMatches lib c target policyNs p' := by
  obtain ⟨pods,namespaces,block⟩ := p
  obtain ⟨pods',namespaces',block'⟩ := p'
  obtain rfl : block = none := hb
  obtain rfl : block' = none := hb'
  have hpodMatches : ∀ pod, podMatches lib c ⟨pods,namespaces,none⟩ pod ↔
      podMatches lib c ⟨pods',namespaces',none⟩ pod := by
    intro pod
    cases pods <;> cases pods' <;> simp [Alike] at hpods <;> simp [podMatches, hpods]
  have hnsMatches : ∀ pod, nsMatches lib c ⟨pods,namespaces,none⟩ target pod policyNs ↔
      nsMatches lib c ⟨pods',namespaces',none⟩ target pod policyNs := by
    intro pod
    cases namespaces <;> cases namespaces' <;> simp [Alike] at hns <;> simp [nsMatches, hns]
  have hset : ¬(namespaces.isNone = true ∧ pods.isNone = true) := by
    cases namespaces <;> cases pods <;> simp at hp <;> simp
  have hset' : ¬(namespaces'.isNone = true ∧ pods'.isNone = true) := by
    cases namespaces <;> cases namespaces' <;> simp [Alike] at hns <;>
      cases pods <;> cases pods' <;> simp [Alike] at hpods <;> simp at hp <;> simp
  simp only [peerMatches, if_neg hset, if_neg hset', hpodMatches, hnsMatches]

theorem namespaces_ne_pods (s : LabelSelector) (rest : String) :
    namespaceSelectorDisplay format s ≠ "pods " ++ rest := by
  intro heq
  have hword := firstWord_namespaces format s
  rw [heq, firstWord_pods] at hword
  exact absurd hword (by decide)

theorem pods_in_assoc (s n : LabelSelector) :
    "pods " ++ podSelectorDisplay format s ++ " in " ++ namespaceSelectorDisplay format n =
      "pods " ++ (podSelectorDisplay format s ++ " in " ++ namespaceSelectorDisplay format n) := by
  rw [String.append_assoc, String.append_assoc, String.append_assoc]

theorem pods_ne_pods_in (hf : FormatsSelectors lib format) {s s' n : LabelSelector}
    (hs : AcceptedSelector lib s) :
    podSelectorDisplay format s ≠
      podSelectorDisplay format s' ++ " in " ++ namespaceSelectorDisplay format n := by
  intro heq
  have hlists := congrArg String.toList heq
  simp only [String.toList_append, List.append_assoc,
    show " in ".toList = ' '::"in ".toList from by decide, List.cons_append] at hlists
  exact (podText hf hs).not_in hlists (namespaceText format n) (List.append_nil _).symm

/-- Entries with selectors that show the same have selectors that select alike. -/
theorem selectors_alike (hl : Lawful lib) (hf : FormatsSelectors lib format) (c : Completion)
    {p p' : NetworkPolicyPeer} (h : AcceptedPeer lib p) (h' : AcceptedPeer lib p')
    (hb : p.ipBlock = none) (hb' : p'.ipBlock = none)
    (hdisplay : peerDisplay format p = peerDisplay format p') :
    Alike lib c p.podSelector p'.podSelector ∧
      Alike lib c p.namespaceSelector p'.namespaceSelector := by
  obtain ⟨pods,namespaces,block⟩ := p
  obtain ⟨pods',namespaces',block'⟩ := p'
  obtain rfl : block = none := hb
  obtain rfl : block' = none := hb'
  cases pods with
  | none =>
    cases namespaces with
    | none => simpa using h.specified
    | some n =>
      have hn := h.namespaceSelector n rfl
      cases pods' with
      | none =>
        cases namespaces' with
        | none => simpa using h'.specified
        | some n' =>
          exact ⟨trivial,namespaceSelector_same hl hf c hn (h'.namespaceSelector n' rfl)
            (Option.some.inj hdisplay)⟩
      | some s' =>
        cases namespaces' with
        | none => exact absurd (Option.some.inj hdisplay) (namespaces_ne_pods n _)
        | some n' =>
          exact absurd ((Option.some.inj hdisplay).trans (pods_in_assoc s' n'))
            (namespaces_ne_pods n _)
  | some s =>
    have hs := h.podSelector s rfl
    cases namespaces with
    | none =>
      cases pods' with
      | none =>
        cases namespaces' with
        | none => simpa using h'.specified
        | some n' => exact absurd (Option.some.inj hdisplay).symm (namespaces_ne_pods n' _)
      | some s' =>
        cases namespaces' with
        | none =>
          have hpods := (String.append_right_inj _).mp (Option.some.inj hdisplay)
          exact ⟨podSelector_same hl hf c hs (h'.podSelector s' rfl) hpods,trivial⟩
        | some n' =>
          have hpods := (Option.some.inj hdisplay).trans (pods_in_assoc s' n')
          exact absurd ((String.append_right_inj _).mp hpods) (pods_ne_pods_in hf hs)
    | some n =>
      have hn := h.namespaceSelector n rfl
      cases pods' with
      | none =>
        cases namespaces' with
        | none => simpa using h'.specified
        | some n' =>
          exact absurd ((Option.some.inj hdisplay).symm.trans (pods_in_assoc s n))
            (namespaces_ne_pods n' _)
      | some s' =>
        have hs' := h'.podSelector s' rfl
        cases namespaces' with
        | none =>
          have hpods := (Option.some.inj hdisplay).symm.trans (pods_in_assoc s n)
          exact absurd ((String.append_right_inj _).mp hpods) (pods_ne_pods_in hf hs')
        | some n' =>
          have hboth := congrArg String.toList (Option.some.inj hdisplay)
          simp only [String.toList_append, List.append_assoc, List.append_cancel_left_eq] at hboth
          obtain ⟨hpods,hnames⟩ := pods_in_inj (podText hf hs) (podText hf hs')
            (namespaceText format n) (namespaceText format n') hboth
          exact ⟨podSelector_same hl hf c hs hs' (String.ext hpods),
            namespaceSelector_same hl hf c hn (h'.namespaceSelector n' rfl) (String.ext hnames)⟩

theorem firstWord_selectors {p : NetworkPolicyPeer} (hb : p.ipBlock = none) {text : String}
    (h : peerDisplay format p = some text) : '/' ∉ firstWord text := by
  obtain ⟨pods,namespaces,block⟩ := p
  obtain rfl : block = none := hb
  have hpods : ∀ rest, '/' ∉ firstWord ("pods " ++ rest) := by
    intro rest
    rw [firstWord_pods]
    decide
  cases pods with
  | none =>
    cases namespaces with
    | none => cases h
    | some n =>
      obtain rfl := Option.some.inj h
      intro hin
      have hall : ∀ w ∈ ["all".toList,"namespaces".toList], '/' ∉ w := by decide
      exact hall _ (firstWord_namespaces format n) hin
  | some s =>
    cases namespaces with
    | none =>
      obtain rfl := Option.some.inj h
      exact hpods _
    | some n =>
      obtain rfl := Option.some.inj h
      rw [pods_in_assoc]
      exact hpods _

variable {inRange : String → Peer → Prop}

/-- Peers that show the same match the same. -/
theorem peerDisplay_same (hl : Lawful lib) (hf : FormatsSelectors lib format) {c : Completion}
    (hc : BlocksAreRanges c inRange) {p p' : NetworkPolicyPeer} (h : AcceptedPeer lib p)
    (h' : AcceptedPeer lib p') (hdisplay : peerDisplay format p = peerDisplay format p')
    (target : Peer) (policyNs : String) :
    peerMatches lib c target policyNs p ↔ peerMatches lib c target policyNs p' := by
  have hblock : ∀ {p : NetworkPolicyPeer} {b}, p.ipBlock = some b →
      peerDisplay format p = some (ipBlockDisplay b) := by
    intro p b hb
    rw [peerDisplay, hb]
  cases hb : p.ipBlock with
  | some b =>
    obtain ⟨hacc,-⟩ := h.block b hb
    rw [hblock hb] at hdisplay
    cases hb' : p'.ipBlock with
    | some b' =>
      obtain ⟨hacc',-⟩ := h'.block b' hb'
      rw [hblock hb', Option.some_inj] at hdisplay
      obtain ⟨hcidr,hexcept⟩ := ipBlockDisplay_inj hacc hacc' hdisplay
      simp only [peerMatches, hb, hb', hc b target, hc b' target, hcidr, hexcept]
    | none => exact absurd (firstWord_block hacc) (firstWord_selectors hb' hdisplay.symm)
  | none =>
    cases hb' : p'.ipBlock with
    | some b' =>
      obtain ⟨hacc',-⟩ := h'.block b' hb'
      rw [hblock hb'] at hdisplay
      exact absurd (firstWord_block hacc') (firstWord_selectors hb hdisplay)
    | none =>
      have hspecified : p.podSelector.isSome ∨ p.namespaceSelector.isSome := by
        simpa [hb] using h.specified
      obtain ⟨hpods,hns⟩ := selectors_alike hl hf c h h' hb hb' hdisplay
      exact peerMatches_alike hb hb' hpods hns hspecified target policyNs

theorem peerDisplay_free (hf : FormatsSelectors lib format) {p : NetworkPolicyPeer}
    (h : AcceptedPeer lib p) {text : String} (ht : peerDisplay format p = some text) {c : Char}
    (hc : c = ';' ∨ c = ']') : c ∉ text.toList := by
  have hformat : ∀ {s}, AcceptedSelector lib s → c ∉ (format s).toList := by
    rintro s ⟨m,hm⟩
    rcases hc with rfl | rfl
    · exact (hf.free s m hm).1
    · exact (hf.free s m hm).2
  have hliteral : ∀ s ∈ ["all pods","all namespaces","namespaces ","pods "," in "," except "],
      c ∉ s.toList := by
    rcases hc with rfl | rfl <;> decide
  have hpods : ∀ {s}, AcceptedSelector lib s → c ∉ (podSelectorDisplay format s).toList := by
    intro s hs
    rw [podSelectorDisplay]
    split_ifs
    · exact hliteral _ (by simp)
    · exact hformat hs
  have hns : ∀ {s}, AcceptedSelector lib s → c ∉ (namespaceSelectorDisplay format s).toList := by
    intro s hs
    rw [namespaceSelectorDisplay]
    split_ifs
    · exact hliteral _ (by simp)
    · rw [String.toList_append, List.mem_append, not_or]
      exact ⟨hliteral _ (by simp),hformat hs⟩
  have hcidr : ∀ {s}, isCIDR s → c ∉ s.toList := by
    intro s hs
    rcases hc with rfl | rfl
    · exact hs.free (by simp)
    · exact hs.free (by simp)
  obtain ⟨pods,namespaces,block⟩ := p
  cases block with
  | some b =>
    obtain ⟨hacc,-⟩ := h.block b rfl
    obtain rfl := Option.some.inj ht
    rw [ipBlockDisplay]
    split_ifs
    · rw [String.toList_append, String.toList_append, List.mem_append, List.mem_append, not_or,
        not_or]
      refine ⟨⟨hcidr hacc.cidr,hliteral _ (by simp)⟩,fun hin => ?_⟩
      rcases @mem_joined ',' _ _ hin with heq | ⟨e,he,hin⟩
      · rcases hc with rfl | rfl
        · exact absurd heq (by decide)
        · exact absurd heq (by decide)
      · exact hcidr (hacc.except e (mem_sorted.mp he)) hin
    · exact hcidr hacc.cidr
  | none =>
    cases pods with
    | none =>
      cases namespaces with
      | none => cases ht
      | some n =>
        obtain rfl := Option.some.inj ht
        exact hns (h.namespaceSelector n rfl)
    | some s =>
      have hs := hpods (h.podSelector s rfl)
      have hword := hliteral "pods " (by simp)
      cases namespaces with
      | none =>
        obtain rfl := Option.some.inj ht
        rw [String.toList_append, List.mem_append, not_or]
        exact ⟨hword,hs⟩
      | some n =>
        obtain rfl := Option.some.inj ht
        have hin := hliteral " in " (by simp)
        have hn := hns (h.namespaceSelector n rfl)
        simp only [String.toList_append, List.mem_append, not_or]
        exact ⟨⟨⟨hword,hs⟩,hin⟩,hn⟩

/-- Lists of peers that show the same have entries that show the same. -/
theorem peers_alike (hf : FormatsSelectors lib format) {peers peers' : List NetworkPolicyPeer}
    (h : ∀ p ∈ peers, AcceptedPeer lib p) (h' : ∀ p ∈ peers', AcceptedPeer lib p)
    (hdisplay : peersDisplay format peers = peersDisplay format peers') :
    (peers = [] ↔ peers' = []) ∧
      ∀ p ∈ peers, ∃ p' ∈ peers', peerDisplay format p = peerDisplay format p' := by
  have hshown : ∀ {peers : List NetworkPolicyPeer}, (∀ p ∈ peers, AcceptedPeer lib p) →
      ∀ p ∈ peers, ∃ text, peerDisplay format p = some text := by
    intro peers h p hp
    obtain ⟨pods,namespaces,block⟩ := p
    have hspecified := (h _ hp).specified
    cases block <;> cases pods <;> cases namespaces <;> simp [peerDisplay] at hspecified ⊢
  have hfree : ∀ {peers : List NetworkPolicyPeer}, (∀ p ∈ peers, AcceptedPeer lib p) →
      Free ';' (sorted (peers.filterMap (peerDisplay format))) := by
    intro peers h text ht
    obtain ⟨p,hp,hshow⟩ := List.mem_filterMap.mp (mem_sorted.mp ht)
    exact peerDisplay_free hf (h p hp) hshow (.inl rfl)
  have hnil : ∀ {peers : List NetworkPolicyPeer}, (∀ p ∈ peers, AcceptedPeer lib p) →
      peers ≠ [] → sorted (peers.filterMap (peerDisplay format)) ≠ [] := by
    intro peers h hne
    obtain ⟨p,hp⟩ := List.exists_mem_of_ne_nil peers hne
    obtain ⟨text,htext⟩ := hshown h p hp
    exact List.ne_nil_of_mem (mem_sorted.mpr (List.mem_filterMap.mpr ⟨p,hp,htext⟩))
  have hanywhere : ∀ text, "anywhere" ≠ "[" ++ text ++ "]" := by
    intro text heq
    have hlists := congrArg String.toList heq
    simp at hlists
  rw [peersDisplay, peersDisplay] at hdisplay
  by_cases hp : peers = []
  · subst hp
    by_cases hp' : peers' = []
    · exact ⟨iff_of_true rfl hp',fun _ h => nomatch h⟩
    · rw [if_pos List.length_nil, if_neg (by simpa using hp')] at hdisplay
      exact absurd hdisplay (hanywhere _)
  · by_cases hp' : peers' = []
    · subst hp'
      rw [if_neg (by simpa using hp), if_pos List.length_nil] at hdisplay
      exact absurd hdisplay.symm (hanywhere _)
    · refine ⟨iff_of_false hp hp',fun p hmem => ?_⟩
      rw [if_neg (by simpa using hp), if_neg (by simpa using hp')] at hdisplay
      have hlists := congrArg String.toList hdisplay
      simp only [String.toList_append, List.append_assoc, List.append_cancel_left_eq,
        List.append_cancel_right_eq] at hlists
      have hsorted := @joined_by_inj ';' [' '] "; " rfl _ _ (hnil h hp) (hnil h' hp')
        (hfree h) (hfree h') (String.ext hlists)
      obtain ⟨text,htext⟩ := hshown h p hmem
      have hin := mem_of_sorted_eq hsorted (List.mem_filterMap.mpr ⟨p,hmem,htext⟩)
      obtain ⟨p',hmem',htext'⟩ := List.mem_filterMap.mp hin
      exact ⟨p',hmem',htext.trans htext'.symm⟩

theorem peersDisplay_bracket (hf : FormatsSelectors lib format) {peers : List NetworkPolicyPeer}
    (h : ∀ p ∈ peers, AcceptedPeer lib p) :
    peersDisplay format peers = "anywhere" ∨
      ∃ text : String, peersDisplay format peers = "[" ++ text ++ "]" ∧ ']' ∉ text.toList := by
  rw [peersDisplay]
  split_ifs
  · exact .inl rfl
  · refine .inr ⟨_,rfl,fun hin => ?_⟩
    have hjoined : ∀ (ps : List String) (c : Char), c ∈ ("; ".intercalate ps).toList →
        c = ';' ∨ c = ' ' ∨ ∃ s ∈ ps, c ∈ s.toList := by
      intro ps c hc
      rw [String.toList_intercalate] at hc
      induction ps with
      | nil => simp at hc
      | cons p ps ih =>
        cases ps with
        | nil => exact .inr (.inr ⟨p,List.mem_cons_self,by simpa using hc⟩)
        | cons q qs =>
          rw [List.map_cons, List.map_cons, List.intercalate_cons_cons, List.mem_append,
            List.mem_append] at hc
          rcases hc with (hc | hc) | hc
          · exact .inr (.inr ⟨p,List.mem_cons_self,hc⟩)
          · rw [show "; ".toList = [';',' '] from rfl] at hc
            rcases List.mem_pair.mp hc with rfl | rfl
            · exact .inl rfl
            · exact .inr (.inl rfl)
          · rcases ih hc with hc | hc | ⟨s,hs,hc⟩
            · exact .inl hc
            · exact .inr (.inl hc)
            · exact .inr (.inr ⟨s,List.mem_cons_of_mem p hs,hc⟩)
    rcases hjoined _ _ hin with heq | heq | ⟨text,ht,hin⟩
    · exact absurd heq (by decide)
    · exact absurd heq (by decide)
    · obtain ⟨p,hp,hshow⟩ := List.mem_filterMap.mp (mem_sorted.mp ht)
      exact peerDisplay_free hf (h p hp) hshow (.inr rfl) hin

end Peers

end Radar.Netpol
