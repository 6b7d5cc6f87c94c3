import Radar.Sse.Frames
import Radar.Topology.StripSound

/-!
# What the keys of a cycle tell apart

The key of a client's allowed tuples lists groups, resources and namespaces
with control characters between them. No API group, resource or namespace has
a control character, so two clients with one key are allowed the same.
-/

set_option autoImplicit false

namespace Radar.Sse

open Radar.Topology Radar.Strip

/-- Without the control characters that separate the parts of a key. -/
def Clean (s : String) : Prop := ∀ c ∈ s.toList, '\x04' < c

theorem clean_of_all {s : String} (h : (s.toList.all fun c => '\x04' < c) = true) : Clean s :=
  fun c hc => of_decide_eq_true (List.all_eq_true.mp h c hc)

structure CleanTuple (t : SARTuple) : Prop where
  group : Clean t.group
  resource : Clean t.resource
  ns : Clean t.ns

/-- Every tuple a node gives. -/
def nodeTuples (n : Node Data) : List SARTuple :=
  (rbacTuplesForNodeClass n).getD []++(clusterScopedDynamicTuple n).toList++
    (calicoPolicyRBACTuples n).getD []++[secretTuple n]

def CleanNodes (nodes : List (Node Data)) : Prop := ∀ n ∈ nodes, ∀ t ∈ nodeTuples n, CleanTuple t

section Texts

/-- A character of a key below the separators of its parts, or of a name. -/
def KeyChar (c : Char) : Prop := c = '\x00' ∨ c = '\x01' ∨ '\x04' < c

theorem sarTupleText_char {t : SARTuple} (h : CleanTuple t) {c : Char}
    (hc : c ∈ (sarTupleText t).toList) : c = '\x00' ∨ '\x04' < c := by
  simp only [sarTupleText, String.toList_append, List.mem_append] at hc
  have hnul : ∀ {c : Char}, c ∈ (String.singleton '\x00').toList → c = '\x00' :=
    fun h => by simpa using h
  rcases hc with (((hc | hc) | hc) | hc) | hc
  · exact .inr (h.group c hc)
  · exact .inl (hnul hc)
  · exact .inr (h.resource c hc)
  · exact .inl (hnul hc)
  · exact .inr (h.ns c hc)

theorem nodeClassTupleText_char {t : SARTuple} (h : CleanTuple t) {c : Char}
    (hc : c ∈ (nodeClassTupleText t).toList) : c = '\x00' ∨ '\x04' < c := by
  apply sarTupleText_char h
  simp only [sarTupleText, nodeClassTupleText, String.toList_append, List.mem_append] at hc ⊢
  exact .inl (.inl hc)

theorem nul_not_clean {s : String} (h : Clean s) : '\x00' ∉ s.toList :=
  fun hm => absurd (h '\x00' hm) (by decide)

theorem nodeClassTupleText_inj {t u : SARTuple} (ht : CleanTuple t) (hu : CleanTuple u)
    (htn : t.ns = "") (hun : u.ns = "") (h : nodeClassTupleText t = nodeClassTupleText u) :
    t = u := by
  have hparts := Join.part_inj (nul_not_clean ht.group) (nul_not_clean hu.group) h
  cases t
  cases u
  simp_all

theorem sarTupleText_inj {t u : SARTuple} (ht : CleanTuple t) (hu : CleanTuple u)
    (h : sarTupleText t = sarTupleText u) : t = u := by
  have h' : t.group++String.singleton '\x00'++(t.resource++String.singleton '\x00'++t.ns) =
      u.group++String.singleton '\x00'++(u.resource++String.singleton '\x00'++u.ns) := by
    simpa only [sarTupleText, String.append_assoc] using h
  have hgroup := Join.part_inj (nul_not_clean ht.group) (nul_not_clean hu.group) h'
  have hrest := Join.part_inj (nul_not_clean ht.resource) (nul_not_clean hu.resource) hgroup.2
  cases t
  cases u
  simp_all

theorem nodeClassTupleText_ne_empty (t : SARTuple) : nodeClassTupleText t ≠ "" := by
  intro h
  have hlist := congrArg String.toList h
  simp [nodeClassTupleText] at hlist

theorem sarTupleText_ne_empty (t : SARTuple) : sarTupleText t ≠ "" := by
  intro h
  have hlist := congrArg String.toList h
  simp [sarTupleText] at hlist

end Texts

section Keys

variable {txt : SARTuple → String} {l : List SARTuple}

theorem tuplesKey_char (hl : ∀ t ∈ l, ∀ c ∈ (txt t).toList, c = '\x00' ∨ '\x04' < c) {c : Char}
    (hc : c ∈ (tuplesKey txt l).toList) : KeyChar c := by
  obtain hsep | ⟨s,hs,hcs⟩ := Join.mem_joined hc
  · exact .inr (.inl hsep)
  · obtain ⟨t,ht,rfl⟩ := List.mem_map.mp (Names.mem_sorted.mp hs)
    cases hl t ht c hcs with
    | inl h => exact .inl h
    | inr h => exact .inr (.inr h)

/-- Of one list of tuples, the key tells which were selected. -/
theorem tuplesKey_inj {p q : SARTuple → Bool}
    (hinj : ∀ t ∈ l, ∀ u ∈ l, txt t = txt u → t = u)
    (hl : ∀ t ∈ l, ∀ c ∈ (txt t).toList, c = '\x00' ∨ '\x04' < c) (hne : ∀ t ∈ l, txt t ≠ "")
    (h : tuplesKey txt (l.filter p) = tuplesKey txt (l.filter q)) : l.filter p = l.filter q := by
  have hmem : ∀ (r : SARTuple → Bool) (s : String),
      s ∈ Names.sorted ((l.filter r).map txt) ↔ ∃ t ∈ l, r t ∧ txt t = s := by
    intro r s
    simp [and_assoc]
  have hfree : ∀ r : SARTuple → Bool,
      Join.Free '\x01' (Names.sorted ((l.filter r).map txt)) := by
    intro r s hs hc
    obtain ⟨t,ht,-,rfl⟩ := (hmem r s).mp hs
    exact (hl t ht _ hc).elim (fun h => absurd h (by decide)) fun h => absurd h (by decide)
  have hempty : ∀ r : SARTuple → Bool, "" ∉ Names.sorted ((l.filter r).map txt) := by
    intro r hs
    obtain ⟨t,ht,-,hs⟩ := (hmem r "").mp hs
    exact hne t ht hs
  have hsorted := Join.joined_inj_of_ne_empty (hfree p) (hfree q) (hempty p) (hempty q) h
  have himp : ∀ r r' : SARTuple → Bool, Names.sorted ((l.filter r).map txt) =
      Names.sorted ((l.filter r').map txt) → ∀ t ∈ l, r t → r' t := by
    intro r r' hr t ht hrt
    obtain ⟨u,hu,hru,htu⟩ := (hmem r' (txt t)).mp (hr ▸ (hmem r (txt t)).mpr ⟨t,ht,hrt,rfl⟩)
    exact hinj u hu t ht htu ▸ hru
  apply List.filter_congr
  intro t ht
  exact Bool.eq_iff_iff.mpr ⟨himp p q hsorted t ht,himp q p hsorted.symm t ht⟩

end Keys

section Allowed

/-- The four parts of a key can be told apart. -/
theorem authKey_parts {a b : Allowed} (ha : ∀ t ∈ a.nodeClass, CleanTuple t ∧ t.ns = "")
    (hb : ∀ t ∈ b.nodeClass, CleanTuple t ∧ t.ns = "")
    (ha' : ∀ t ∈ a.dynamic, CleanTuple t ∧ t.ns = "") (hb' : ∀ t ∈ b.dynamic, CleanTuple t ∧ t.ns = "")
    (hac : ∀ t ∈ a.calico, CleanTuple t) (hbc : ∀ t ∈ b.calico, CleanTuple t)
    (h : authKey a = authKey b) : nodeClassTuplesKey a.nodeClass = nodeClassTuplesKey b.nodeClass ∧
      nodeClassTuplesKey a.dynamic = nodeClassTuplesKey b.dynamic ∧
      sarTuplesKey a.calico = sarTuplesKey b.calico ∧
      sarTuplesKey a.secrets = sarTuplesKey b.secrets := by
  have hone : ∀ {l : List SARTuple}, (∀ t ∈ l, CleanTuple t ∧ t.ns = "") → ∀ c : Char, ¬KeyChar c →
      c ∉ (nodeClassTuplesKey l).toList :=
    fun hl c hc hm => hc (tuplesKey_char (fun t ht d hd => nodeClassTupleText_char (hl t ht).1 hd) hm)
  have htwo : ∀ {l : List SARTuple}, (∀ t ∈ l, CleanTuple t) → ∀ c : Char, ¬KeyChar c →
      c ∉ (sarTuplesKey l).toList :=
    fun hl c hc hm => hc (tuplesKey_char (fun t ht d hd => sarTupleText_char (hl t ht) hd) hm)
  have h₂ : ¬KeyChar '\x02' := by unfold KeyChar; decide
  have h₃ : ¬KeyChar '\x03' := by unfold KeyChar; decide
  have h₄ : ¬KeyChar '\x04' := by unfold KeyChar; decide
  have hsplit : ∀ a : Allowed, authKey a = nodeClassTuplesKey a.nodeClass++String.singleton '\x02'++
      (nodeClassTuplesKey a.dynamic++String.singleton '\x03'++
        (sarTuplesKey a.calico++String.singleton '\x04'++sarTuplesKey a.secrets)) := by
    intro a
    simp only [authKey, String.append_assoc]
  rw [hsplit, hsplit] at h
  have hclass := Join.part_inj (hone ha _ h₂) (hone hb _ h₂) h
  have hdynamic := Join.part_inj (hone ha' _ h₃) (hone hb' _ h₃) hclass.2
  have hcalico := Join.part_inj (htwo hac _ h₄) (htwo hbc _ h₄) hdynamic.2
  exact ⟨hclass.1,hdynamic.1,hcalico.1,hcalico.2⟩

variable {nodes : List (Node Data)}

theorem mem_nodeClassRBACTuples {t : SARTuple} (h : t ∈ nodeClassRBACTuples nodes) :
    t.ns = "" ∧ ∃ n ∈ nodes, t ∈ nodeTuples n := by
  obtain ⟨n,hn,ht⟩ := List.mem_flatMap.mp (Names.mem_distinctFrom.mp h).1
  refine ⟨?_,n,(List.mem_filter.mp hn).1,by simp [nodeTuples, ht]⟩
  unfold rbacTuplesForNodeClass at ht
  split_ifs at ht <;> simp_all

theorem mem_dynamicRBACTuples {t : SARTuple} (h : t ∈ clusterScopedDynamicRBACTuples nodes) :
    t.ns = "" ∧ ∃ n ∈ nodes, t ∈ nodeTuples n := by
  obtain ⟨n,hn,ht⟩ := List.mem_filterMap.mp (Names.mem_distinctFrom.mp h).1
  refine ⟨?_,n,hn,by simp [nodeTuples, ht]⟩
  unfold clusterScopedDynamicTuple at ht
  split_ifs at ht
  obtain rfl := Option.some.inj ht
  rfl

theorem mem_calicoRBACTuples {t : SARTuple} (h : t ∈ topologyCalicoRBACTuples nodes) :
    ∃ n ∈ nodes, t ∈ nodeTuples n := by
  obtain ⟨n,hn,ht⟩ := List.mem_flatMap.mp (Names.mem_distinctFrom.mp h).1
  exact ⟨n,hn,by simp [nodeTuples, ht]⟩

theorem mem_secretRBACTuples {t : SARTuple} (h : t ∈ secretRBACTuples nodes) :
    ∃ n ∈ nodes, t ∈ nodeTuples n := by
  have hm := (List.perm_insertionSort _ _).mem_iff.mp h
  obtain ⟨n,hn,rfl⟩ := List.mem_map.mp (Names.mem_distinctFrom.mp hm).1
  exact ⟨n,(List.mem_filter.mp hn).1,by simp [nodeTuples]⟩

/-- A client's allowed tuples are selected from those of the graph. -/
theorem allowed_selected (nodes : List (Node Data)) (authorize : Authorizer) :
    ∃ p q r s : SARTuple → Bool, allowedTuples nodes authorize =
      ⟨(nodeClassRBACTuples nodes).filter p,(clusterScopedDynamicRBACTuples nodes).filter q,
        (topologyCalicoRBACTuples nodes).filter r,(secretRBACTuples nodes).filter s⟩ := by
  cases authorize with
  | none =>
    refine ⟨nodeClassAuthorizer none,nodeClassAuthorizer none,fun _ => false,fun _ => false,?_⟩
    simp only [List.filter_false]
    rfl
  | some f => exact ⟨_,_,_,_,rfl⟩

/-- The key of a client's allowed tuples tells what they are. -/
theorem authKey_inj (hclean : CleanNodes nodes) {f g : Authorizer}
    (h : authKey (allowedTuples nodes f) = authKey (allowedTuples nodes g)) :
    allowedTuples nodes f = allowedTuples nodes g := by
  obtain ⟨p,q,r,s,hf⟩ := allowed_selected nodes f
  obtain ⟨p',q',r',s',hg⟩ := allowed_selected nodes g
  have hclass : ∀ t ∈ nodeClassRBACTuples nodes, CleanTuple t ∧ t.ns = "" := by
    intro t ht
    obtain ⟨hns,n,hn,htn⟩ := mem_nodeClassRBACTuples ht
    exact ⟨hclean n hn t htn,hns⟩
  have hdynamic : ∀ t ∈ clusterScopedDynamicRBACTuples nodes, CleanTuple t ∧ t.ns = "" := by
    intro t ht
    obtain ⟨hns,n,hn,htn⟩ := mem_dynamicRBACTuples ht
    exact ⟨hclean n hn t htn,hns⟩
  have hcalico : ∀ t ∈ topologyCalicoRBACTuples nodes, CleanTuple t := by
    intro t ht
    obtain ⟨n,hn,htn⟩ := mem_calicoRBACTuples ht
    exact hclean n hn t htn
  have hsecret : ∀ t ∈ secretRBACTuples nodes, CleanTuple t := by
    intro t ht
    obtain ⟨n,hn,htn⟩ := mem_secretRBACTuples ht
    exact hclean n hn t htn
  rw [hf, hg] at h ⊢
  obtain ⟨h₁,h₂,h₃,h₄⟩ := authKey_parts
    (fun t ht => hclass t (List.mem_filter.mp ht).1) (fun t ht => hclass t (List.mem_filter.mp ht).1)
    (fun t ht => hdynamic t (List.mem_filter.mp ht).1)
    (fun t ht => hdynamic t (List.mem_filter.mp ht).1)
    (fun t ht => hcalico t (List.mem_filter.mp ht).1)
    (fun t ht => hcalico t (List.mem_filter.mp ht).1) h
  have hone : ∀ l : List SARTuple, (∀ t ∈ l, CleanTuple t ∧ t.ns = "") → ∀ p q : SARTuple → Bool,
      nodeClassTuplesKey (l.filter p) = nodeClassTuplesKey (l.filter q) →
      l.filter p = l.filter q := by
    intro l hl p q
    apply tuplesKey_inj
    · exact fun t ht u hu htu =>
        nodeClassTupleText_inj (hl t ht).1 (hl u hu).1 (hl t ht).2 (hl u hu).2 htu
    · exact fun t ht c hc => nodeClassTupleText_char (hl t ht).1 hc
    · exact fun t _ => nodeClassTupleText_ne_empty t
  have htwo : ∀ l : List SARTuple, (∀ t ∈ l, CleanTuple t) → ∀ p q : SARTuple → Bool,
      sarTuplesKey (l.filter p) = sarTuplesKey (l.filter q) → l.filter p = l.filter q := by
    intro l hl p q
    apply tuplesKey_inj
    · exact fun t ht u hu htu => sarTupleText_inj (hl t ht) (hl u hu) htu
    · exact fun t ht c hc => sarTupleText_char (hl t ht) hc
    · exact fun t _ => sarTupleText_ne_empty t
  rw [hone _ hclass p p' h₁, hone _ hdynamic q q' h₂, htwo _ hcalico r r' h₃, htwo _ hsecret s s' h₄]

end Allowed

section Kinds

theorem get_shown {deny hidden : List String} {d : Data} {key : String}
    (hc : key ≠ coverageField) (hs : key ≠ statusField) :
    Topology.get (d.map (shownFields deny hidden)) key = Topology.get d key := by
  cases d with
  | none => rfl
  | some m =>
    simp only [Topology.get, Option.map_some, Option.bind_some, shownFields]
    cases visibleRefs deny (m coverageField) <;> split_ifs <;>
      simp [Function.update_of_ne hc, Function.update_of_ne hs]

/-- Withholding leaves alone the fields that tuples are made of. -/
theorem nodeTuples_shown (deny hidden : List String) (n : Node Data) :
    nodeTuples { n with data := n.data.map (shownFields deny hidden) } = nodeTuples n := by
  have hget : ∀ key, key ≠ coverageField → key ≠ statusField →
      Topology.get (n.data.map (shownFields deny hidden)) key = Topology.get n.data key :=
    fun key hc hs => get_shown hc hs
  have htext : ∀ key, key ≠ coverageField → key ≠ statusField →
      text (n.data.map (shownFields deny hidden)) key = text n.data key := by
    intro key hc hs
    rw [text, text, hget key hc hs]
  have hns := htext "namespace" (by decide) (by decide)
  have hversion := htext "apiVersion" (by decide) (by decide)
  have hversions := hget "apiVersions" (by decide) (by decide)
  have hresource := htext "resource" (by decide) (by decide)
  have hscoped := htext "clusterScopedResource" (by decide) (by decide)
  have hgroup := htext "clusterScopedGroup" (by decide) (by decide)
  have hvers : calicoNodeAPIVersions { n with data := n.data.map (shownFields deny hidden) } =
      calicoNodeAPIVersions n := by
    simp only [calicoNodeAPIVersions]
    rw [hversion, hversions]
  unfold nodeTuples rbacTuplesForNodeClass clusterScopedDynamicTuple calicoPolicyRBACTuples
    secretTuple nodeNamespaceFromData nodeAPIGroupFromData calicoNodeAPIGroups
  dsimp only
  rw [hvers, hns, hversion, hresource, hscoped, hgroup]

theorem dropIDs_clean {g : Topology.Graph} (h : CleanNodes g.nodes) (deny : List String) :
    CleanNodes (dropIDs deny g).nodes := by
  unfold dropIDs
  split_ifs
  · exact h
  · intro n hn
    obtain ⟨m,hm,rfl⟩ := List.mem_map.mp hn
    rw [nodeTuples_shown]
    exact h m (List.mem_filter.mp hm).1

/-- Kinds without a comma are told apart by their key. -/
theorem deniedKindsKey_inj {d d' : List String} (hd : Join.Free ',' d ∧ "" ∉ d)
    (hd' : Join.Free ',' d' ∧ "" ∉ d') (h : deniedKindsKey d = deniedKindsKey d') (k : String) :
    k ∈ d ↔ k ∈ d' := by
  have hmem : ∀ (d : List String) (k : String),
      k ∈ Names.sorted (Names.distinctFrom [] d) ↔ k ∈ d := by
    intro d k
    rw [Names.mem_sorted, Names.mem_distinctFrom]
    simp
  have hfree : ∀ {d : List String}, Join.Free ',' d →
      Join.Free ',' (Names.sorted (Names.distinctFrom [] d)) :=
    fun hd s hs => hd s ((hmem _ s).mp hs)
  have hsorted := Join.joined_inj_of_ne_empty (hfree hd.1) (hfree hd'.1)
    (fun he => hd.2 ((hmem _ _).mp he)) (fun he => hd'.2 ((hmem _ _).mp he)) h
  rw [← hmem d, ← hmem d', hsorted]

end Kinds

end Radar.Sse
