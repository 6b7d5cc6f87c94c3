import Mathlib.Data.Fintype.EquivFin
import Radar.Sse.FrameKeys

/-!
# Shared frames equal private ones

Every operation on a topology computes a function of its graph and leaves
what others hold as it was, so a cycle's frames are those of a cycle without
sharing. There they are right exactly when no two clients with one group key
have different namespace filters.
-/

set_option autoImplicit false

namespace Radar.Sse

open Radar.Topology Radar.Strip Radar.Grouping

section Unshared

/-- The strips of a frame, on its graph. -/
def dropUnauthorized (a : Allowed) (g : Topology.Graph) : Topology.Graph :=
  drop (secretDenied a.secrets) (dropCalico a.calico
    (drop (clusterScopedDynamicDenied a.dynamic) (drop (nodeClassDenied a.nodeClass) g)))

def dropKinds (deny : List String) (g : Topology.Graph) : Topology.Graph := drop (fun n => n.kind ∈ deny) g

/-- The frame a graph gives a client. -/
def shownTo (deny : List String) (authorize : Authorizer) (g : Topology.Graph) : Topology.Graph :=
  dropUnauthorized (allowedTuples (dropKinds deny g).nodes authorize) (dropKinds deny g)

/-- Nothing in use has changed. -/
structure Untouched (h h' : Heap) : Prop where
  data : Store.Keeps (fun _ => False) h.data h'.data
  nodes : Store.Keeps (fun _ => False) h.nodes h'.nodes
  edges : Store.Keeps (fun _ => False) h.edges h'.edges

theorem Untouched.trans {h h' h'' : Heap} (ha : Untouched h h') (hb : Untouched h' h'') :
    Untouched h h'' :=
  ⟨ha.data.trans hb.data,ha.nodes.trans hb.nodes,ha.edges.trans hb.edges⟩

theorem untouched_refl (h : Heap) : Untouched h h :=
  ⟨Store.keeps_refl _,Store.keeps_refl _,Store.keeps_refl _⟩

/-- The topology reads as before. -/
theorem content_untouched {h h' : Heap} {t : Topology} (ho : Owned h t) (hu : Untouched h h') :
    content h' t = content h t ∧ Owned h' t := by
  have hnodes : nodesOf h' t = nodesOf h t := by
    rw [nodesOf, nodesOf, hu.nodes.cell _ ho.nodes id]
  have hedges : edgesOf h' t = edgesOf h t := by
    rw [edgesOf, edgesOf, hu.edges.cell _ ho.edges id]
  constructor
  · rw [content, content, views, views, hnodes, hedges, map_view_keeps ho.data hu.data]
  · refine ⟨Nat.lt_of_lt_of_le ho.nodes hu.nodes.next,Nat.lt_of_lt_of_le ho.edges hu.edges.next,?_⟩
    rw [hnodes]
    exact fun n hn => below_keeps (ho.data n hn) hu.data

/-- Fresh arrays, then operations on them: what was there before is untouched. -/
theorem untouched_of_new {h h' h'' : Heap} {t : Topology} (hu : Untouched h h')
    (hn : h.nodes.next ≤ t.nodes.addr) (he : h.edges.next ≤ t.edges.addr) (hk : Keeps t h' h'') :
    Untouched h h'' where
  data := hu.data.trans hk.data
  nodes := by
    refine ⟨Nat.le_trans hu.nodes.next hk.nodes.next,fun a ha _ => ?_⟩
    rw [hk.nodes.cell a (Nat.lt_of_lt_of_le ha hu.nodes.next)
      (Nat.ne_of_lt (Nat.lt_of_lt_of_le ha hn)), hu.nodes.cell a ha id]
  edges := by
    refine ⟨Nat.le_trans hu.edges.next hk.edges.next,fun a ha _ => ?_⟩
    rw [hk.edges.cell a (Nat.lt_of_lt_of_le ha hu.edges.next)
      (Nat.ne_of_lt (Nat.lt_of_lt_of_le ha he)), hu.edges.cell a ha id]

theorem cloneTopology_spec {h : Heap} {t : Topology} (ho : Owned h t) :
    content (cloneTopology h t).2 (cloneTopology h t).1 = content h t ∧
    Owned (cloneTopology h t).2 (cloneTopology h t).1 ∧ Untouched h (cloneTopology h t).2 := by
  have hnodes : nodesOf (cloneTopology h t).2 (cloneTopology h t).1 = nodesOf h t := by
    simp only [nodesOf, cloneTopology, Store.alloc_cell, List.take_length]
  have hedges : edgesOf (cloneTopology h t).2 (cloneTopology h t).1 = edgesOf h t := by
    simp only [edgesOf, cloneTopology, Store.alloc_cell, List.take_length]
  refine ⟨?_,⟨Nat.lt_succ_self _,Nat.lt_succ_self _,?_⟩,
    ⟨Store.keeps_refl _,Store.keeps_alloc _ _,Store.keeps_alloc _ _⟩⟩
  · rw [content, views, hnodes, hedges]
    rfl
  · rw [hnodes]
    exact ho.data

theorem stripUnauthorized_refines {h : Heap} {t : Topology} (ho : Owned h t) (a : Allowed) :
    Refines h t (stripUnauthorized h t a) (dropUnauthorized a (content h t)) := by
  have hclass := stripNodeClassesExcept_refines ho a.nodeClass
  have hdynamic := stripClusterScopedDynamicExcept_refines hclass.owned a.dynamic
  have hcalico := stripCalicoPoliciesExcept_refines hdynamic.owned a.calico
  have hsecrets := stripSecretsExcept_refines hcalico.owned a.secrets
  exact ((hclass.andThen hdynamic).andThen hcalico).andThen hsecrets

end Unshared

section Cycle

variable {order : MapOrder} {build : BuildOptions → Option Topology.Graph}

theorem allocNodes_spec (h : Heap) (ns : List (Node Data)) :
    (allocNodes h ns).1.map (view (allocNodes h ns).2) = ns ∧
    (∀ n ∈ (allocNodes h ns).1, Below (allocNodes h ns).2 n.data) ∧
    Untouched h (allocNodes h ns).2 := by
  induction ns generalizing h with
  | nil => exact ⟨rfl,(fun _ hn => by cases hn),untouched_refl h⟩
  | cons n ns ih =>
    cases hd : n.data with
    | none =>
      obtain ⟨hview,hbelow,hu⟩ := ih h
      simp only [allocNodes, hd]
      refine ⟨?_,fun m hm => ?_,hu⟩
      · rw [List.map_cons, hview, view, load, Option.map_none, ← hd]
      · cases List.mem_cons.mp hm with
        | inl heq => exact heq ▸ fun a ha => by cases ha
        | inr hm => exact hbelow m hm
    | some m =>
      have hown := own_alloc h m
      obtain ⟨hview,hbelow,hu⟩ := ih { h with data := (h.data.alloc m).2 }
      have hnew : Untouched h { h with data := (h.data.alloc m).2 } :=
        ⟨Store.keeps_alloc _ _,Store.keeps_refl _,Store.keeps_refl _⟩
      have hload := (load_keeps hown.below hu.data).trans hown.load
      simp only [allocNodes, hd]
      refine ⟨?_,fun x hx => ?_,hnew.trans hu⟩
      · rw [List.map_cons, hview, view, hload, ← hd]
      · cases List.mem_cons.mp hx with
        | inl heq => exact heq ▸ below_keeps hown.below hu.data
        | inr hx => exact hbelow x hx

theorem newTopology_spec (h : Heap) (g : Topology.Graph) :
    content (newTopology h g).2 (newTopology h g).1 = g ∧
    Owned (newTopology h g).2 (newTopology h g).1 ∧ Untouched h (newTopology h g).2 ∧
    h.nodes.next ≤ (newTopology h g).1.nodes.addr ∧
    h.edges.next ≤ (newTopology h g).1.edges.addr := by
  obtain ⟨hview,hbelow,hu⟩ := allocNodes_spec h g.nodes
  have hnodes : nodesOf (newTopology h g).2 (newTopology h g).1 = (allocNodes h g.nodes).1 := by
    simp only [nodesOf, newTopology, Store.alloc_cell, List.take_length]
  have hedges : edgesOf (newTopology h g).2 (newTopology h g).1 = g.edges := by
    simp only [edgesOf, newTopology, Store.alloc_cell, List.take_length]
  refine ⟨?_,⟨Nat.lt_succ_self _,Nat.lt_succ_self _,?_⟩,?_,hu.nodes.next,hu.edges.next⟩
  · rw [content, views, hnodes, hedges]
    exact congrArg (Topology.Graph.mk · g.edges g.remarks) hview
  · rw [hnodes]
    exact hbelow
  · exact ⟨hu.data,hu.nodes.trans (Store.keeps_alloc _ _),hu.edges.trans (Store.keeps_alloc _ _)⟩

/-- A build and the strip of the denied kinds. -/
theorem built_spec (h : Heap) (g : Topology.Graph) (deny : List String) :
    let r := newTopology h g
    let r' := stripNodeKinds r.2 r.1 deny
    content r'.2 r'.1 = dropKinds deny g ∧ Owned r'.2 r'.1 := by
  obtain ⟨hcontent,ho,-⟩ := newTopology_spec h g
  have hr := stripNodeKinds_refines ho deny
  rw [hcontent] at hr
  exact ⟨hr.content,hr.owned⟩

theorem frameAlone_eq (info : ClientInfo) : frameAlone build info =
    (build (clientOptions info.namespaces info.viewMode info.showPolicyEffect)).map
      (shownTo info.deniedKinds info.authorize) := by
  unfold frameAlone
  split
  · next hb => rw [hb]; rfl
  · next graph hb =>
    obtain ⟨hcontent,ho⟩ := built_spec emptyHeap graph info.deniedKinds
    rw [hb, Option.map_some, shownTo, ← hcontent]
    exact congrArg some (stripUnauthorized_refines ho _).content

/-- The frames of the clients that may see the same of a graph. -/
def authFrames (graph : Topology.Graph) (ag : AuthGroup) : Sent :=
  ag.members.map fun c => (c.ch,dropUnauthorized ag.head graph)

variable (order build) in
/-- The frames of one client group. -/
def groupFrames (g : ClientGroup) : Sent :=
  match build (clientOptions g.head.namespaces g.key.viewMode g.head.showPolicyEffect) with
  | none => []
  | some graph =>
    let shown := dropKinds g.head.deniedKinds graph
    (order.visit (.authGroups g.key) (nodeClassGroups order shown.nodes g)).flatMap
      (authFrames shown)

theorem sendFrame_sent {h : Heap} {topo : Topology} {st : Heap × Sent} (ho : Owned h topo)
    (hu : Untouched h st.1) (ag : AuthGroup) :
    (sendFrame topo st ag).2 = st.2++authFrames (content h topo) ag ∧
    Untouched h (sendFrame topo st ag).1 := by
  obtain ⟨hread,ho'⟩ := content_untouched ho hu
  obtain ⟨hclone,howned,hcopied⟩ := cloneTopology_spec ho'
  have hr := stripUnauthorized_refines howned ag.head
  rw [hclone, hread] at hr
  constructor
  · simp only [sendFrame, authFrames, hr.content]
  · have hn : st.1.nodes.next ≤ (cloneTopology st.1 topo).1.nodes.addr := Nat.le_refl _
    have he : st.1.edges.next ≤ (cloneTopology st.1 topo).1.edges.addr := Nat.le_refl _
    have hkept := untouched_of_new hcopied hn he hr.keeps
    simp only [sendFrame]
    exact hu.trans hkept

/-- However many frames were made of the graph before, the next is made of the same graph. -/
theorem sendFrames_sent {h : Heap} {topo : Topology} (ho : Owned h topo) (ags : List AuthGroup)
    {st : Heap × Sent} (hu : Untouched h st.1) :
    (ags.foldl (sendFrame topo) st).2 = st.2++ags.flatMap (authFrames (content h topo)) := by
  induction ags generalizing st with
  | nil => simp
  | cons ag ags ih =>
    obtain ⟨hsent,hu'⟩ := sendFrame_sent ho hu ag
    rw [List.foldl_cons, ih hu', hsent, List.flatMap_cons, List.append_assoc]

theorem sendGroup_sent (st : Heap × Sent) (g : ClientGroup) :
    (sendGroup order build st g).2 = st.2++groupFrames order build g := by
  unfold sendGroup groupFrames
  cases build (clientOptions g.head.namespaces g.key.viewMode g.head.showPolicyEffect) with
  | none => exact (List.append_nil _).symm
  | some graph =>
    obtain ⟨hcontent,ho⟩ := built_spec st.1 graph g.head.deniedKinds
    simp only [← hcontent]
    exact sendFrames_sent ho _ (untouched_refl _)

theorem broadcast_eq (clients : List Client) : broadcastTopologyUpdate order build clients =
    (order.visit .groups (clientGroups order clients)).flatMap (groupFrames order build) := by
  have hall : ∀ (gs : List ClientGroup) (st : Heap × Sent),
      (gs.foldl (sendGroup order build) st).2 = st.2++gs.flatMap (groupFrames order build) := by
    intro gs
    induction gs with
    | nil => simp
    | cons g gs ih =>
      intro st
      rw [List.foldl_cons, ih, sendGroup_sent, List.flatMap_cons, List.append_assoc]
  exact (hall _ _).trans (List.nil_append _)

end Cycle

section Shared

variable {order : MapOrder} {clients : List Client}

/-- Of clients on different channels, one is on a given channel. -/
theorem frames_of_channel {members : List Client} (hch : (members.map Client.ch).Nodup)
    {c : Client} (hc : c ∈ members) (v : Topology.Graph) :
    (members.map fun c => (c.ch,v)).filter (fun f => f.1 = c.ch) = [(c.ch,v)] := by
  have hone := filter_flatMap_one (f := fun c : Client => [(c.ch,v)])
    (q := fun f : ℕ × Topology.Graph => decide (f.1 = c.ch)) (List.Nodup.of_map _ hch) hc ?_
  · rw [← List.map_eq_flatMap] at hone
    simpa using hone
  · intro b hb hbc
    have hne : b.ch ≠ c.ch := fun h => hbc (List.inj_on_of_nodup_map hch hb hc h)
    simp [hne]

/-- Among the clients of one graph, each gets what it is authorized for. -/
theorem authFrames_of_channel {shown : Topology.Graph} (hshown : CleanNodes shown.nodes) {xs : List Client}
    {ags : List AuthGroup} (hags : Collected
      (fun c : Client => authKey (allowedTuples shown.nodes c.info.authorize))
      (fun c : Client => allowedTuples shown.nodes c.info.authorize) xs ags)
    (hch : (xs.map Client.ch).Nodup) {c : Client} (hc : c ∈ xs) :
    (ags.flatMap (authFrames shown)).filter (fun f => f.1 = c.ch) =
      [(c.ch,dropUnauthorized (allowedTuples shown.nodes c.info.authorize) shown)] := by
  obtain ⟨ag,hag,hagkey⟩ := hags.cover c hc
  have hmembers := hags.members ag hag
  have hagch : (ag.members.map Client.ch).Nodup := by
    rw [hmembers]
    exact hch.sublist (List.filter_sublist.map Client.ch)
  have hcag : c ∈ ag.members := by
    rw [hmembers]
    exact List.mem_filter.mpr ⟨hc,by simp [hagkey]⟩
  have hhead : ag.head = allowedTuples shown.nodes c.info.authorize := by
    obtain ⟨c',-,hc',hhead⟩ := hags.head ag hag
    rw [← hhead]
    exact authKey_inj hshown (hc'.trans hagkey)
  have hothers : ∀ b ∈ ags, b ≠ ag →
      (authFrames shown b).filter (fun f => f.1 = c.ch) = [] := by
    intro b hb hne
    rw [List.filter_eq_nil_iff]
    intro f hf hfc
    obtain ⟨d,hd,rfl⟩ := List.mem_map.mp hf
    rw [hags.members b hb] at hd
    obtain ⟨hd,hdk⟩ := List.mem_filter.mp hd
    obtain rfl := List.inj_on_of_nodup_map hch hd hc (of_decide_eq_true hfc)
    have hkeys : b.key = ag.key := (of_decide_eq_true hdk).symm.trans hagkey.symm
    exact hne (List.inj_on_of_nodup_map hags.nodup hb hag hkeys)
  rw [filter_flatMap_one (List.Nodup.of_map _ hags.nodup) hag hothers, authFrames,
    frames_of_channel hagch hcag, hhead]

/-- A group sends to its own clients only. -/
theorem groupFrames_channel {build : BuildOptions → Option Topology.Graph} {g : ClientGroup}
    {f : ℕ × Topology.Graph} (hf : f ∈ groupFrames order build g) : ∃ c ∈ g.members, c.ch = f.1 := by
  unfold groupFrames at hf
  split at hf
  · nomatch hf
  · next graph hb =>
    obtain ⟨ag,hag,hf⟩ := List.mem_flatMap.mp hf
    obtain ⟨c,hc,rfl⟩ := List.mem_map.mp hf
    have hags := (order.perm (.authGroups g.key) _).mem_iff.mp hag
    rw [(collect_collected _ _ _).members ag hags] at hc
    exact ⟨c,(order.perm (.members g.key) _).mem_iff.mp (List.mem_filter.mp hc).1,rfl⟩

/-- The frame that the clients of one group get, for each of them. -/
theorem groupFrames_of_channel (order : MapOrder) {xs : List Client} {gs : List ClientGroup}
    (hgs : Collected (fun c => clientKey c.info) groupHead xs gs)
    (hch : (xs.map Client.ch).Nodup) {g : ClientGroup} (hg : g ∈ gs) {c : Client} (hc : c ∈ xs)
    (hkey : g.key = clientKey c.info) {build : BuildOptions → Option Topology.Graph}
    (hclean : ∀ o graph, build o = some graph → CleanNodes graph.nodes) :
    ((groupFrames order build g).filter fun f => f.1 = c.ch).map Prod.snd =
      ((build (clientOptions g.head.namespaces c.info.viewMode g.head.showPolicyEffect)).map
        (shownTo g.head.deniedKinds c.info.authorize)).toList := by
  have hview : g.key.viewMode = c.info.viewMode := by rw [hkey]; rfl
  have hmembers := hgs.members g hg
  have hvisit := order.perm (.members g.key) g.members
  have hcm : c ∈ order.visit (.members g.key) g.members := by
    rw [hvisit.mem_iff, hmembers]
    exact List.mem_filter.mpr ⟨hc,by simp [hkey]⟩
  have hchm : ((order.visit (.members g.key) g.members).map Client.ch).Nodup := by
    rw [(hvisit.map Client.ch).nodup_iff, hmembers]
    exact hch.sublist (List.filter_sublist.map Client.ch)
  rw [groupFrames, hview]
  cases hb : build (clientOptions g.head.namespaces c.info.viewMode g.head.showPolicyEffect) with
  | none => rfl
  | some graph =>
    have hshown : CleanNodes (dropKinds g.head.deniedKinds graph).nodes :=
      dropIDs_clean (hclean _ _ hb) _
    have hags := (collect_collected
      (fun c : Client =>
        authKey (allowedTuples (dropKinds g.head.deniedKinds graph).nodes c.info.authorize))
      (fun c : Client => allowedTuples (dropKinds g.head.deniedKinds graph).nodes c.info.authorize)
      (order.visit (.members g.key) g.members)).perm (order.perm (.authGroups g.key) _)
    exact congrArg (List.map Prod.snd) (authFrames_of_channel hshown hags hchm hcm)

/-- A cycle gives the clients with one key the frame of one of them, each authorized for itself. -/
theorem queued_shared (order : MapOrder) (hch : (clients.map Client.ch).Nodup) {c : Client}
    (hc : c ∈ clients) : ∃ x ∈ clients, clientKey x.info = clientKey c.info ∧
      ∀ d ∈ clients, clientKey d.info = clientKey c.info →
        ∀ build : BuildOptions → Option Topology.Graph,
          (∀ o graph, build o = some graph → CleanNodes graph.nodes) →
          queued (broadcastTopologyUpdate order build clients) d.ch =
            ((build (clientOptions x.info.namespaces d.info.viewMode x.info.showPolicyEffect)).map
              (shownTo x.info.deniedKinds d.info.authorize)).toList := by
  have hvisit := order.perm .clients clients
  have hgs : Collected (fun c : Client => clientKey c.info) groupHead
      (order.visit .clients clients) (order.visit .groups (clientGroups order clients)) :=
    (collect_collected _ _ _).perm (order.perm .groups _)
  have hchv : ((order.visit .clients clients).map Client.ch).Nodup :=
    (hvisit.map Client.ch).nodup_iff.mpr hch
  obtain ⟨g,hg,hkey⟩ := hgs.cover c (hvisit.mem_iff.mpr hc)
  obtain ⟨x,hx,hxkey,hhead⟩ := hgs.head g hg
  refine ⟨x,hvisit.mem_iff.mp hx,hxkey.trans hkey,fun d hd hdkey build hclean => ?_⟩
  have hdv := hvisit.mem_iff.mpr hd
  have hothers : ∀ b ∈ order.visit .groups (clientGroups order clients), b ≠ g →
      (groupFrames order build b).filter (fun f => f.1 = d.ch) = [] := by
    intro b hb hne
    rw [List.filter_eq_nil_iff]
    intro f hf hfd
    obtain ⟨e,he,hef⟩ := groupFrames_channel hf
    rw [hgs.members b hb] at he
    obtain ⟨he,hek⟩ := List.mem_filter.mp he
    obtain rfl := List.inj_on_of_nodup_map hchv he hdv (hef.trans (of_decide_eq_true hfd))
    have hkeys : b.key = g.key := (of_decide_eq_true hek).symm.trans (hdkey.trans hkey.symm)
    exact hne (List.inj_on_of_nodup_map hgs.nodup hb hg hkeys)
  have hframes := groupFrames_of_channel order hgs hchv hg hdv
    (hkey.trans hdkey.symm) hclean
  rw [broadcast_eq, queued, filter_flatMap_one (List.Nodup.of_map _ hgs.nodup) hg hothers, hframes,
    ← hhead]
  rfl

theorem dropKinds_congr {d d' : List String} (h : ∀ k, k ∈ d ↔ k ∈ d') (g : Topology.Graph) :
    dropKinds d g = dropKinds d' g := by
  have hpred : (fun n : Node Data => decide (n.kind ∈ d)) = fun n => decide (n.kind ∈ d') := by
    ext n
    simp [h n.kind]
  rw [dropKinds, dropKinds, hpred]

/-- Of filters by proper names, the key confuses only nil and the empty list. -/
theorem filters_alike {c d : ClientInfo}
    (hc : Join.Free ',' (c.namespaces.getD []) ∧ "" ∉ c.namespaces.getD [])
    (hd : Join.Free ',' (d.namespaces.getD []) ∧ "" ∉ d.namespaces.getD [])
    (h : clientKey c = clientKey d) : c.namespaces.getD [] = d.namespaces.getD [] :=
  Join.joined_inj_of_ne_empty hc.1 hd.1 hc.2 hd.2 (congrArg ClientKey.namespacesKey h)

/-- No two clients with one key have different namespace filters. -/
def NamespacesTold (clients : List Client) : Prop :=
  ∀ c ∈ clients, ∀ d ∈ clients, clientKey c.info = clientKey d.info →
    c.info.namespaces = d.info.namespaces

end Shared

section Probe

/-- A graph of one node of an ordinary kind. -/
def probeGraph (kind : String) : Topology.Graph := ⟨[⟨"probe",kind,"probe","healthy",none⟩],[],{}⟩

theorem drop_none {denied : Node Data → Bool} {g : Topology.Graph} (h : ∀ n ∈ g.nodes, denied n = false) :
    drop denied g = g := by
  have hids : deniedIDs denied g.nodes = [] := by
    rw [deniedIDs, List.map_eq_nil_iff, List.filter_eq_nil_iff]
    intro n hn
    simp [h n hn]
  rw [drop, hids, dropIDs, if_pos rfl]

theorem exists_fresh (l : List String) : ∃ s, s ∉ l := by
  have : Infinite String :=
    Infinite.of_injective (fun n : ℕ => toString n) fun _ _ h => Decimal.nat_text_inj h
  obtain ⟨s,hs⟩ := Infinite.exists_notMem_finset l.toFinset
  exact ⟨s,fun hm => hs (List.mem_toFinset.mpr hm)⟩

/-- The kinds a strip may remove whatever is denied. -/
def strippedKinds : List String :=
  kindNodeClass::kindSecret::calicoPolicyDefinitions.map CalicoPolicyDefinition.nodeKind

theorem shownTo_probe {kind : String} (hk : kind ∉ strippedKinds) {deny : List String}
    (hd : kind ∉ deny) (authorize : Authorizer) :
    shownTo deny authorize (probeGraph kind) = probeGraph kind := by
  simp only [strippedKinds, List.mem_cons, not_or] at hk
  obtain ⟨hclass,hsecret,hcalico⟩ := hk
  have hnotCalico : isCalicoPolicyKind kind = false := by
    rw [isCalicoPolicyKind, List.any_eq_false]
    intro d hdef hkd
    exact hcalico (of_decide_eq_true hkd ▸ List.mem_map_of_mem hdef)
  have hprobe : ∀ denied : Node Data → Bool,
      denied ⟨"probe",kind,"probe","healthy",none⟩ = false →
      drop denied (probeGraph kind) = probeGraph kind := by
    intro denied h
    apply drop_none
    intro n hn
    rw [List.mem_singleton.mp hn, h]
  have hkinds : dropKinds deny (probeGraph kind) = probeGraph kind := hprobe _ (by simp [hd])
  have hdropCalico : ∀ allowed, dropCalico allowed (probeGraph kind) = probeGraph kind := by
    intro allowed
    have hdata : readvertisedData allowed ⟨"probe",kind,"probe","healthy",none⟩ = none := by
      unfold readvertisedData
      split_ifs
      · rfl
      · split <;> rfl
    have hsame : mapData (readvertisedData allowed) (probeGraph kind) = probeGraph kind := by
      simp only [mapData, probeGraph, List.map_cons, List.map_nil, hdata]
    rw [dropCalico, hsame]
    exact hprobe _ (by simp [calicoPolicyDenied, hnotCalico])
  rw [shownTo, hkinds, dropUnauthorized, hprobe _ (by simp [nodeClassDenied, hclass]),
    hprobe _ (by simp [clusterScopedDynamicDenied, clusterScopedDynamicTuple, text, Topology.get]),
    hdropCalico, hprobe _ (by simp [secretDenied, hsecret])]

theorem probeGraph_clean (kind : String) : CleanNodes (probeGraph kind).nodes := by
  intro n hn t ht
  obtain rfl := List.mem_singleton.mp hn
  have hcalico : calicoPolicyRBACTuples ⟨"probe",kind,"probe","healthy",none⟩ = none := by
    unfold calicoPolicyRBACTuples
    split
    · rfl
    · simp [calicoNodeAPIGroups, calicoNodeAPIVersions, text, Topology.get, Names.distinctFrom]
  have hsecret : t = ⟨"","secrets",""⟩ := by
    simpa [nodeTuples, hcalico, rbacTuplesForNodeClass, clusterScopedDynamicTuple, secretTuple,
      nodeNamespaceFromData, nodeAPIGroupFromData, text, Topology.get, groupFromAPIVersion] using ht
  rw [hsecret]
  exact ⟨clean_of_all rfl,clean_of_all rfl,clean_of_all rfl⟩

theorem shownTo_empty (deny : List String) (authorize : Authorizer) :
    shownTo deny authorize ⟨[],[],{}⟩ = ⟨[],[],{}⟩ := by
  have hdrop : ∀ denied : Node Data → Bool, drop denied ⟨[],[],{}⟩ = ⟨[],[],{}⟩ :=
    fun denied => drop_none fun n hn => by cases hn
  have hcalico : ∀ allowed, dropCalico allowed ⟨[],[],{}⟩ = ⟨[],[],{}⟩ := fun allowed => rfl
  rw [shownTo, dropKinds, hdrop, dropUnauthorized, hdrop, hdrop, hcalico, hdrop]

/-- The frames of every cycle are those of each client alone, whatever clean graphs are built,
exactly when no two clients with one key have different namespace filters. -/
theorem frames_shared (order : MapOrder) (clients : List Client)
    (hch : (clients.map Client.ch).Nodup)
    (hkinds : ∀ c ∈ clients, Join.Free ',' c.info.deniedKinds ∧ "" ∉ c.info.deniedKinds) :
    (∀ build : BuildOptions → Option Topology.Graph,
      (∀ o graph, build o = some graph → CleanNodes graph.nodes) → ∀ c ∈ clients,
        queued (broadcastTopologyUpdate order build clients) c.ch =
          (frameAlone build c.info).toList) ↔ NamespacesTold clients := by
  constructor
  · intro hall
    -- the first client's namespaces, asked of every other by a build that tells them apart
    have hfirst : ∀ c ∈ clients, ∀ x ∈ clients, (∀ build : BuildOptions → Option Topology.Graph,
        (∀ o graph, build o = some graph → CleanNodes graph.nodes) →
        queued (broadcastTopologyUpdate order build clients) c.ch =
          ((build (clientOptions x.info.namespaces c.info.viewMode x.info.showPolicyEffect)).map
            (shownTo x.info.deniedKinds c.info.authorize)).toList) →
        c.info.namespaces = x.info.namespaces := by
      intro c hc x hx hshared
      obtain ⟨kind,hkind⟩ := exists_fresh
        (strippedKinds++(c.info.deniedKinds++x.info.deniedKinds))
      simp only [List.mem_append, not_or] at hkind
      let build : BuildOptions → Option Topology.Graph := fun o =>
        some (if o.namespaces = x.info.namespaces then probeGraph kind else ⟨[],[],{}⟩)
      have hclean : ∀ o graph, build o = some graph → CleanNodes graph.nodes := by
        intro o graph hb
        obtain rfl := Option.some.inj hb
        split_ifs
        · exact probeGraph_clean kind
        · exact fun n hn => nomatch hn
      have heq := (hshared build hclean).symm.trans (hall build hclean c hc)
      have hx' : build (clientOptions x.info.namespaces c.info.viewMode x.info.showPolicyEffect) =
          some (probeGraph kind) := congrArg some (if_pos rfl)
      rw [frameAlone_eq, hx', Option.map_some, shownTo_probe hkind.1 hkind.2.2] at heq
      by_contra hne
      have hc' : build (clientOptions c.info.namespaces c.info.viewMode c.info.showPolicyEffect) =
          some ⟨[],[],{}⟩ := congrArg some (if_neg hne)
      rw [hc', Option.map_some, shownTo_empty] at heq
      have hnodes := congrArg Topology.Graph.nodes (List.singleton_inj.mp heq)
      nomatch hnodes
    intro c hc d hd hkey
    obtain ⟨x,hx,hxkey,hshared⟩ := queued_shared order hch hd
    exact (hfirst c hc x hx (hshared c hc hkey)).trans (hfirst d hd x hx (hshared d hd rfl)).symm
  · intro htold build hclean c hc
    obtain ⟨x,hx,hkey,hqueued⟩ := queued_shared order hch hc
    have hqueued := hqueued c hc rfl
    have hns := htold x hx c hc hkey
    have hpolicy : x.info.showPolicyEffect = c.info.showPolicyEffect :=
      congrArg ClientKey.showPolicyEffect hkey
    have hdenied := deniedKindsKey_inj (hkinds x hx) (hkinds c hc)
      (congrArg ClientKey.deniedKindsKey hkey)
    have hshown : shownTo x.info.deniedKinds c.info.authorize =
        shownTo c.info.deniedKinds c.info.authorize := by
      ext1 g
      rw [shownTo, shownTo, dropKinds_congr hdenied]
    rw [hqueued build hclean, hns, hpolicy, hshown, frameAlone_eq]

instance (clients : List Client) : Decidable (NamespacesTold clients) :=
  inferInstanceAs (Decidable (∀ c ∈ clients, ∀ d ∈ clients, clientKey c.info = clientKey d.info →
    c.info.namespaces = d.info.namespaces))

def inOrder : MapOrder := ⟨fun _ _ l => l,fun _ _ l => List.Perm.refl l⟩

/-- One client of all namespaces, and one of two that may not see nodes. -/
def twoClients : List Client :=
  [⟨0,subscribe none "full" [] none false⟩,⟨1,subscribe (some ["b","a"]) "full" ["Node"] none false⟩]

theorem frames_shared_two : NamespacesTold twoClients ∧
    ∀ build : BuildOptions → Option Topology.Graph,
      (∀ o graph, build o = some graph → CleanNodes graph.nodes) → ∀ c ∈ twoClients,
        queued (broadcastTopologyUpdate inOrder build twoClients) c.ch =
          (frameAlone build c.info).toList :=
  ⟨by decide,(frames_shared inOrder twoClients (by decide) (by decide)).mpr (by decide)⟩

/-- One client of all namespaces, and one of none. -/
def allAndNone : List Client :=
  [⟨0,subscribe none "full" [] none false⟩,⟨1,subscribe (some []) "full" [] none false⟩]

/-- A cluster with one pod, in the namespace `a`. -/
def onePod (o : BuildOptions) : Option Topology.Graph :=
  some (if matchesNamespace o.namespaces "a" then probeGraph "Pod" else ⟨[],[],{}⟩)

theorem none_gets_all :
    ¬∀ (order : MapOrder) (clients : List Client) (build : BuildOptions → Option Topology.Graph),
      (clients.map Client.ch).Nodup →
      (∀ o graph, build o = some graph → CleanNodes graph.nodes) → ∀ c ∈ clients,
        queued (broadcastTopologyUpdate order build clients) c.ch =
          (frameAlone build c.info).toList := by
  intro h
  have hclean : ∀ o graph, onePod o = some graph → CleanNodes graph.nodes := by
    intro o graph ho
    obtain rfl := Option.some.inj ho
    split_ifs
    · exact probeGraph_clean "Pod"
    · exact fun n hn => nomatch hn
  have heq := h inOrder allAndNone onePod (by decide) hclean
    ⟨1,subscribe (some []) "full" [] none false⟩ (by simp [allAndNone])
  have hsizes := congrArg (List.map fun g => g.nodes.length) heq
  exact absurd hsizes (by decide)

end Probe

end Radar.Sse
