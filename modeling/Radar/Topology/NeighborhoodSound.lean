import Mathlib.Data.List.Induction
import Mathlib.Data.List.Nodup
import Radar.Topology.Neighborhood

/-!
# What denied nodes do to a neighborhood

The walk goes over the allowed nodes and the edges between them, as if there
were no others. The root is looked for among all nodes.
-/

set_option autoImplicit false

namespace Radar.Topology

def UniqueIDs (t : Graph) : Prop := (t.nodes.map (·.id)).Nodup

section Visible

variable (allow : Node Data → Bool) (t : Graph)

def allowedIDs : List String := (t.nodes.filter allow).map (·.id)

/-- An edge between allowed nodes. -/
def inner (e : Edge) : Bool := e.source ∈ allowedIDs allow t && e.target ∈ allowedIDs allow t

/-- What is left of a graph without its denied nodes and the edges that touch them. -/
def visible : Graph :=
  { t with nodes := t.nodes.filter allow, edges := t.edges.filter (inner allow t) }

end Visible

section Maps

variable {nodes : List (Node Data)} {n : Node Data} {id : String}

theorem nodeByID_eq_some (h : (nodes.map (·.id)).Nodup) :
    nodeByID nodes id = some n ↔ n ∈ nodes ∧ n.id = id := by
  unfold nodeByID
  constructor
  · intro hlast
    have hin := List.mem_of_getLast? hlast
    rw [List.mem_filter] at hin
    exact ⟨hin.1,of_decide_eq_true hin.2⟩
  · rintro ⟨hn,rfl⟩
    have hin : n ∈ nodes.filter fun m => m.id = n.id := List.mem_filter.mpr ⟨hn,decide_eq_true rfl⟩
    obtain ⟨m,hm⟩ : ∃ m, (nodes.filter fun m => m.id = n.id).getLast? = some m :=
      ⟨_,List.getLast?_eq_some_getLast (List.ne_nil_of_mem hin)⟩
    have hlast := List.mem_filter.mp (List.mem_of_getLast? hm)
    have hsame := List.inj_on_of_nodup_map h hlast.1 hn (of_decide_eq_true hlast.2)
    rw [hm, hsame]

theorem nodeByID_none (h : (nodes.map (·.id)).Nodup) (hn : nodeByID nodes id = none) :
    ∀ n ∈ nodes, n.id ≠ id := by
  intro n hin he
  rw [(nodeByID_eq_some h).mpr ⟨hin,he⟩] at hn
  nomatch hn

theorem filter_unique (h : (nodes.map (·.id)).Nodup) (p : Node Data → Bool) :
    ((nodes.filter p).map (·.id)).Nodup :=
  h.sublist (List.filter_sublist.map _)

theorem indexEdge_outgoing (slots : String → NodeEdgeSlots) (e : Edge) (id : String) :
    (indexEdge slots e id).outgoing =
      (slots id).outgoing++[e].filter (fun e => decide (e.source = id) && decide (id ≠ "")) := by
  unfold indexEdge
  by_cases hs : id = e.source
  · by_cases ht : id = e.target <;> by_cases hid : id = "" <;> grind
  · by_cases ht : id = e.target <;> by_cases hid : e.target = "" <;> grind

theorem indexEdge_incoming (slots : String → NodeEdgeSlots) (e : Edge) (id : String) :
    (indexEdge slots e id).incoming =
      (slots id).incoming++[e].filter (fun e => decide (e.target = id) && decide (id ≠ "")) := by
  unfold indexEdge
  by_cases ht : id = e.target
  · by_cases hs : id = e.source <;> by_cases hid : id = "" <;> grind
  · by_cases hs : id = e.source <;> by_cases hid : e.source = "" <;> grind

/-- The index has of a node the edges that leave it and those that reach it. -/
theorem indexByResource_edges (edges : List Edge) (id : String) :
    (indexByResource edges id).outgoing =
        edges.filter (fun e => decide (e.source = id) && decide (id ≠ "")) ∧
      (indexByResource edges id).incoming =
        edges.filter (fun e => decide (e.target = id) && decide (id ≠ "")) := by
  unfold indexByResource
  induction edges using List.reverseRecOn with
  | nil => exact ⟨rfl,rfl⟩
  | append_singleton edges e ih =>
    rw [List.foldl_append, List.foldl_cons, List.foldl_nil, indexEdge_outgoing, indexEdge_incoming,
      ih.1, ih.2, List.filter_append, List.filter_append]
    exact ⟨rfl,rfl⟩

theorem neighbors_touch {edges : List Edge} {types : List String} {e : Edge}
    (h : e ∈ neighbors (indexByResource edges) types id) : e.source = id ∨ e.target = id := by
  obtain ⟨hout,hin⟩ := indexByResource_edges edges id
  rw [neighbors, hout, hin, List.mem_append, List.mem_filter, List.mem_filter, List.mem_filter,
    List.mem_filter] at h
  rcases h with ⟨⟨_,h⟩,_⟩ | ⟨⟨_,h⟩,_⟩
  · exact .inl (by simpa using (Bool.and_eq_true_iff.mp h).1)
  · exact .inr (by simpa using (Bool.and_eq_true_iff.mp h).1)

/-- The index of some of the edges has some of the neighbors. -/
theorem neighbors_filter (edges : List Edge) (types : List String) (id : String)
    (p : Edge → Bool) : neighbors (indexByResource (edges.filter p)) types id =
      (neighbors (indexByResource edges) types id).filter p := by
  obtain ⟨hout,hin⟩ := indexByResource_edges edges id
  obtain ⟨hout',hin'⟩ := indexByResource_edges (edges.filter p) id
  rw [neighbors, neighbors, hout, hin, hout', hin', List.filter_append]
  simp only [List.filter_filter]
  congr 1 <;> exact List.filter_congr fun e _ => by grind

end Maps

section Walks

variable {allow : Node Data → Bool} {t : Graph} {budget : ℕ} {w v : Walk} {id : String} {e : Edge}

/-- A walk over the whole graph beside one over what is visible of it. -/
structure Beside (allow : Node Data → Bool) (t : Graph) (w v : Walk) : Prop where
  order : w.order = v.order
  next : w.next = v.next
  truncated : w.truncated = v.truncated
  inside : ∀ x ∈ w.order, x ∈ allowedIDs allow t
  frontier : ∀ x ∈ w.next, x ∈ allowedIDs allow t
  denied : ∀ x ∈ w.denied, x ∉ allowedIDs allow t
  none : v.denied = []

/-- The other end of an edge. -/
def Edge.other (e : Edge) (id : String) : String := if e.source = id then e.target else e.source

theorem inner_iff (hid : id ∈ allowedIDs allow t) (he : e.source = id ∨ e.target = id) :
    inner allow t e = true ↔ e.other id ∈ allowedIDs allow t := by
  unfold inner Edge.other
  rcases he with rfl | rfl
  · simp [hid]
  · by_cases hs : e.source = e.target
    · simp [hs]
    · simp [hs, hid]

theorem mem_allowedIDs : id ∈ allowedIDs allow t ↔ ∃ n ∈ t.nodes, allow n = true ∧ n.id = id := by
  simp only [allowedIDs, List.mem_map, List.mem_filter, and_assoc]

/-- The node of an allowed id is the same in what is visible. -/
theorem nodeByID_visible (h : UniqueIDs t) (hid : id ∈ allowedIDs allow t) :
    ∃ n, allow n = true ∧ nodeByID t.nodes id = some n ∧
      nodeByID (visible allow t).nodes id = some n := by
  obtain ⟨n,hn,hallow,rfl⟩ := mem_allowedIDs.mp hid
  refine ⟨n,hallow,(nodeByID_eq_some h).mpr ⟨hn,rfl⟩,?_⟩
  exact (nodeByID_eq_some (filter_unique h allow)).mpr ⟨List.mem_filter.mpr ⟨hn,hallow⟩,rfl⟩

/-- An edge to a node that is not allowed leads nowhere. -/
theorem visit_outer (h : UniqueIDs t) (hb : Beside allow t w v)
    (he : e.other id ∉ allowedIDs allow t) :
    Beside allow t (w.visit allow budget t.nodes id e) v := by
  have hout : e.other id ∉ w.order := fun hin => he (hb.inside _ hin)
  have hother : (if e.source = id then e.target else e.source) = e.other id := rfl
  unfold Walk.visit
  simp only [hother]
  rw [if_neg hout]
  by_cases hdenied : e.other id ∈ w.denied
  · rw [if_pos hdenied]
    exact hb
  · rw [if_neg hdenied]
    cases hnode : nodeByID t.nodes (e.other id) with
    | none => exact hb
    | some n =>
      have hn := (nodeByID_eq_some h).mp hnode
      have hallow : allow n = false := by
        by_contra hn'
        exact he (mem_allowedIDs.mpr ⟨n,hn.1,by simpa using hn',hn.2⟩)
      simp only [hallow, Bool.not_false, if_true]
      refine { hb with denied := fun x hx => ?_ }
      rcases List.mem_append.mp hx with hx | hx
      · exact hb.denied x hx
      · rw [List.mem_singleton.mp hx]
        exact he

theorem visit_inner (h : UniqueIDs t) (hb : Beside allow t w v)
    (he : e.other id ∈ allowedIDs allow t) :
    Beside allow t (w.visit allow budget t.nodes id e)
      (v.visit allow budget (visible allow t).nodes id e) := by
  obtain ⟨n,hallow,hnode,hnode'⟩ := nodeByID_visible h he
  obtain ⟨order,next,truncated,denied⟩ := w
  obtain ⟨order',next',truncated',denied'⟩ := v
  have horder : order = order' := hb.order
  have hnext : next = next' := hb.next
  have htruncated : truncated = truncated' := hb.truncated
  have hnone : denied' = [] := hb.none
  subst horder hnext htruncated hnone
  have hdenied : e.other id ∉ denied := fun hin => hb.denied _ hin he
  have hother : (if e.source = id then e.target else e.source) = e.other id := rfl
  unfold Walk.visit
  simp only [hother]
  rw [hnode, hnode']
  by_cases hin : e.other id ∈ order
  · rw [if_pos hin, if_pos hin]
    exact hb
  · rw [if_neg hin, if_neg hin, if_neg hdenied, if_neg List.not_mem_nil]
    simp only [hallow, Bool.not_true, Bool.false_eq_true, if_false]
    by_cases hfull : budget ≤ order.length
    · rw [if_pos hfull, if_pos hfull]
      exact { hb with truncated := rfl }
    · rw [if_neg hfull, if_neg hfull]
      have hgrown : ∀ {ids : List String}, (∀ x ∈ ids, x ∈ allowedIDs allow t) →
          ∀ x ∈ ids++[e.other id], x ∈ allowedIDs allow t := by
        intro ids hids x hx
        rcases List.mem_append.mp hx with hx | hx
        · exact hids x hx
        · rw [List.mem_singleton.mp hx]
          exact he
      exact { hb with
        order := rfl
        next := rfl
        inside := hgrown hb.inside
        frontier := hgrown hb.frontier }

/-- The edges of one node, beside those that are visible. -/
theorem visits_beside (h : UniqueIDs t) (hid : id ∈ allowedIDs allow t) (es : List Edge)
    (hes : ∀ e ∈ es, e.source = id ∨ e.target = id) (hb : Beside allow t w v) :
    Beside allow t (es.foldl (Walk.visit allow budget t.nodes id) w)
      ((es.filter (inner allow t)).foldl
        (Walk.visit allow budget (visible allow t).nodes id) v) := by
  induction es generalizing w v with
  | nil => exact hb
  | cons e es ih =>
    have htail : ∀ d ∈ es, d.source = id ∨ d.target = id :=
      fun d hd => hes d (List.mem_cons_of_mem e hd)
    have hiff := inner_iff hid (hes e List.mem_cons_self)
    by_cases he : inner allow t e = true
    · rw [List.filter_cons_of_pos he, List.foldl_cons, List.foldl_cons]
      exact ih htail (visit_inner h hb (hiff.mp he))
    · rw [List.filter_cons_of_neg he, List.foldl_cons]
      exact ih htail (visit_outer h hb fun hin => he (hiff.mpr hin))

variable (types : List String)

theorem level_beside (h : UniqueIDs t) (frontier : List String)
    (hf : ∀ x ∈ frontier, x ∈ allowedIDs allow t) (hb : Beside allow t w v) :
    Beside allow t
      (w.level allow budget t.nodes (neighbors (indexByResource t.edges) types) frontier)
      (v.level allow budget (visible allow t).nodes
        (neighbors (indexByResource (visible allow t).edges) types) frontier) := by
  induction frontier generalizing w v with
  | nil => exact hb
  | cons id frontier ih =>
    have hone := @visits_beside _ _ budget _ _ _ h (hf id List.mem_cons_self)
      (neighbors (indexByResource t.edges) types id) (fun e he => neighbors_touch he) hb
    have hsame : neighbors (indexByResource (visible allow t).edges) types id =
        (neighbors (indexByResource t.edges) types id).filter (inner allow t) :=
      neighbors_filter t.edges types id _
    unfold Walk.level
    rw [hsame]
    have htruncated := hone.truncated
    by_cases htrue : ((neighbors (indexByResource t.edges) types id).foldl
        (Walk.visit allow budget t.nodes id) w).truncated = true
    · simp only [htrue, if_true, htruncated.symm]
      exact hone
    · have hfalse := htrue
      rw [htruncated] at hfalse
      simp only [htrue, hfalse]
      exact ih (fun x hx => hf x (List.mem_cons_of_mem id hx)) hone

theorem hops_beside (h : UniqueIDs t) (n : ℕ) (hb : Beside allow t w v) :
    Beside allow t
      (w.hops allow budget t.nodes (neighbors (indexByResource t.edges) types) n)
      (v.hops allow budget (visible allow t).nodes
        (neighbors (indexByResource (visible allow t).edges) types) n) := by
  induction n generalizing w v with
  | zero => exact hb
  | succ n ih =>
    have hstart : Beside allow t { w with next := [] } { v with next := [] } :=
      { hb with next := rfl, frontier := (by simp) }
    have hlevel := @level_beside _ _ budget _ _ types h w.next hb.frontier hstart
    unfold Walk.hops
    rw [← hb.next]
    simp only [hlevel.truncated, hlevel.next]
    split_ifs
    · exact hlevel
    · exact ih hlevel

end Walks

section Grows

variable {allow : Node Data → Bool} {budget : ℕ} {nodes : List (Node Data)} {id x : String}
  {w : Walk}

theorem visit_grows (e : Edge) (hx : x ∈ w.order) : x ∈ (w.visit allow budget nodes id e).order := by
  unfold Walk.visit
  generalize (if e.source = id then e.target else e.source) = other
  by_cases horder : other ∈ w.order
  · rwa [if_pos horder]
  by_cases hdenied : other ∈ w.denied
  · rwa [if_neg horder, if_pos hdenied]
  rw [if_neg horder, if_neg hdenied]
  cases nodeByID nodes other with
  | none => exact hx
  | some candidate =>
    dsimp only
    split_ifs
    · exact hx
    · exact hx
    · exact List.mem_append_left _ hx

theorem visits_grows (es : List Edge) (hx : x ∈ w.order) :
    x ∈ (es.foldl (Walk.visit allow budget nodes id) w).order := by
  induction es generalizing w with
  | nil => exact hx
  | cons e es ih => exact ih (visit_grows e hx)

variable (edgesOf : String → List Edge)

theorem level_grows (frontier : List String) (hx : x ∈ w.order) :
    x ∈ (w.level allow budget nodes edgesOf frontier).order := by
  induction frontier generalizing w with
  | nil => exact hx
  | cons id frontier ih =>
    have hone := @visits_grows allow budget nodes id _ _ (edgesOf id) hx
    unfold Walk.level
    dsimp only
    split_ifs
    · exact hone
    · exact ih hone

/-- A node that is included stays so. -/
theorem hops_grows (n : ℕ) (hx : x ∈ w.order) :
    x ∈ (w.hops allow budget nodes edgesOf n).order := by
  induction n generalizing w with
  | zero => exact hx
  | succ n ih =>
    have hlevel : x ∈ (Walk.level allow budget nodes edgesOf { w with next := [] } w.next).order :=
      level_grows edgesOf w.next hx
    unfold Walk.hops
    dsimp only
    split_ifs
    · exact hlevel
    · exact ih hlevel

end Grows

/-- The graphs of one observer: their allowed nodes and the edges between these are the same. -/
structure SameAllowed (allow : Node Data → Bool) (t t' : Graph) : Prop where
  nodes : t.nodes.filter allow = t'.nodes.filter allow
  edges : t.edges.filter (inner allow t) = t'.edges.filter (inner allow t')

/-- What a neighborhood shows, but for the number of the denied nodes. -/
structure SameShown (a b : Subgraph) : Prop where
  nodes : a.nodes = b.nodes
  edges : a.edges = b.edges
  truncated : a.truncated = b.truncated
  ambiguousRoot : a.ambiguousRoot = b.ambiguousRoot

section Expansion

variable {opts : NeighborhoodOptions} {t t' : Graph} {r : Node Data} {sub sub' : Subgraph}

theorem SameAllowed.symm {allow : Node Data → Bool} (h : SameAllowed allow t t') :
    SameAllowed allow t' t := ⟨h.nodes.symm,h.edges.symm⟩

theorem SameAllowed.mem {allow : Node Data → Bool} {n : Node Data} (h : SameAllowed allow t t')
    (hn : n ∈ t.nodes) (ha : allow n = true) : n ∈ t'.nodes := by
  have hin : n ∈ t.nodes.filter allow := List.mem_filter.mpr ⟨hn,ha⟩
  rw [h.nodes] at hin
  exact (List.mem_filter.mp hin).1

/-- The walk shows what it would show if nothing else were there. -/
theorem expand_visible (h : UniqueIDs t) (hr : r ∈ t.nodes) (ha : opts.allow r = true)
    (hambiguous : sub.ambiguousRoot = sub'.ambiguousRoot) :
    SameShown (expand opts t r sub) (expand opts (visible opts.allow t) r sub') := by
  have hroot : r.id ∈ allowedIDs opts.allow t := mem_allowedIDs.mpr ⟨r,hr,ha,rfl⟩
  have hstart : Beside opts.allow t { order := [r.id], next := [r.id] }
      { order := [r.id], next := [r.id] } :=
    { order := rfl
      next := rfl
      truncated := rfl
      inside := fun x hx => by
        rw [List.mem_singleton.mp hx]
        exact hroot
      frontier := fun x hx => by
        rw [List.mem_singleton.mp hx]
        exact hroot
      denied := nofun
      none := rfl }
  have hb := @hops_beside _ _ opts.budget _ _ (edgeTypesForProfile opts.profile r.kind) h
    opts.boundedHops hstart
  generalize hw : Walk.hops opts.allow opts.budget t.nodes
    (neighbors (indexByResource t.edges) (edgeTypesForProfile opts.profile r.kind))
    { order := [r.id], next := [r.id] } opts.boundedHops = w at hb
  generalize hv : Walk.hops opts.allow opts.budget (visible opts.allow t).nodes
    (neighbors (indexByResource (visible opts.allow t).edges)
      (edgeTypesForProfile opts.profile r.kind))
    { order := [r.id], next := [r.id] } opts.boundedHops = v at hb
  have hthis : expand opts t r sub =
      { sub with
        nodes := w.order.filterMap fun id => (nodeByID t.nodes id).map redact
        edges := t.edges.filter fun e => e.type ∈ edgeTypesForProfile opts.profile r.kind &&
          e.source ∈ w.order && e.target ∈ w.order
        truncated := w.truncated, rbacDenied := w.denied.length } := by
    rw [← hw]
    rfl
  have hthat : expand opts (visible opts.allow t) r sub' =
      { sub' with
        nodes := v.order.filterMap fun id => (nodeByID (visible opts.allow t).nodes id).map redact
        edges := (t.edges.filter (inner opts.allow t)).filter fun e =>
          e.type ∈ edgeTypesForProfile opts.profile r.kind && e.source ∈ v.order &&
            e.target ∈ v.order
        truncated := v.truncated, rbacDenied := v.denied.length } := by
    rw [← hv]
    rfl
  rw [hthis, hthat, ← hb.order]
  refine ⟨List.filterMap_congr fun id hid => ?_,?_,hb.truncated,hambiguous⟩
  · obtain ⟨n,_,hnode,hnode'⟩ := nodeByID_visible h (hb.inside id hid)
    rw [hnode, hnode']
  · show t.edges.filter _ = _
    rw [List.filter_filter]
    refine List.filter_congr fun e _ => ?_
    by_cases hs : e.source ∈ w.order
    · by_cases ht : e.target ∈ w.order
      · simp [inner, hb.inside _ hs, hb.inside _ ht]
      · simp [ht]
    · simp [hs]

theorem SameShown.trans {a b c : Subgraph} (h : SameShown a b) (k : SameShown b c) :
    SameShown a c :=
  ⟨h.nodes.trans k.nodes,h.edges.trans k.edges,h.truncated.trans k.truncated,
    h.ambiguousRoot.trans k.ambiguousRoot⟩

theorem SameShown.symm {a b : Subgraph} (h : SameShown a b) : SameShown b a :=
  ⟨h.nodes.symm,h.edges.symm,h.truncated.symm,h.ambiguousRoot.symm⟩

theorem expand_same (h : SameAllowed opts.allow t t') (hu : UniqueIDs t) (hu' : UniqueIDs t')
    (hr : r ∈ t.nodes) (ha : opts.allow r = true) :
    SameShown (expand opts t r sub) (expand opts t' r sub) := by
  have hsame : expand opts (visible opts.allow t) r sub =
      expand opts (visible opts.allow t') r sub := by
    unfold expand visible
    rw [h.nodes, h.edges]
  have hone := @expand_visible _ _ _ sub sub hu hr ha rfl
  rw [hsame] at hone
  exact hone.trans (expand_visible hu' (h.mem hr ha) ha rfl).symm

end Expansion

section Resolution

variable {u : Unicode} {root : ResourceRef} {nodes : List (Node Data)} {n : Node Data}

/-- The node is the root, by its id or as the last of the nodes that match, of which all have the
same API group. -/
theorem findNodeByRefFrom_spec (found : Option (Node Data)) :
    findNodeByRefFrom u root found nodes = (some n,false) ↔
      (found.toList++nodes.filter (matchesRef u root)).getLast? = some n ∧
        ∀ m ∈ found.toList++nodes.filter (matchesRef u root),
          nodeAPIGroupFromData m = nodeAPIGroupFromData n := by
  induction nodes generalizing found with
  | nil =>
    cases found with
    | none => simp [findNodeByRefFrom]
    | some m =>
      simp only [findNodeByRefFrom, Prod.mk.injEq, and_true, Option.toList_some, List.filter_nil,
        List.append_nil, List.getLast?_singleton, List.mem_singleton, forall_eq]
      constructor
      · intro hm
        rw [Option.some.inj hm]
        exact ⟨rfl,rfl⟩
      · exact fun hm => hm.1
  | cons m nodes ih =>
    unfold findNodeByRefFrom
    by_cases hm : matchesRef u root m = true
    · rw [if_neg (by simp [hm]), List.filter_cons_of_pos hm]
      cases found with
      | none =>
        rw [ih]
        rfl
      | some d =>
        by_cases hgroup : nodeAPIGroupFromData m = nodeAPIGroupFromData d
        · simp only [hgroup, ne_eq, not_true_eq_false, if_false]
          rw [ih]
          simp only [Option.toList_some, List.singleton_append, List.getLast?_cons_cons,
            List.mem_cons, forall_eq_or_imp, hgroup]
          constructor
          · rintro ⟨hlast,hd,hrest⟩
            exact ⟨hlast,hd,hd,hrest⟩
          · rintro ⟨hlast,hd,_,hrest⟩
            exact ⟨hlast,hd,hrest⟩
        · simp only [ne_eq, hgroup, not_false_eq_true, if_true, Prod.mk.injEq, reduceCtorEq,
            false_and, false_iff, not_and]
          intro _ hall
          refine hgroup ?_
          rw [hall m (by simp), hall d (by simp)]
    · rw [if_pos (by simp [hm]), List.filter_cons_of_neg hm]
      exact ih found

theorem findNodeByRef_spec :
    findNodeByRef u root nodes = (some n,false) ↔
      (nodes.filter (matchesRef u root)).getLast? = some n ∧
        ∀ m ∈ nodes.filter (matchesRef u root),
          nodeAPIGroupFromData m = nodeAPIGroupFromData n :=
  findNodeByRefFrom_spec none

/-- The node with the id of the reference stands for it, or the nodes that match it are searched. -/
theorem resolveRoot_spec (h : (nodes.map (·.id)).Nodup) :
    resolveRoot u root nodes = (some n,false) ↔
      n ∈ nodes ∧ namesRoot u root n = true ∨
        (∀ m ∈ nodes, namesRoot u root m = false) ∧ findNodeByRef u root nodes = (some n,false) := by
  unfold resolveRoot
  cases hnode : nodeByID nodes (buildNodeID u root.kind root.ns root.name) with
  | none =>
    have hids := nodeByID_none h hnode
    have hnone : ∀ m ∈ nodes, namesRoot u root m = false := by
      intro m hm
      simp [namesRoot, hids m hm]
    constructor
    · exact fun hfind => .inr ⟨hnone,hfind⟩
    · rintro (⟨hn,hnames⟩ | ⟨_,hfind⟩)
      · cases (hnone n hn).symm.trans hnames
      · exact hfind
  | some m =>
    obtain ⟨hm,hid⟩ := (nodeByID_eq_some h).mp hnode
    have honly : ∀ d ∈ nodes, namesRoot u root d = true → d = m := by
      intro d hd hnames
      have hdid : d.id = m.id := by
        rw [hid]
        exact of_decide_eq_true (Bool.and_eq_true_iff.mp hnames).1
      exact List.inj_on_of_nodup_map h hd hm hdid
    have hnames : namesRoot u root m =
        if root.group = "" then nodeIsCanonicalBuiltin m else nodeMatchesAPIGroup u m root.group := by
      simp [namesRoot, hid]
    have hsearch : namesRoot u root m = false →
        (findNodeByRef u root nodes = (some n,false) ↔ n ∈ nodes ∧ namesRoot u root n = true ∨
          (∀ m ∈ nodes, namesRoot u root m = false) ∧
            findNodeByRef u root nodes = (some n,false)) := by
      intro hfalse
      have hnone : ∀ d ∈ nodes, namesRoot u root d = false := by
        intro d hd
        by_contra hn
        have hsame := honly d hd (by simpa using hn)
        rw [hsame, hfalse] at hn
        exact hn rfl
      constructor
      · exact fun hfind => .inr ⟨hnone,hfind⟩
      · rintro (⟨hn,htrue⟩ | ⟨_,hfind⟩)
        · cases (hnone n hn).symm.trans htrue
        · exact hfind
    have hthere : namesRoot u root m = true → ((some m,false) = (some n,false) ↔
        n ∈ nodes ∧ namesRoot u root n = true ∨ (∀ m ∈ nodes, namesRoot u root m = false) ∧
          findNodeByRef u root nodes = (some n,false)) := by
      intro htrue
      constructor
      · intro hsame
        obtain rfl := Option.some.inj (Prod.mk.inj hsame).1
        exact .inl ⟨hm,htrue⟩
      · rintro (⟨hn,hn'⟩ | ⟨hnone,_⟩)
        · rw [honly n hn hn']
        · cases (hnone m hm).symm.trans htrue
    show (if root.group ≠ "" ∧ nodeMatchesAPIGroup u m root.group = false then _
      else if root.group = "" ∧ nodeIsCanonicalBuiltin m = false then _ else _) = _ ↔ _
    by_cases hgroup : root.group = ""
    · rw [if_neg fun hn => hn.1 hgroup]
      rw [if_pos hgroup] at hnames
      cases hcanonical : nodeIsCanonicalBuiltin m with
      | false =>
        rw [if_pos ⟨hgroup,rfl⟩]
        exact hsearch (hnames.trans hcanonical)
      | true =>
        rw [if_neg fun hn => by cases hn.2]
        exact hthere (hnames.trans hcanonical)
    · rw [if_neg hgroup] at hnames
      cases hmatches : nodeMatchesAPIGroup u m root.group with
      | false =>
        rw [if_pos ⟨hgroup,rfl⟩]
        exact hsearch (hnames.trans hmatches)
      | true =>
        rw [if_neg (by simp), if_neg (by simp [hgroup])]
        exact hthere (hnames.trans hmatches)

end Resolution

/-- No denied node takes part in how the reference is resolved: an allowed node has the id that it
is written with, or no denied one has and every denied node that matches it stands before an
allowed one that matches it too and has the same API group. -/
def Undisturbed (u : Unicode) (root : ResourceRef) (allow : Node Data → Bool)
    (nodes : List (Node Data)) : Prop :=
  (∃ n ∈ nodes, allow n = true ∧ namesRoot u root n = true) ∨
    (∀ n ∈ nodes, namesRoot u root n = true → allow n = true) ∧
      ∀ a d b, nodes = a++d::b → matchesRef u root d = true → allow d = false →
        ∃ n ∈ b, matchesRef u root n = true ∧ allow n = true ∧
          nodeAPIGroupFromData n = nodeAPIGroupFromData d

section Interference

variable {u : Unicode} {root : ResourceRef} {allow : Node Data → Bool} {n : Node Data}
  {nodes : List (Node Data)} {t t' : Graph}

theorem resolveRoot_mem (h : (nodes.map (·.id)).Nodup)
    (hr : resolveRoot u root nodes = (some n,false)) : n ∈ nodes := by
  rcases (resolveRoot_spec h).mp hr with ⟨hn,_⟩ | ⟨_,hfind⟩
  · exact hn
  · have hlast := List.mem_of_getLast? (findNodeByRef_spec.mp hfind).1
    exact (List.mem_filter.mp hlast).1

/-- The nodes before the last one have it behind them. -/
theorem last_behind {p : Node Data → Bool} {a b : List (Node Data)} {d : Node Data}
    (hlast : ((a++d::b).filter p).getLast? = some n) (hd : p d = true) : n = d ∨ n ∈ b := by
  rw [List.filter_append, List.filter_cons_of_pos hd, List.getLast?_append_cons] at hlast
  rcases List.mem_cons.mp (List.mem_of_getLast? hlast) with hn | hn
  · exact .inl hn
  · exact .inr (List.mem_filter.mp hn).1

theorem undisturbed_of_resolved (h : (nodes.map (·.id)).Nodup)
    (hr : resolveRoot u root nodes = (some n,false)) (ha : allow n = true) :
    Undisturbed u root allow nodes := by
  rcases (resolveRoot_spec h).mp hr with ⟨hn,hnames⟩ | ⟨hnone,hfind⟩
  · exact .inl ⟨n,hn,ha,hnames⟩
  · right
    obtain ⟨hlast,hgroups⟩ := findNodeByRef_spec.mp hfind
    refine ⟨fun m hm hnames => absurd hnames (by simp [hnone m hm]),?_⟩
    rintro a d b rfl hd hdenied
    have hn := List.mem_filter.mp (List.mem_of_getLast? hlast)
    have hgroup := hgroups d (List.mem_filter.mpr ⟨by simp,hd⟩)
    rcases last_behind hlast hd with hsame | hbehind
    · rw [hsame, hdenied] at ha
      cases ha
    · exact ⟨n,hbehind,hn.2,ha,hgroup.symm⟩

/-- Nothing that passes comes after the last that does. -/
theorem last_split {p : Node Data → Bool} {l : Node Data}
    (hlast : (nodes.filter p).getLast? = some l) :
    ∃ a b, nodes = a++l::b ∧ ∀ m ∈ b, p m = false := by
  obtain ⟨front,hfront⟩ := List.getLast?_eq_some_iff.mp hlast
  obtain ⟨a,b,rfl,_,hb⟩ := List.filter_eq_append_iff.mp hfront
  obtain ⟨c,d,rfl,_,_,hd⟩ := List.filter_eq_cons_iff.mp hb
  refine ⟨a++c,d,by simp,fun m hm => ?_⟩
  simpa using List.filter_eq_nil_iff.mp hd m hm

/-- The last that passes is the last that passes among the allowed, if it is allowed. -/
theorem last_allowed {p : Node Data → Bool} {l : Node Data}
    (hlast : (nodes.filter p).getLast? = some l) (hallow : allow l = true) :
    ((nodes.filter allow).filter p).getLast? = some l := by
  have hcomm : (nodes.filter allow).filter p = (nodes.filter p).filter allow := by
    rw [List.filter_filter, List.filter_filter]
    exact List.filter_congr fun m _ => Bool.and_comm _ _
  obtain ⟨front,hfront⟩ := List.getLast?_eq_some_iff.mp hlast
  rw [hcomm, hfront, List.filter_append, List.filter_cons_of_pos hallow, List.filter_nil,
    List.getLast?_concat]

/-- Where no denied node takes part, the reference resolves to the same node. -/
theorem resolved_of_undisturbed (hs : SameAllowed allow t t') (hu : UniqueIDs t)
    (hu' : UniqueIDs t') (hr : resolveRoot u root t.nodes = (some n,false)) (ha : allow n = true)
    (hundisturbed : Undisturbed u root allow t'.nodes) :
    resolveRoot u root t'.nodes = (some n,false) := by
  rw [resolveRoot_spec hu']
  rcases (resolveRoot_spec hu).mp hr with ⟨hn,hnames⟩ | ⟨hnone,hfind⟩
  · exact .inl ⟨hs.mem hn ha,hnames⟩
  · right
    have hnone' : ∀ m ∈ t'.nodes, namesRoot u root m = false := by
      intro m hm
      by_contra hn
      have hnames : namesRoot u root m = true := by simpa using hn
      rcases hundisturbed with ⟨d,hd,hdallow,hdnames⟩ | ⟨hallowed,_⟩
      · cases (hnone d (hs.symm.mem hd hdallow)).symm.trans hdnames
      · cases (hnone m (hs.symm.mem hm (hallowed m hm hnames))).symm.trans hnames
    have hbehind : ∀ a d b, t'.nodes = a++d::b → matchesRef u root d = true → allow d = false →
        ∃ m ∈ b, matchesRef u root m = true ∧ allow m = true ∧
          nodeAPIGroupFromData m = nodeAPIGroupFromData d := by
      rcases hundisturbed with ⟨d,hd,hdallow,hdnames⟩ | ⟨_,hbehind⟩
      · cases (hnone d (hs.symm.mem hd hdallow)).symm.trans hdnames
      · exact hbehind
    obtain ⟨hlast,hgroups⟩ := findNodeByRef_spec.mp hfind
    have hmatches := (List.mem_filter.mp (List.mem_of_getLast? hlast)).2
    have hin := resolveRoot_mem hu hr
    refine ⟨hnone',findNodeByRef_spec.mpr ⟨?_,fun m hm => ?_⟩⟩
    · have hthere : n ∈ t'.nodes.filter (matchesRef u root) :=
        List.mem_filter.mpr ⟨hs.mem hin ha,hmatches⟩
      obtain ⟨l,hl⟩ : ∃ l, (t'.nodes.filter (matchesRef u root)).getLast? = some l :=
        ⟨_,List.getLast?_eq_some_getLast (List.ne_nil_of_mem hthere)⟩
      have hlmatches := (List.mem_filter.mp (List.mem_of_getLast? hl)).2
      -- a denied node has an allowed one behind it, and is not the last
      have hlallow : allow l = true := by
        by_contra hn
        have hldenied : allow l = false := by simpa using hn
        obtain ⟨a,b,hsplit,hrest⟩ := last_split hl
        obtain ⟨m,hm,hmmatches,_⟩ := hbehind a l b hsplit hlmatches hldenied
        cases (hrest m hm).symm.trans hmmatches
      have hboth := last_allowed hl hlallow
      rw [← hs.nodes, last_allowed hlast ha] at hboth
      rw [hl, hboth]
    · obtain ⟨hmin,hmmatches⟩ := List.mem_filter.mp hm
      by_cases hmallow : allow m = true
      · exact hgroups m (List.mem_filter.mpr ⟨hs.symm.mem hmin hmallow,hmmatches⟩)
      · obtain ⟨a,b,hsplit⟩ := List.append_of_mem hmin
        obtain ⟨d,hd,hdmatches,hdallow,hgroup⟩ := hbehind a m b hsplit hmmatches
          (by simpa using hmallow)
        have hdin : d ∈ t'.nodes := by
          rw [hsplit]
          exact List.mem_append_right a (List.mem_cons_of_mem m hd)
        rw [← hgroup]
        exact hgroups d (List.mem_filter.mpr ⟨hs.symm.mem hdin hdallow,hdmatches⟩)

/-- A neighborhood of a root that passes the gate has the root in it. -/
theorem expand_root {opts : NeighborhoodOptions} {sub : Subgraph} (hu : UniqueIDs t)
    (hn : n ∈ t.nodes) : (expand opts t n sub).nodes ≠ [] := by
  have hnode : nodeByID t.nodes n.id = some n := (nodeByID_eq_some hu).mpr ⟨hn,rfl⟩
  have hin : redact n ∈ (expand opts t n sub).nodes := by
    apply List.mem_filterMap.mpr
    refine ⟨n.id,hops_grows _ _ (List.mem_singleton.mpr rfl),?_⟩
    rw [hnode, Option.map_some]
  exact List.ne_nil_of_mem hin

section Build

variable {opts : NeighborhoodOptions}

/-- What is shown of a root that passes the gate starts with that root. -/
def rootSubgraph (root : ResourceRef) (n : Node Data) : Subgraph :=
  { root :=
      { kind := kubernetesKindForNode n
        ns := nodeNamespaceFromData n
        name := n.name
        group := if root.group = "" then nodeGroup n else root.group } }

theorem buildNeighborhood_resolved (hr : resolveRoot u root t.nodes = (some n,false))
    (ha : opts.allow n = true) :
    buildNeighborhood u root opts t = expand opts t n (rootSubgraph root n) := by
  unfold buildNeighborhood
  rw [hr]
  simp only [ha, Bool.not_true, Bool.false_eq_true, if_false]
  rfl

/-- A neighborhood with a node in it has a root that was resolved and passed the gate. -/
theorem resolved_of_shown (hnodes : (buildNeighborhood u root opts t).nodes ≠ []) :
    ∃ n, resolveRoot u root t.nodes = (some n,false) ∧ opts.allow n = true := by
  unfold buildNeighborhood at hnodes
  cases hr : resolveRoot u root t.nodes with
  | mk found ambiguous =>
    rw [hr] at hnodes
    cases ambiguous with
    | true => exact absurd rfl hnodes
    | false =>
      cases found with
      | none => exact absurd rfl hnodes
      | some n =>
        refine ⟨n,rfl,?_⟩
        by_contra ha
        dsimp only at hnodes
        rw [if_pos (by simp [ha])] at hnodes
        exact hnodes rfl

/-- The graph in which the root is resolved to an allowed node, beside another one. -/
theorem noninterference_of_resolved (hu : UniqueIDs t) (hu' : UniqueIDs t')
    (hs : SameAllowed opts.allow t t') (hr : resolveRoot u root t.nodes = (some n,false))
    (ha : opts.allow n = true) :
    SameShown (buildNeighborhood u root opts t) (buildNeighborhood u root opts t') ↔
      Undisturbed u root opts.allow t.nodes ∧ Undisturbed u root opts.allow t'.nodes := by
  have hn : n ∈ t.nodes := resolveRoot_mem hu hr
  have hthis := undisturbed_of_resolved hu hr ha
  constructor
  · intro hshown
    have hnodes : (buildNeighborhood u root opts t').nodes ≠ [] := by
      rw [← hshown.nodes, buildNeighborhood_resolved hr ha]
      exact expand_root hu hn
    obtain ⟨m,hr',ha'⟩ := resolved_of_shown hnodes
    exact ⟨hthis,undisturbed_of_resolved hu' hr' ha'⟩
  · rintro ⟨_,hthat⟩
    have hr' := resolved_of_undisturbed hs hu hu' hr ha hthat
    rw [buildNeighborhood_resolved hr ha, buildNeighborhood_resolved hr' ha]
    exact expand_same hs hu hu' hn ha

end Build

/-- Two graphs with the same allowed part show the same neighborhood of a root that is allowed in
one of them, exactly where no denied node of either takes part in how the root is resolved. -/
theorem neighborhood_noninterference {opts : NeighborhoodOptions} (hu : UniqueIDs t)
    (hu' : UniqueIDs t') (hs : SameAllowed opts.allow t t')
    (hr : ∃ n, opts.allow n = true ∧ (resolveRoot u root t.nodes = (some n,false) ∨
      resolveRoot u root t'.nodes = (some n,false))) :
    SameShown (buildNeighborhood u root opts t) (buildNeighborhood u root opts t') ↔
      Undisturbed u root opts.allow t.nodes ∧ Undisturbed u root opts.allow t'.nodes := by
  obtain ⟨n,ha,hr | hr⟩ := hr
  · exact noninterference_of_resolved hu hu' hs hr ha
  · have hturned := noninterference_of_resolved hu' hu hs.symm hr ha
    constructor
    · exact fun hshown => (hturned.mp hshown.symm).symm
    · exact fun hboth => (hturned.mpr hboth.symm).symm

/-- The folding of `strings` on ASCII. -/
def ascii : Unicode where
  toLower s := String.ofList (s.toList.map Char.toLower)
  equalFold s s' := s.toList.map Char.toLower = s'.toList.map Char.toLower

def nodeOf (id kind apiVersion : String) : Node Data where
  id := id
  kind := kind
  name := "db"
  status := "healthy"
  data := some fun key =>
    if key = "namespace" then some (.str "prod")
    else if key = "apiVersion" then some (.str apiVersion)
    else none

def webPod : Node Data := nodeOf "pod/prod/db" "Pod" "v1"
def postgres : Node Data := nodeOf "cluster/prod/db" "Cluster" "postgresql.cnpg.io/v1"
def workloads : Node Data := nodeOf "capicluster/prod/db" "CAPICluster" "cluster.x-k8s.io/v1beta1"

/-- An observer who may not read the clusters of Cluster API. -/
def noCAPI : NeighborhoodOptions where
  allow n := n.kind ≠ "CAPICluster"

/-- A denied cluster manages the pod, and is not seen from it. -/
theorem neighborhood_noninterference_pod :
    SameShown
      (buildNeighborhood ascii ⟨"pods","prod","db",""⟩ noCAPI ⟨[webPod],[],{}⟩)
      (buildNeighborhood ascii ⟨"pods","prod","db",""⟩ noCAPI
        ⟨[workloads,webPod],[⟨"e","capicluster/prod/db","pod/prod/db","manages","",false,"",""⟩],{}⟩) := by
  have hnames : namesRoot ascii ⟨"pods","prod","db",""⟩ webPod = true := by decide +kernel
  have hone : UniqueIDs ⟨[webPod],[],{}⟩ := List.nodup_singleton _
  have htwo : UniqueIDs ⟨[workloads,webPod],
      [⟨"e","capicluster/prod/db","pod/prod/db","manages","",false,"",""⟩],{}⟩ := by
    unfold UniqueIDs
    decide +kernel
  refine (neighborhood_noninterference hone htwo ⟨by rfl,by decide +kernel⟩
    ⟨webPod,by decide +kernel,.inl ?_⟩).mpr ⟨?_,?_⟩
  · exact (resolveRoot_spec hone).mpr (.inl ⟨List.mem_cons_self,hnames⟩)
  · exact .inl ⟨webPod,List.mem_cons_self,by decide +kernel,hnames⟩
  · exact .inl ⟨webPod,List.mem_cons_of_mem _ List.mem_cons_self,by decide +kernel,hnames⟩

/-- A denied cluster of the same name makes the reference to an allowed one ambiguous. -/
theorem denied_ambiguous :
    ¬∀ (u : Unicode) (root : ResourceRef) (opts : NeighborhoodOptions) (t t' : Graph),
      UniqueIDs t → UniqueIDs t' → SameAllowed opts.allow t t' →
      (∃ n, opts.allow n = true ∧ (resolveRoot u root t.nodes = (some n,false) ∨
        resolveRoot u root t'.nodes = (some n,false))) →
      SameShown (buildNeighborhood u root opts t) (buildNeighborhood u root opts t') := by
  intro hall
  have hone : UniqueIDs ⟨[postgres],[],{}⟩ := List.nodup_singleton _
  have htwo : UniqueIDs ⟨[postgres,workloads],[],{}⟩ := by
    unfold UniqueIDs
    decide +kernel
  have hmatches : [postgres].filter (matchesRef ascii ⟨"Cluster","prod","db",""⟩) = [postgres] :=
    List.filter_cons_of_pos (by decide +kernel)
  have hfind : findNodeByRef ascii ⟨"Cluster","prod","db",""⟩ [postgres] = (some postgres,false) := by
    rw [findNodeByRef_spec, hmatches]
    exact ⟨rfl,fun m hm => by rw [List.mem_singleton.mp hm]⟩
  have hresolved : resolveRoot ascii ⟨"Cluster","prod","db",""⟩ [postgres] = (some postgres,false) :=
    (resolveRoot_spec hone).mpr (.inr ⟨by simpa using (by decide +kernel),hfind⟩)
  have hshown := hall ascii ⟨"Cluster","prod","db",""⟩ noCAPI ⟨[postgres],[],{}⟩
    ⟨[postgres,workloads],[],{}⟩ hone htwo ⟨by rfl,by rfl⟩
    ⟨postgres,by decide +kernel,.inl hresolved⟩
  exact absurd hshown.ambiguousRoot (by decide +kernel)

end Interference

end Radar.Topology
