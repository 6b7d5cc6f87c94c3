import Mathlib.Data.Set.Card
import Mathlib.Tactic.SplitIfs
import Radar.Base.Within
import Radar.Topology.NeighborhoodSound

/-!
# A neighborhood is what is reached in so many hops

With an index the walk looks up the edges of a node, without one it scans all
edges. Either way it includes the allowed nodes within its hops until the
budget is spent, and says that it was cut exactly where more are in reach.
-/

set_option autoImplicit false

namespace Radar.Topology

section Build

/-- The edges that the walk follows from a node where there is no index. -/
def scanEdges (edges : List Edge) (allowedEdges : List String) (id : String) : List Edge :=
  edges.filter fun e => e.type ∈ allowedEdges && (e.source = id || e.target = id)

/-- `shown` is what is left of a node in the answer. -/
def expandFrom (edgesOf : String → List Edge) (shown : Node Data → Node Data)
    (opts : NeighborhoodOptions) (t : Graph) (rootNode : Node Data) (sub : Subgraph) : Subgraph :=
  let w := Walk.hops opts.allow opts.budget t.nodes edgesOf
    { order := [rootNode.id], next := [rootNode.id] } opts.boundedHops
  { sub with
    nodes := w.order.filterMap fun id => (nodeByID t.nodes id).map shown
    edges := t.edges.filter fun e =>
      e.type ∈ edgeTypesForProfile opts.profile rootNode.kind && e.source ∈ w.order &&
        e.target ∈ w.order
    truncated := w.truncated
    rbacDenied := w.denied.length }

/-- `BuildNeighborhoodWithIndex` without discovery. A missing gate lets everything pass, and
nothing is redacted; a missing index is a scan. -/
def buildNeighborhoodWithIndex (u : Unicode) (root : ResourceRef) (opts : NeighborhoodOptions)
    (gated : Bool) (t : Graph) (idx : Option (String → NodeEdgeSlots)) : Subgraph :=
  let opts := if gated then opts else { opts with allow := fun _ => true }
  match resolveRoot u root t.nodes with
  | (_,true) => { root := root, ambiguousRoot := true }
  | (none,false) => { root := root }
  | (some rootNode,false) =>
    if !opts.allow rootNode then { rootSubgraph root rootNode with rbacDenied := 1 }
    else
      let allowedEdges := edgeTypesForProfile opts.profile rootNode.kind
      let edgesOf := match idx with
        | some byNodeID => neighbors byNodeID allowedEdges
        | none => scanEdges t.edges allowedEdges
      expandFrom edgesOf (if gated then redact else id) opts t rootNode (rootSubgraph root rootNode)

theorem buildNeighborhood_indexed (u : Unicode) (root : ResourceRef) (opts : NeighborhoodOptions)
    (t : Graph) : buildNeighborhood u root opts t =
      buildNeighborhoodWithIndex u root opts true t (some (indexByResource t.edges)) := rfl

end Build

section Reach

variable (allow : Node Data → Bool) (types : List String) (t : Graph)

/-- An edge of one of the types leads from one node to another, which is allowed. -/
def Joins (a b : String) : Prop :=
  b ∈ allowedIDs allow t ∧ ∃ e ∈ t.edges, e.type ∈ types ∧
    (e.source = a ∧ e.target = b ∨ e.target = a ∧ e.source = b)

/-- The edges of a type that touch a node. -/
def EdgesOf (edgesOf : String → List Edge) : Prop :=
  ∀ id e, e ∈ edgesOf id ↔ e ∈ t.edges ∧ e.type ∈ types ∧ (e.source = id ∨ e.target = id)

variable {allow types t}

theorem scanEdges_edgesOf : EdgesOf types t (scanEdges t.edges types) := by
  intro id e
  simp [scanEdges]

theorem neighbors_edgesOf (hends : ∀ e ∈ t.edges, e.source ≠ "" ∧ e.target ≠ "") :
    EdgesOf types t (neighbors (indexByResource t.edges) types) := by
  intro id e
  obtain ⟨hout,hin⟩ := indexByResource_edges t.edges id
  rw [neighbors, hout, hin]
  simp only [List.mem_append, List.mem_filter, Bool.and_eq_true, decide_eq_true_eq]
  constructor
  · rintro (⟨⟨he,hs,-⟩,ht⟩ | ⟨⟨he,hs,-⟩,ht⟩)
    · exact ⟨he,ht,.inl hs⟩
    · exact ⟨he,ht,.inr hs⟩
  · rintro ⟨he,ht,hs | hs⟩
    · exact .inl ⟨⟨he,hs,hs ▸ (hends e he).1⟩,ht⟩
    · exact .inr ⟨⟨he,hs,hs ▸ (hends e he).2⟩,ht⟩

/-- What the far end of a followed edge is joined by. -/
theorem joins_iff {edgesOf : String → List Edge} (he : EdgesOf types t edgesOf) {a b : String} :
    Joins allow types t a b ↔ b ∈ allowedIDs allow t ∧ ∃ e ∈ edgesOf a, e.other a = b := by
  refine and_congr_right fun _ => ?_
  constructor
  · rintro ⟨e,hin,ht,⟨hs,hb⟩ | ⟨hs,hb⟩⟩
    · exact ⟨e,(he a e).mpr ⟨hin,ht,.inl hs⟩,by rw [Edge.other, if_pos hs, hb]⟩
    · refine ⟨e,(he a e).mpr ⟨hin,ht,.inr hs⟩,?_⟩
      unfold Edge.other
      split_ifs with hloop
      · rw [hs, ← hb, hloop]
      · exact hb
  · rintro ⟨e,hin,hb⟩
    obtain ⟨hin,ht,htouch⟩ := (he a e).mp hin
    refine ⟨e,hin,ht,?_⟩
    unfold Edge.other at hb
    split_ifs at hb with hs
    · exact .inl ⟨hs,hb⟩
    · exact .inr ⟨htouch.resolve_left hs,hb⟩

end Reach

section Walks

variable {allow : Node Data → Bool} {types : List String} {t : Graph} {budget k : ℕ}
  {root id : String} {e : Edge} {w : Walk} {pending : List String} {edgesOf : String → List Edge}

/-- What one edge can do to a walk: nothing, a denial, a cut, or one more node. -/
theorem visit_cases (h : UniqueIDs t) (hdenied : ∀ a ∈ w.denied, a ∉ allowedIDs allow t) :
    (w.visit allow budget t.nodes id e = w ∧
      (e.other id ∈ w.order ∨ e.other id ∉ allowedIDs allow t)) ∨
    (w.visit allow budget t.nodes id e = { w with denied := w.denied++[e.other id] } ∧
      e.other id ∉ allowedIDs allow t) ∨
    (w.visit allow budget t.nodes id e = { w with truncated := true } ∧ e.other id ∉ w.order ∧
      e.other id ∈ allowedIDs allow t ∧ budget ≤ w.order.length) ∨
    (w.visit allow budget t.nodes id e =
        { w with order := w.order++[e.other id], next := w.next++[e.other id] } ∧
      e.other id ∉ w.order ∧ e.other id ∈ allowedIDs allow t ∧ w.order.length < budget) := by
  unfold Walk.visit
  rw [← Edge.other]
  dsimp only
  by_cases horder : e.other id ∈ w.order
  · exact .inl ⟨if_pos horder,.inl horder⟩
  rw [if_neg horder]
  by_cases hin : e.other id ∈ w.denied
  · exact .inl ⟨if_pos hin,.inr (hdenied _ hin)⟩
  rw [if_neg hin]
  cases hnode : nodeByID t.nodes (e.other id) with
  | none =>
    refine .inl ⟨rfl,.inr fun hid => ?_⟩
    obtain ⟨n,hn,-,hid⟩ := mem_allowedIDs.mp hid
    exact nodeByID_none h hnode n hn hid
  | some n =>
    obtain ⟨hn,hid⟩ := (nodeByID_eq_some h).mp hnode
    dsimp only
    cases ha : allow n with
    | false =>
      refine .inr (.inl ⟨rfl,fun hallowed => ?_⟩)
      obtain ⟨m,hm,hallow,hmid⟩ := mem_allowedIDs.mp hallowed
      rw [List.inj_on_of_nodup_map h hm hn (hmid.trans hid.symm), ha] at hallow
      cases hallow
    | true =>
      have hallowed := mem_allowedIDs.mpr ⟨n,hn,ha,hid⟩
      simp only [Bool.not_true, Bool.false_eq_true, if_false]
      by_cases hfull : budget ≤ w.order.length
      · rw [if_pos hfull]
        exact .inr (.inr (.inl ⟨rfl,horder,hallowed,hfull⟩))
      · rw [if_neg hfull]
        exact .inr (.inr (.inr ⟨rfl,horder,hallowed,Nat.lt_of_not_le hfull⟩))

/-- A walk that has the nodes of `k` hops and goes one further, with the edges of some of its nodes
still to follow. -/
structure Progress (allow : Node Data → Bool) (types : List String) (t : Graph) (root : String)
    (budget k : ℕ) (pending : List String) (w : Walk) : Prop where
  start : w.order.head? = some root
  nodup : w.order.Nodup
  small : w.order.length ≤ budget
  within : ∀ a ∈ w.order, Within (Joins allow types t) root (k+1) a
  layer : ∀ a, Within (Joins allow types t) root k a → a ∈ w.order
  denied : ∀ a ∈ w.denied, a ∉ allowedIDs allow t
  known : ∀ a ∈ w.next, a ∈ w.order
  fresh : ∀ a ∈ w.next, ¬Within (Joins allow types t) root k a
  followed : w.truncated = false → ∀ a ∈ w.order,
    a ∈ w.next ∨ a ∈ pending ∨ ∀ b, Joins allow types t a b → b ∈ w.order
  cut : w.truncated = true → w.order.length = budget ∧
    ∃ a, Within (Joins allow types t) root (k+1) a ∧ a ∉ w.order

theorem visit_progress (h : UniqueIDs t) (he : EdgesOf types t edgesOf)
    (hw : Progress allow types t root budget k pending w) (hid : id ∈ pending)
    (hin : Within (Joins allow types t) root k id) (hedge : e ∈ edgesOf id) :
    Progress allow types t root budget k pending (w.visit allow budget t.nodes id e) ∧
      ((w.visit allow budget t.nodes id e).truncated = false →
        w.truncated = false ∧
          (e.other id ∈ allowedIDs allow t → e.other id ∈ (w.visit allow budget t.nodes id e).order)) := by
  have hnext : e.other id ∈ allowedIDs allow t →
      Within (Joins allow types t) root (k+1) (e.other id) := fun hallowed =>
    .step hin ((joins_iff he).mpr ⟨hallowed,e,hedge,rfl⟩)
  obtain ⟨heq,hsame⟩ | ⟨heq,hout⟩ | ⟨heq,hnew,hallowed,hfull⟩ | ⟨heq,hnew,hallowed,hfree⟩ :=
    @visit_cases allow t budget id e w h hw.denied
  · rw [heq]
    exact ⟨hw,fun hcut => ⟨hcut,fun hallowed => hsame.resolve_right (not_not.mpr hallowed)⟩⟩
  · rw [heq]
    refine ⟨{ hw with denied := fun a ha => ?_ },fun hcut => ⟨hcut,fun hallowed => ?_⟩⟩
    · obtain ha | ha := List.mem_append.mp ha
      · exact hw.denied a ha
      · exact List.mem_singleton.mp ha ▸ hout
    · exact absurd hallowed hout
  · rw [heq]
    refine ⟨{ hw with followed := nofun, cut := fun _ => ⟨?_,_,hnext hallowed,hnew⟩ },nofun⟩
    exact le_antisymm hw.small hfull
  · rw [heq]
    refine ⟨⟨?_,?_,?_,?_,?_,hw.denied,?_,?_,?_,?_⟩,fun hcut => ⟨hcut,fun _ => by simp⟩⟩
    · rw [List.head?_append, hw.start, Option.some_or]
    · rw [List.nodup_append]
      refine ⟨hw.nodup,List.nodup_singleton _,fun a ha b hb hab => hnew ?_⟩
      exact List.mem_singleton.mp hb ▸ hab ▸ ha
    · rw [List.length_append, List.length_singleton]
      omega
    · intro a ha
      obtain ha | ha := List.mem_append.mp ha
      · exact hw.within a ha
      · exact List.mem_singleton.mp ha ▸ hnext hallowed
    · exact fun a ha => List.mem_append_left _ (hw.layer a ha)
    · intro a ha
      obtain ha | ha := List.mem_append.mp ha
      · exact List.mem_append_left _ (hw.known a ha)
      · exact List.mem_append_right _ ha
    · intro a ha
      obtain ha | ha := List.mem_append.mp ha
      · exact hw.fresh a ha
      · exact fun hold => hnew (List.mem_singleton.mp ha ▸ hw.layer a hold)
    · intro hcut a ha
      obtain ha | ha := List.mem_append.mp ha
      · obtain hin | hin | hin := hw.followed hcut a ha
        · exact .inl (List.mem_append_left _ hin)
        · exact .inr (.inl hin)
        · exact .inr (.inr fun b hb => List.mem_append_left _ (hin b hb))
      · exact .inl (List.mem_append_right _ ha)
    · intro hcut
      exact absurd (hw.cut hcut).1 (Nat.ne_of_lt hfree)

theorem visits_progress (h : UniqueIDs t) (he : EdgesOf types t edgesOf) {es : List Edge}
    (hw : Progress allow types t root budget k pending w) (hid : id ∈ pending)
    (hin : Within (Joins allow types t) root k id) (hes : ∀ e ∈ es, e ∈ edgesOf id) :
    Progress allow types t root budget k pending (es.foldl (Walk.visit allow budget t.nodes id) w) ∧
      ((es.foldl (Walk.visit allow budget t.nodes id) w).truncated = false →
        w.truncated = false ∧ ∀ e ∈ es, e.other id ∈ allowedIDs allow t →
          e.other id ∈ (es.foldl (Walk.visit allow budget t.nodes id) w).order) := by
  induction es generalizing w with
  | nil => exact ⟨hw,fun hcut => ⟨hcut,nofun⟩⟩
  | cons e es ih =>
    obtain ⟨hone,hfollowed⟩ := visit_progress h he hw hid hin (hes e List.mem_cons_self)
    obtain ⟨hall,hrest⟩ := ih hone fun e he => hes e (List.mem_cons_of_mem _ he)
    refine ⟨hall,fun hcut => ?_⟩
    obtain ⟨hcut,hrest⟩ := hrest hcut
    obtain ⟨hcut,hfirst⟩ := hfollowed hcut
    refine ⟨hcut,fun e' he' hallowed => ?_⟩
    obtain rfl | he' := List.mem_cons.mp he'
    · exact visits_grows es (hfirst hallowed)
    · exact hrest e' he' hallowed

theorem level_progress (h : UniqueIDs t) (he : EdgesOf types t edgesOf)
    (hw : Progress allow types t root budget k pending w) (hlive : w.truncated = false)
    (hin : ∀ a ∈ pending, Within (Joins allow types t) root k a) :
    Progress allow types t root budget k [] (w.level allow budget t.nodes edgesOf pending) := by
  induction pending generalizing w with
  | nil => exact hw
  | cons id pending ih =>
    have hid : id ∈ id::pending := List.mem_cons_self
    obtain ⟨hall,hfollowed⟩ := visits_progress h he hw hid (hin id hid) fun e he => he
    unfold Walk.level
    dsimp only
    split_ifs with hcut
    · exact { hall with followed := fun hlive => absurd hcut (by simp [hlive]) }
    · have hcut := Bool.eq_false_of_not_eq_true hcut
      refine ih { hall with followed := fun _ a ha => ?_ } hcut
        fun a ha => hin a (List.mem_cons_of_mem id ha)
      obtain hnew | hold | hdone := hall.followed hcut a ha
      · exact .inl hnew
      · obtain rfl | hold := List.mem_cons.mp hold
        · refine .inr (.inr fun b hb => ?_)
          obtain ⟨hallowed,e,hedge,rfl⟩ := (joins_iff he).mp hb
          exact (hfollowed hcut).2 e hedge hallowed
        · exact .inr (.inl hold)
      · exact .inr (.inr hdone)

/-- A walk that has exactly the nodes of `k` hops, those of the last one on its fringe. -/
structure Layered (allow : Node Data → Bool) (types : List String) (t : Graph) (root : String)
    (budget k : ℕ) (w : Walk) : Prop where
  start : w.order.head? = some root
  nodup : w.order.Nodup
  small : w.order.length ≤ budget
  layer : ∀ a, a ∈ w.order ↔ Within (Joins allow types t) root k a
  denied : ∀ a ∈ w.denied, a ∉ allowedIDs allow t
  known : ∀ a ∈ w.next, a ∈ w.order
  followed : ∀ a ∈ w.order, a ∈ w.next ∨ ∀ b, Joins allow types t a b → b ∈ w.order
  live : w.truncated = false

/-- What a walk of `k` hops comes to. -/
structure Reached (allow : Node Data → Bool) (types : List String) (t : Graph) (root : String)
    (budget k : ℕ) (w : Walk) : Prop where
  start : w.order.head? = some root
  nodup : w.order.Nodup
  small : w.order.length ≤ budget
  within : ∀ a ∈ w.order, Within (Joins allow types t) root k a
  whole : w.truncated = false → ∀ a, Within (Joins allow types t) root k a → a ∈ w.order
  cut : w.truncated = true → w.order.length = budget ∧
    ∃ a, Within (Joins allow types t) root k a ∧ a ∉ w.order

theorem Layered.begin (hw : Layered allow types t root budget k w) :
    Progress allow types t root budget k w.next { w with next := [] } where
  start := hw.start
  nodup := hw.nodup
  small := hw.small
  within a ha := ((hw.layer a).mp ha).succ
  layer a ha := (hw.layer a).mpr ha
  denied := hw.denied
  known := (by simp)
  fresh := (by simp)
  followed _ a ha := .inr (hw.followed a ha)
  cut hcut := absurd hcut (by simp [hw.live])

/-- A node of the layer was there before the level, so its edges were followed. -/
theorem Progress.next (hw : Progress allow types t root budget k [] w)
    (hlive : w.truncated = false) {a : String} (ha : Within (Joins allow types t) root (k+1) a) :
    a ∈ w.order := by
  refine Within.next hw.layer (fun a hin b hab => ?_) ha
  obtain hnew | hnone | hdone := hw.followed hlive a (hw.layer a hin)
  · exact absurd hin (hw.fresh a hnew)
  · cases hnone
  · exact hdone b hab

theorem hops_reached (h : UniqueIDs t) (he : EdgesOf types t edgesOf) (n : ℕ)
    (hw : Layered allow types t root budget k w) :
    Reached allow types t root budget (k+n) (w.hops allow budget t.nodes edgesOf n) := by
  induction n generalizing k w with
  | zero =>
    exact ⟨hw.start,hw.nodup,hw.small,fun a => (hw.layer a).mp,fun _ a => (hw.layer a).mpr,
      fun hcut => absurd hcut (by simp [Walk.hops, hw.live])⟩
  | succ n ih =>
    have hlevel := level_progress h he hw.begin hw.live
      fun a ha => (hw.layer a).mp (hw.known a ha)
    have hmore : k+1 ≤ k+(n+1) := by omega
    unfold Walk.hops
    dsimp only
    split_ifs with hstop
    · refine ⟨hlevel.start,hlevel.nodup,hlevel.small,fun a ha => (hlevel.within a ha).mono hmore,
        fun hlive a ha => ?_,fun hcut => ?_⟩
      · -- the fringe is empty, so no hop leads out of the nodes that are included
        have hnone := hstop.resolve_left (by simp [hlive])
        refine Within.closed (List.mem_of_head? hlevel.start) (fun a ha b hab => ?_) ha
        obtain hnew | hpending | hdone := hlevel.followed hlive a ha
        · exact absurd hnew (by simp [hnone])
        · cases hpending
        · exact hdone b hab
      · obtain ⟨hfull,a,ha,hout⟩ := hlevel.cut hcut
        exact ⟨hfull,a,ha.mono hmore,hout⟩
    · rw [not_or] at hstop
      have hlive := Bool.eq_false_of_not_eq_true hstop.1
      have hnext : Layered allow types t root budget (k+1)
          (Walk.level allow budget t.nodes edgesOf { w with next := [] } w.next) :=
        ⟨hlevel.start,hlevel.nodup,hlevel.small,fun a => ⟨hlevel.within a,hlevel.next hlive⟩,
          hlevel.denied,hlevel.known,fun a ha => ?_,hlive⟩
      · rw [show k+(n+1) = k+1+n by omega]
        exact ih hnext
      · obtain hnew | hpending | hdone := hlevel.followed hlive a ha
        · exact .inl hnew
        · cases hpending
        · exact .inr hdone

theorem started_layered (hbudget : 0 < budget) :
    Layered allow types t root budget 0 { order := [root], next := [root] } where
  start := rfl
  nodup := List.nodup_singleton root
  small := hbudget
  layer a := by rw [Within.zero_iff, List.mem_singleton]
  denied := nofun
  known _ h := h
  followed _ h := .inl h
  live := rfl

end Walks

section Exact

variable {allow : Node Data → Bool} {types : List String} {t : Graph} {budget hops : ℕ}
  {n : Node Data} {shown : Node Data → Node Data} {order : List String} {w : Walk}

/-- The ids of what is reached from a node in so many hops. -/
def reach (allow : Node Data → Bool) (types : List String) (t : Graph) (root : String) (hops : ℕ) :
    Set String :=
  { id | Within (Joins allow types t) root hops id }

theorem reach_finite (root : String) : (reach allow types t root hops).Finite := by
  refine Set.Finite.subset (List.finite_toSet (root::allowedIDs allow t)) fun id hid => ?_
  refine Within.holds (fun id => id ∈ root::allowedIDs allow t) List.mem_cons_self ?_ hid
  exact fun a b hab => List.mem_cons_of_mem root hab.1

/-- What is reached from a node of the graph are nodes of the graph. -/
theorem reach_nodes (hn : n ∈ t.nodes) {id : String} (hid : id ∈ reach allow types t n.id hops) :
    ∃ m ∈ t.nodes, m.id = id := by
  refine Within.holds (fun id => ∃ m ∈ t.nodes, m.id = id) ⟨n,hn,rfl⟩ (fun a b hab => ?_) hid
  obtain ⟨m,hm,-,hid⟩ := mem_allowedIDs.mp hab.1
  exact ⟨m,hm,hid⟩

theorem included_ids (hu : UniqueIDs t) (hshown : ∀ m, (shown m).id = m.id)
    (h : ∀ id ∈ order, ∃ m ∈ t.nodes, m.id = id) :
    (order.filterMap fun id => (nodeByID t.nodes id).map shown).map (·.id) = order := by
  induction order with
  | nil => rfl
  | cons id order ih =>
    obtain ⟨m,hm,hid⟩ := h id List.mem_cons_self
    have hnode : (nodeByID t.nodes id).map shown = some (shown m) := by
      rw [(nodeByID_eq_some hu).mpr ⟨hm,hid⟩, Option.map_some]
    rw [List.filterMap_cons, hnode, List.map_cons, hshown, hid,
      ih fun id hid => h id (List.mem_cons_of_mem _ hid)]

/-- A subgraph shows what is in reach, as far as the budget goes. -/
structure BoundedReach (allow : Node Data → Bool) (types : List String) (t : Graph) (root : String)
    (hops budget : ℕ) (shown : Node Data → Node Data) (sub : Subgraph) : Prop where
  start : (sub.nodes.map (·.id)).head? = some root
  nodup : (sub.nodes.map (·.id)).Nodup
  nodes : ∀ m ∈ sub.nodes, ∃ n ∈ t.nodes, m = shown n
  within : ∀ id ∈ sub.nodes.map (·.id), id ∈ reach allow types t root hops
  small : sub.nodes.length ≤ budget
  truncated : sub.truncated = true ↔ budget < (reach allow types t root hops).ncard
  whole : sub.truncated = false →
    ∀ id, id ∈ sub.nodes.map (·.id) ↔ id ∈ reach allow types t root hops
  edges : sub.edges = t.edges.filter fun e => e.type ∈ types &&
    e.source ∈ sub.nodes.map (·.id) && e.target ∈ sub.nodes.map (·.id)

/-- The walk was cut exactly where the budget is smaller than what is in reach. -/
theorem Reached.truncated_iff (hw : Reached allow types t n.id budget hops w) :
    w.truncated = true ↔ budget < (reach allow types t n.id hops).ncard := by
  have hcard : (w.order.toFinset : Set String).ncard = w.order.length := by
    rw [Set.ncard_coe_finset, List.toFinset_card_of_nodup hw.nodup]
  have hsub : (w.order.toFinset : Set String) ⊆ reach allow types t n.id hops := by
    intro id hid
    exact hw.within id (List.mem_toFinset.mp (Finset.mem_coe.mp hid))
  constructor
  · intro hcut
    obtain ⟨hfull,a,ha,hout⟩ := hw.cut hcut
    rw [← hfull, ← hcard]
    refine Set.ncard_lt_ncard ⟨hsub,fun hall => hout ?_⟩ (reach_finite n.id)
    exact List.mem_toFinset.mp (Finset.mem_coe.mp (hall ha))
  · intro hmore
    by_contra hlive
    have hlive := Bool.eq_false_of_not_eq_true hlive
    have hall : reach allow types t n.id hops ⊆ (w.order.toFinset : Set String) := by
      intro id hid
      exact Finset.mem_coe.mpr (List.mem_toFinset.mpr (hw.whole hlive id hid))
    have hle := Set.ncard_le_ncard hall (Finset.finite_toSet _)
    rw [hcard] at hle
    exact absurd hmore (Nat.not_lt.mpr (hle.trans hw.small))

variable {opts : NeighborhoodOptions} {sub : Subgraph} {edgesOf : String → List Edge}

theorem budget_pos (opts : NeighborhoodOptions) : 0 < opts.budget := by
  unfold NeighborhoodOptions.budget neighborhoodDefaultMaxNodes
  split_ifs <;> omega

theorem expandFrom_bounded (hu : UniqueIDs t) (hn : n ∈ t.nodes)
    (he : EdgesOf (edgeTypesForProfile opts.profile n.kind) t edgesOf)
    (hshown : ∀ m, (shown m).id = m.id) :
    BoundedReach opts.allow (edgeTypesForProfile opts.profile n.kind) t n.id opts.boundedHops
      opts.budget shown (expandFrom edgesOf shown opts t n sub) := by
  have hstart : Layered opts.allow (edgeTypesForProfile opts.profile n.kind) t n.id opts.budget 0
      { order := [n.id], next := [n.id] } := started_layered (budget_pos opts)
  have hw := hops_reached hu he opts.boundedHops hstart
  rw [Nat.zero_add] at hw
  have hids := included_ids hu hshown fun id hid => reach_nodes hn (hw.within id hid)
  refine ⟨?_,?_,?_,?_,?_,hw.truncated_iff,?_,?_⟩
  · exact (congrArg List.head? hids).trans hw.start
  · exact (congrArg List.Nodup hids).mpr hw.nodup
  · intro m hm
    obtain ⟨id,-,hnode⟩ := List.mem_filterMap.mp hm
    obtain ⟨n,hn,rfl⟩ := Option.map_eq_some_iff.mp hnode
    exact ⟨n,((nodeByID_eq_some hu).mp hn).1,rfl⟩
  · intro id hid
    exact hw.within id (hids ▸ hid)
  · have hlength := congrArg List.length hids
    rw [List.length_map] at hlength
    exact hlength.trans_le hw.small
  · intro hlive id
    constructor
    · exact fun hid => hw.within id (hids ▸ hid)
    · exact fun hid => hids.symm ▸ hw.whole hlive id hid
  · show t.edges.filter _ = _
    congr 1
    funext e
    rw [show (expandFrom edgesOf shown opts t n sub).nodes.map (·.id) = _ from hids]

theorem redact_id (n : Node Data) : (redact n).id = n.id := by
  unfold redact
  dsimp only
  split_ifs <;> rfl

variable {u : Unicode} {root : ResourceRef} {gated : Bool} {idx : Option (String → NodeEdgeSlots)}

/-- A missing gate lets everything pass. -/
def NeighborhoodOptions.gate (opts : NeighborhoodOptions) (gated : Bool) : Node Data → Bool :=
  if gated then opts.allow else fun _ => true

/-- With the index of the topology and without one, the neighborhood of a root that passes the gate
is what is reached in the hops, as far as the budget goes. -/
theorem neighborhood_exact (hu : UniqueIDs t)
    (hends : ∀ e ∈ t.edges, e.source ≠ "" ∧ e.target ≠ "")
    (hr : resolveRoot u root t.nodes = (some n,false)) (ha : opts.gate gated n = true)
    (hidx : idx = none ∨ idx = some (indexByResource t.edges)) :
    BoundedReach (opts.gate gated) (edgeTypesForProfile opts.profile n.kind) t n.id
      opts.boundedHops opts.budget (if gated then redact else id)
      (buildNeighborhoodWithIndex u root opts gated t idx) := by
  have hn : n ∈ t.nodes := resolveRoot_mem hu hr
  have hshown : ∀ m, ((if gated then redact else id : Node Data → Node Data) m).id = m.id := by
    intro m
    split_ifs
    · exact redact_id m
    · rfl
  obtain ⟨edgesOf,he,heq⟩ : ∃ edgesOf, EdgesOf (edgeTypesForProfile opts.profile n.kind) t edgesOf ∧
      buildNeighborhoodWithIndex u root opts gated t idx =
        expandFrom edgesOf (if gated then redact else id)
          { opts with allow := opts.gate gated } t n (rootSubgraph root n) := by
    unfold buildNeighborhoodWithIndex NeighborhoodOptions.gate at *
    obtain rfl | rfl := hidx
    · refine ⟨_,scanEdges_edgesOf,?_⟩
      cases gated <;> simp_all
    · refine ⟨_,neighbors_edgesOf hends,?_⟩
      cases gated <;> simp_all
  rw [heq]
  exact @expandFrom_bounded t n _ { opts with allow := opts.gate gated } _ edgesOf hu hn he hshown

/-- A pod, a service that exposes it and the cluster that manages it, which is denied. -/
def servedPod : Graph where
  nodes := [workloads,nodeOf "service/prod/db" "Service" "v1",webPod]
  edges := [⟨"m","capicluster/prod/db","pod/prod/db","manages","",false,"",""⟩,
    ⟨"x","service/prod/db","pod/prod/db","exposes","",false,"",""⟩]
  remarks := {}

theorem neighborhood_exact_pod :
    BoundedReach (noCAPI.gate true) (edgeTypesForProfile noCAPI.profile webPod.kind) servedPod
      webPod.id noCAPI.boundedHops noCAPI.budget redact
      (buildNeighborhoodWithIndex ascii ⟨"pods","prod","db",""⟩ noCAPI true servedPod none) := by
  have hu : UniqueIDs servedPod := by
    unfold UniqueIDs
    decide +kernel
  have hends : ∀ e ∈ servedPod.edges, e.source ≠ "" ∧ e.target ≠ "" := by decide +kernel
  have hr : resolveRoot ascii ⟨"pods","prod","db",""⟩ servedPod.nodes = (some webPod,false) := by
    refine (resolveRoot_spec hu).mpr (.inl ⟨?_,by decide +kernel⟩)
    simp [servedPod]
  have ha : noCAPI.gate true webPod = true := by decide +kernel
  exact neighborhood_exact hu hends hr ha (.inl rfl)

end Exact

end Radar.Topology
