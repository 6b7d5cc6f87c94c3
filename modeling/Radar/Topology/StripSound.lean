import Mathlib.Tactic.SplitIfs
import Radar.Topology.Strip

/-!
# What a strip leaves of a graph

Each strip computes a function of what the topology held, and every data map
and every other topology's arrays read as before: the maps that clones share
are never written.
-/

set_option autoImplicit false

namespace Radar.Strip

open Radar.Topology

section Graphs

/-- The data a surviving node shows. -/
def shownFields (deny hidden : List String) (m : Fields) : Fields :=
  let covered := match visibleRefs deny (m coverageField) with
    | some visible => Function.update m coverageField (some (.strs visible))
    | none => m
  if statusHidden hidden (some m) then Function.update covered statusField none else covered

def mapData (p : Node Data → Data) (g : Graph) : Graph :=
  { g with nodes := g.nodes.map fun n => { n with data := p n } }

def dropIDs (deny : List String) (g : Graph) : Graph :=
  if deny = [] then g
  else
    let hidden := hiddenPolicyNamespaces g.nodes deny
    mapData (fun n => n.data.map (shownFields deny hidden)) { g with
      nodes := g.nodes.filter fun n => n.id ∉ deny
      edges := g.edges.filter fun e => e.source ∉ deny && e.target ∉ deny }

/-- The graph without the denied nodes. -/
def drop (denied : Node Data → Bool) (g : Graph) : Graph := dropIDs (deniedIDs denied g.nodes) g

def readvertisedData (allowed : List SARTuple) (n : Node Data) : Data :=
  if calicoPolicyDenied allowed n then n.data
  else match readvertisedVersion allowed n with
    | some apiVersion =>
      n.data.map fun m => Function.update m "apiVersion" (some (.str apiVersion))
    | none => n.data

def dropCalico (allowed : List SARTuple) (g : Graph) : Graph :=
  dropIDs (deniedIDs (calicoPolicyDenied allowed) g.nodes) (mapData (readvertisedData allowed) g)

end Graphs

section Heaps

/-- The map is in use. -/
def Below (h : Heap) (r : Ref) : Prop := ∀ a, r = some a → a < h.data.next

structure Owned (h : Heap) (t : Topology) : Prop where
  nodes : t.nodes.addr < h.nodes.next
  edges : t.edges.addr < h.edges.next
  data : ∀ n ∈ nodesOf h t, Below h n.data

/-- Nothing that was there has changed but the arrays of `t`. -/
structure Keeps (t : Topology) (h h' : Heap) : Prop where
  data : Store.Keeps (fun _ => False) h.data h'.data
  nodes : Store.Keeps (· = t.nodes.addr) h.nodes h'.nodes
  edges : Store.Keeps (· = t.edges.addr) h.edges h'.edges

/-- The operation made `g` of the topology, in the arrays it owns. -/
structure Refines (h : Heap) (t : Topology) (r : Topology × Heap) (g : Graph) : Prop where
  content : content r.2 r.1 = g
  owned : Owned r.2 r.1
  keeps : Keeps t h r.2
  nodes : r.1.nodes.addr = t.nodes.addr
  edges : r.1.edges.addr = t.edges.addr

theorem Refines.trans {h : Heap} {t : Topology} {r r' : Topology × Heap} {g g' : Graph}
    (hr : Refines h t r g) (hr' : Refines r.2 r.1 r' g') : Refines h t r' g' where
  content := hr'.content
  owned := hr'.owned
  keeps := by
    refine ⟨hr.keeps.data.trans hr'.keeps.data,hr.keeps.nodes.trans ?_,hr.keeps.edges.trans ?_⟩
    · exact hr.nodes ▸ hr'.keeps.nodes
    · exact hr.edges ▸ hr'.keeps.edges
  nodes := hr'.nodes.trans hr.nodes
  edges := hr'.edges.trans hr.edges

theorem Refines.andThen {h : Heap} {t : Topology} {r r' : Topology × Heap} {g : Graph}
    {p : Graph → Graph} (hr : Refines h t r g) (hr' : Refines r.2 r.1 r' (p (Strip.content r.2 r.1))) :
    Refines h t r' (p g) := hr.content ▸ hr.trans hr'

theorem refines_same {h : Heap} {t : Topology} (ho : Owned h t) :
    Refines h t (t,h) (content h t) :=
  ⟨rfl,ho,⟨Store.keeps_refl _,Store.keeps_refl _,Store.keeps_refl _⟩,rfl,rfl⟩

theorem load_keeps {h h' : Heap} {r : Ref} (hr : Below h r)
    (hk : Store.Keeps (fun _ => False) h.data h'.data) : load h' r = load h r := by
  cases r with
  | none => rfl
  | some a => exact congrArg some (hk.cell a (hr a rfl) id)

theorem below_keeps {h h' : Heap} {r : Ref} (hr : Below h r)
    (hk : Store.Keeps (fun _ => False) h.data h'.data) : Below h' r :=
  fun a ha => Nat.lt_of_lt_of_le (hr a ha) hk.next

theorem view_keeps {h h' : Heap} {n : Node Ref} (hn : Below h n.data)
    (hk : Store.Keeps (fun _ => False) h.data h'.data) : view h' n = view h n := by
  rw [view, view, load_keeps hn hk]

theorem map_view_keeps {h h' : Heap} {ns : List (Node Ref)} (hns : ∀ n ∈ ns, Below h n.data)
    (hk : Store.Keeps (fun _ => False) h.data h'.data) : ns.map (view h') = ns.map (view h) :=
  List.map_congr_left fun n hn => view_keeps (hns n hn) hk

/-- As many elements as the slice has, over the front of its array, are what the slice holds. -/
theorem take_overwrite {α : Type} {old new : List α} {len : ℕ}
    (hl : new.length = (old.take len).length) : (overwrite old new).take len = new := by
  rw [List.length_take] at hl
  by_cases h : len ≤ old.length
  · have hnew : new.length = len := by omega
    rw [overwrite, ← hnew, List.take_left]
  · have hnew : new.length = old.length := by omega
    rw [overwrite, hnew, List.drop_length, List.append_nil, List.take_of_length_le (by omega)]

theorem take_overwrite_length {α : Type} (old new : List α) :
    (overwrite old new).take new.length = new := by rw [overwrite, List.take_left]

end Heaps

section Loop

/-- One turn of a loop over the nodes gives a node the data `p`, in a map no one else has unless
it is the one the node had. -/
structure Edits (f : Heap → Node Ref → Ref × Heap) (p : Node Data → Data) : Prop where
  load : ∀ h n, Below h n.data → load (f h n).2 (f h n).1 = p (view h n)
  below : ∀ h n, Below h n.data → Below (f h n).2 (f h n).1
  data : ∀ h n, Below h n.data → Store.Keeps (fun _ => False) h.data (f h n).2.data
  nodes : ∀ h n, (f h n).2.nodes = h.nodes
  edges : ∀ h n, (f h n).2.edges = h.edges

variable {f : Heap → Node Ref → Ref × Heap} {p : Node Data → Data}

theorem eachNode_arrays (hf : Edits f p) (h : Heap) (ns : List (Node Ref)) :
    (eachNode f h ns).2.nodes = h.nodes ∧ (eachNode f h ns).2.edges = h.edges := by
  induction ns generalizing h with
  | nil => exact ⟨rfl,rfl⟩
  | cons n ns ih =>
    have hrest := ih (f h n).2
    exact ⟨hrest.1.trans (hf.nodes h n),hrest.2.trans (hf.edges h n)⟩

theorem eachNode_length (f : Heap → Node Ref → Ref × Heap) (h : Heap) (ns : List (Node Ref)) :
    (eachNode f h ns).1.length = ns.length := by
  induction ns generalizing h with
  | nil => rfl
  | cons n ns ih => exact congrArg (·+1) (ih (f h n).2)

theorem eachNode_data (hf : Edits f p) {h : Heap} {ns : List (Node Ref)}
    (hns : ∀ n ∈ ns, Below h n.data) :
    Store.Keeps (fun _ => False) h.data (eachNode f h ns).2.data ∧
    (∀ n ∈ (eachNode f h ns).1, Below (eachNode f h ns).2 n.data) ∧
    (eachNode f h ns).1.map (view (eachNode f h ns).2) =
      (ns.map (view h)).map fun n => { n with data := p n } := by
  induction ns generalizing h with
  | nil => exact ⟨Store.keeps_refl _,(fun _ hn => nomatch hn),rfl⟩
  | cons n ns ih =>
    have hn := hns n List.mem_cons_self
    have hstep := hf.data h n hn
    have hns' : ∀ m ∈ ns, Below (f h n).2 m.data :=
      fun m hm => below_keeps (hns m (List.mem_cons_of_mem n hm)) hstep
    obtain ⟨hrest,hbelow,hview⟩ := ih hns'
    have hnew := hf.below h n hn
    refine ⟨hstep.trans hrest,fun m hm => ?_,?_⟩
    · cases List.mem_cons.mp hm with
      | inl heq => exact heq ▸ below_keeps hnew hrest
      | inr hm => exact hbelow m hm
    · rw [map_view_keeps (fun m hm => hns m (List.mem_cons_of_mem n hm)) hstep] at hview
      have hload : load (eachNode f (f h n).2 ns).2 (f h n).1 = p (view h n) := by
        rw [load_keeps hnew hrest, hf.load h n hn]
      simp only [eachNode, List.map_cons, hview, view]
      rw [hload]
      rfl

/-- The loop over a topology's nodes. -/
theorem eachNode_refines (hf : Edits f p) {h : Heap} {t : Topology} (ho : Owned h t) :
    Refines h t (t,writeNodes (eachNode f h (nodesOf h t)).2 t (eachNode f h (nodesOf h t)).1)
      (mapData p (content h t)) := by
  have harrays := eachNode_arrays hf h (nodesOf h t)
  obtain ⟨hdata,hbelow,hview⟩ := eachNode_data hf ho.data
  have hlen := eachNode_length f h (nodesOf h t)
  revert harrays hdata hbelow hview hlen
  generalize eachNode f h (nodesOf h t) = r
  intro harrays hdata hbelow hview hlen
  have hnodes : nodesOf (writeNodes r.2 t r.1) t = r.1 := by
    simp only [nodesOf, writeNodes, Store.write_cell, harrays.1]
    exact take_overwrite hlen
  have hedges : edgesOf (writeNodes r.2 t r.1) t = edgesOf h t := by
    simp only [edgesOf, writeNodes, harrays.2]
  refine ⟨?_,⟨?_,?_,?_⟩,⟨hdata,?_,?_⟩,rfl,rfl⟩
  · rw [content, views, hnodes, hedges]
    exact congrArg (Topology.Graph.mk · (edgesOf h t) t.remarks) hview
  · simpa only [writeNodes, Store.write_next, harrays.1] using ho.nodes
  · simpa only [writeNodes, harrays.2] using ho.edges
  · rw [hnodes]
    exact hbelow
  · simp only [writeNodes, harrays.1]
    refine Store.keeps_write _ ?_ _
    rfl
  · simp only [writeNodes, harrays.2]
    exact Store.keeps_refl _

end Loop

section Edits

/-- A map that came into use after `h`, and reads `m`. -/
structure Own (h : Heap) (r : Ref × Heap) (m : Fields) : Prop where
  addr : ∃ a, r.1 = some a ∧ h.data.next ≤ a ∧ a < r.2.data.next ∧ r.2.data.cell a = m
  data : Store.Keeps (fun _ => False) h.data r.2.data
  nodes : r.2.nodes = h.nodes
  edges : r.2.edges = h.edges

theorem own_alloc (h : Heap) (m : Fields) :
    Own h (some h.data.next,{ h with data := (h.data.alloc m).2 }) m :=
  ⟨⟨h.data.next,rfl,Nat.le_refl _,Nat.lt_succ_self _,Store.alloc_cell _ _⟩,
    Store.keeps_alloc _ _,rfl,rfl⟩

theorem Own.setField {h : Heap} {r : Ref × Heap} {m : Fields} (ho : Own h r m) (key : String)
    (v : Option Value) : Own h (r.1,setField r.2 key v r.1) (Function.update m key v) := by
  obtain ⟨a,hr,hnew,hold,hm⟩ := ho.addr
  rw [hr]
  refine ⟨⟨a,rfl,hnew,hold,?_⟩,ho.data.write_new hnew _,ho.nodes,ho.edges⟩
  simp only [Strip.setField, Store.write_cell, hm]

theorem Own.load {h : Heap} {r : Ref × Heap} {m : Fields} (ho : Own h r m) :
    load r.2 r.1 = some m := by
  obtain ⟨a,hr,-,-,hm⟩ := ho.addr
  rw [Strip.load, hr, Option.map_some, hm]

theorem Own.below {h : Heap} {r : Ref × Heap} {m : Fields} (ho : Own h r m) : Below r.2 r.1 := by
  obtain ⟨a,hr,-,hold,-⟩ := ho.addr
  intro b hb
  obtain rfl := Option.some.inj (hr.symm.trans hb)
  exact hold

theorem visibleRefs_none {deny : List String} {v : Option Value} (hv : v.getD .nil = .nil) :
    visibleRefs deny v = none := by
  cases v with
  | none => rfl
  | some v =>
    cases hv
    rfl

/-- Nothing is withheld of a map without coverage whose verdict may be seen. -/
theorem shownFields_same {deny hidden : List String} {m : Fields}
    (hcoverage : (m coverageField).getD .nil = .nil) (hstatus : ¬statusHidden hidden (some m)) :
    shownFields deny hidden m = m := by
  rw [shownFields, if_neg hstatus, visibleRefs_none hcoverage]

theorem withhold_none {deny hidden : List String} {h : Heap} {n : Node Ref} (hn : n.data = none) :
    withhold deny hidden h n = (none,h) := by
  simp [withhold, hn, load, Topology.get, statusHidden, visibleRefs]

/-- A map is left alone, or cloned and the clone shown instead. -/
theorem withhold_some (deny hidden : List String) (h : Heap) {n : Node Ref} {a : ℕ}
    (hn : n.data = some a) :
    (withhold deny hidden h n = (some a,h) ∧
      shownFields deny hidden (h.data.cell a) = h.data.cell a) ∨
    Own h (withhold deny hidden h n) (shownFields deny hidden (h.data.cell a)) := by
  have hload : load h (some a) = some (h.data.cell a) := rfl
  by_cases hc : (Topology.get (some (h.data.cell a)) coverageField).getD .nil ≠ .nil ∨
      statusHidden hidden (some (h.data.cell a))
  · right
    have hown := own_alloc h (h.data.cell a)
    rw [withhold, hn, hload]
    simp only [if_pos hc]
    simp only [cloneData, hown.load, Topology.get, Option.bind_some, shownFields]
    by_cases hs : statusHidden hidden (some (h.data.cell a))
    · simp only [if_pos hs]
      cases visibleRefs deny (h.data.cell a coverageField) with
      | none => exact hown.setField statusField none
      | some visible => exact (hown.setField coverageField _).setField statusField none
    · simp only [if_neg hs]
      cases visibleRefs deny (h.data.cell a coverageField) with
      | none => exact hown
      | some visible => exact hown.setField coverageField _
  · left
    obtain ⟨hcoverage,hstatus⟩ := not_or.mp hc
    refine ⟨?_,shownFields_same (not_not.mp hcoverage) hstatus⟩
    rw [withhold, hn, hload]
    simp only [if_neg hc, if_neg hstatus, hload, visibleRefs_none (not_not.mp hcoverage)]

/-- What leaves a map alone, or gives the node its own, edits the nodes. -/
theorem edits_of_own {f : Heap → Node Ref → Ref × Heap} {p : Node Data → Data}
    (hf : ∀ h n, Below h n.data → (f h n = (n.data,h) ∧ p (view h n) = load h n.data) ∨
      ∃ m, Own h (f h n) m ∧ p (view h n) = some m)
    (hnodes : ∀ h n, (f h n).2.nodes = h.nodes) (hedges : ∀ h n, (f h n).2.edges = h.edges) :
    Edits f p := by
  refine ⟨fun h n hn => ?_,fun h n hn => ?_,fun h n hn => ?_,hnodes,hedges⟩
  · cases hf h n hn with
    | inl hsame => rw [hsame.1, hsame.2]
    | inr hown =>
      obtain ⟨m,hown,hp⟩ := hown
      rw [hown.load, hp]
  · cases hf h n hn with
    | inl hsame => exact hsame.1 ▸ hn
    | inr hown =>
      obtain ⟨m,hown,-⟩ := hown
      exact hown.below
  · cases hf h n hn with
    | inl hsame =>
      rw [hsame.1]
      exact Store.keeps_refl _
    | inr hown =>
      obtain ⟨m,hown,-⟩ := hown
      exact hown.data

theorem setField_arrays (h : Heap) (key : String) (v : Option Value) (r : Ref) :
    (setField h key v r).nodes = h.nodes ∧ (setField h key v r).edges = h.edges := by
  cases r with
  | none => exact ⟨rfl,rfl⟩
  | some a => exact ⟨rfl,rfl⟩

theorem withhold_arrays (deny hidden : List String) (h : Heap) (n : Node Ref) :
    (withhold deny hidden h n).2.nodes = h.nodes ∧ (withhold deny hidden h n).2.edges = h.edges := by
  cases hn : n.data with
  | none =>
    rw [withhold_none hn]
    exact ⟨rfl,rfl⟩
  | some a =>
    cases withhold_some deny hidden h hn with
    | inl hsame =>
      rw [hsame.1]
      exact ⟨rfl,rfl⟩
    | inr hown => exact ⟨hown.nodes,hown.edges⟩

theorem withhold_edits (deny hidden : List String) :
    Edits (withhold deny hidden) fun n => n.data.map (shownFields deny hidden) := by
  apply edits_of_own
  · intro h n _
    cases hn : n.data with
    | none => exact .inl ⟨withhold_none hn,by simp [view, load, hn]⟩
    | some a =>
      have hview : (view h n).data.map (shownFields deny hidden) =
          some (shownFields deny hidden (h.data.cell a)) := by simp [view, load, hn]
      cases withhold_some deny hidden h hn with
      | inl hsame => exact .inl ⟨hsame.1,by rw [hview, hsame.2]; rfl⟩
      | inr hown => exact .inr ⟨_,hown,hview⟩
  · exact fun h n => (withhold_arrays deny hidden h n).1
  · exact fun h n => (withhold_arrays deny hidden h n).2

/-- One turn of the loop over the Calico policies. -/
theorem readvertise_edits (allowed : List SARTuple) :
    Edits (fun h n => if calicoPolicyDenied allowed (view h n) then (n.data,h)
      else readvertiseCalicoPolicy allowed h n) (readvertisedData allowed) := by
  have harrays : ∀ h n, (readvertiseCalicoPolicy allowed h n).2.nodes = h.nodes ∧
      (readvertiseCalicoPolicy allowed h n).2.edges = h.edges := by
    intro h n
    unfold readvertiseCalicoPolicy
    split <;> exact ⟨rfl,rfl⟩
  apply edits_of_own
  · intro h n _
    by_cases hd : calicoPolicyDenied allowed (view h n)
    · rw [if_pos hd]
      exact .inl ⟨rfl,by rw [readvertisedData, if_pos hd]; rfl⟩
    · rw [if_neg hd, readvertisedData, if_neg hd]
      cases hv : readvertisedVersion allowed (view h n) with
      | none => exact .inl ⟨by simp [readvertiseCalicoPolicy, hv],rfl⟩
      | some apiVersion =>
        cases hn : n.data with
        | none => exact .inl ⟨by simp [readvertiseCalicoPolicy, hn],by simp [view, load, hn]⟩
        | some a =>
          right
          let m := Function.update (h.data.cell a) "apiVersion" (some (.str apiVersion))
          refine ⟨m,?_,?_⟩
          · simp only [readvertiseCalicoPolicy, hn, hv]
            exact own_alloc h m
          · simp only [view, load, hn, Option.map_some, m]
  · intro h n
    split_ifs
    · rfl
    · exact (harrays h n).1
  · intro h n
    split_ifs
    · rfl
    · exact (harrays h n).2

end Edits

section Strips

variable {h : Heap} {t : Topology}

theorem keepNodes_refines (ho : Owned h t) (q : Node Ref → Bool) :
    Refines h t (keepNodes h t ((nodesOf h t).filter q))
      { content h t with nodes := ((nodesOf h t).filter q).map (view h) } := by
  have hnodes : nodesOf (keepNodes h t ((nodesOf h t).filter q)).2
      (keepNodes h t ((nodesOf h t).filter q)).1 = (nodesOf h t).filter q := by
    simp only [nodesOf, keepNodes, writeNodes, Store.write_cell]
    exact take_overwrite_length _ _
  refine ⟨?_,⟨ho.nodes,ho.edges,?_⟩,⟨Store.keeps_refl _,?_,Store.keeps_refl _⟩,rfl,rfl⟩
  · rw [content, views, hnodes]
    rfl
  · rw [hnodes]
    exact fun n hn => ho.data n (List.mem_filter.mp hn).1
  · refine Store.keeps_write _ ?_ _
    rfl

theorem keepEdges_refines (ho : Owned h t) (kept : List Edge) :
    Refines h t (keepEdges h t kept) { content h t with edges := kept } := by
  have hedges : edgesOf (keepEdges h t kept).2 (keepEdges h t kept).1 = kept := by
    simp only [edgesOf, keepEdges, writeEdges, Store.write_cell]
    exact take_overwrite_length _ _
  refine ⟨?_,⟨ho.nodes,ho.edges,ho.data⟩,⟨Store.keeps_refl _,Store.keeps_refl _,?_⟩,rfl,rfl⟩
  · rw [content, hedges]
    rfl
  · refine Store.keeps_write _ ?_ _
    rfl

theorem map_view_filter (h : Heap) (t : Topology) (deny : List String) :
    ((nodesOf h t).filter fun n => n.id ∉ deny).map (view h) =
      (views h t).filter fun n => n.id ∉ deny := by
  rw [views, List.filter_map]
  rfl

theorem stripNodeIDs_refines (ho : Owned h t) (deny : List String) :
    Refines h t (stripNodeIDs h t deny) (dropIDs deny (content h t)) := by
  by_cases hd : deny = []
  · rw [stripNodeIDs, if_pos hd, dropIDs, if_pos hd]
    exact refines_same ho
  · rw [stripNodeIDs, if_neg hd, dropIDs, if_neg hd]
    have hnodes := keepNodes_refines ho fun n => decide (n.id ∉ deny)
    have hedges := keepEdges_refines hnodes.owned
      ((edgesOf h t).filter fun e => e.source ∉ deny && e.target ∉ deny)
    have hloop := eachNode_refines
      (withhold_edits deny (hiddenPolicyNamespaces (views h t) deny)) hedges.owned
    have hall := (hnodes.trans hedges).trans hloop
    rw [hedges.content, hnodes.content, map_view_filter] at hall
    exact hall

theorem stripNodeKinds_refines (ho : Owned h t) (deny : List String) :
    Refines h t (stripNodeKinds h t deny) (drop (fun n => n.kind ∈ deny) (content h t)) := by
  by_cases hd : deny = []
  · have hnone : deniedIDs (fun n => n.kind ∈ deny) (content h t).nodes = [] := by
      simp [deniedIDs, hd]
    rw [stripNodeKinds, if_pos hd, drop, hnone, dropIDs, if_pos rfl]
    exact refines_same ho
  · rw [stripNodeKinds, if_neg hd]
    exact stripNodeIDs_refines ho _

theorem stripNodeClassesExcept_refines (ho : Owned h t) (allowed : List SARTuple) :
    Refines h t (stripNodeClassesExcept h t allowed) (drop (nodeClassDenied allowed) (content h t)) :=
  stripNodeIDs_refines ho _

theorem stripSecretsExcept_refines (ho : Owned h t) (allowed : List SARTuple) :
    Refines h t (stripSecretsExcept h t allowed) (drop (secretDenied allowed) (content h t)) :=
  stripNodeIDs_refines ho _

theorem stripClusterScopedDynamicExcept_refines (ho : Owned h t) (allowed : List SARTuple) :
    Refines h t (stripClusterScopedDynamicExcept h t allowed)
      (drop (clusterScopedDynamicDenied allowed) (content h t)) := by
  by_cases hd : deniedIDs (clusterScopedDynamicDenied allowed) (views h t) = []
  · simp only [stripClusterScopedDynamicExcept, if_pos hd]
    rw [drop, content, hd, dropIDs, if_pos rfl]
    exact refines_same ho
  · simp only [stripClusterScopedDynamicExcept, if_neg hd]
    exact stripNodeIDs_refines ho _

theorem stripCalicoPoliciesExcept_refines (ho : Owned h t) (allowed : List SARTuple) :
    Refines h t (stripCalicoPoliciesExcept h t allowed) (dropCalico allowed (content h t)) := by
  have hloop := eachNode_refines (readvertise_edits allowed) ho
  have hstrip := stripNodeIDs_refines hloop.owned (deniedIDs (calicoPolicyDenied allowed) (views h t))
  rw [hloop.content] at hstrip
  exact hloop.trans hstrip

end Strips

end Radar.Strip
