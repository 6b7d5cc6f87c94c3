import Mathlib.Data.List.Dedup
import Radar.Base.Grouping
import Radar.Base.Join
import Radar.Base.Keyed
import Radar.ReadScope.Reads

/-!
# Where a kind's objects are kept

A kind that is watched has one informer for everything it collects or one
informer for each of its namespaces. Either way, one store holds whatever the
kind's informers have in a namespace that is collected.
-/

set_option autoImplicit false

namespace Radar.ReadScope

section Build

variable (cfg : CacheConfig)

/-- What a cache keeps of a kind. -/
def ofKind (rc : ResourceCache) (key : String) :
    (Option ResourceScope × List String) × List (String × Informer) ×
      Option (String × List Informer) :=
  ((rc.resourceScopes key,rc.resourceScopeNamespaces key),rc.kindStores key,
    rc.informerStatuses.find? fun status => decide (status.1 = key))

theorem clearScope_other (rc : ResourceCache) (s : InformerSetup) (k : String) (hk : k ≠ s.key) :
    ofKind (clearScope rc s) k = ofKind rc k := by
  unfold clearScope
  split_ifs
  · rfl
  · cases rc.resourceScopes s.key with
    | none => rfl
    | some scope => simp only [ofKind, Function.update_of_ne hk]

theorem clearScope_own (a b : ResourceCache) (s : InformerSetup)
    (h : ofKind a s.key = ofKind b s.key) :
    ofKind (clearScope a s) s.key = ofKind (clearScope b s) s.key := by
  have hscope : a.resourceScopes s.key = b.resourceScopes s.key := congrArg (·.1.1) h
  unfold clearScope
  split_ifs
  · exact h
  · rw [hscope]
    cases b.resourceScopes s.key with
    | none => exact h
    | some scope =>
      have hrest : (ofKind a s.key).2 = (ofKind b s.key).2 := congrArg Prod.snd h
      simp only [ofKind, Function.update_self]
      exact congrArg (Prod.mk _) hrest

theorem addKindStore_kindStores (rc : ResourceCache) (key ns : String) (inf : Informer) :
    (addKindStore rc key ns inf).kindStores = Function.update rc.kindStores key
      ((rc.kindStores key).filter (fun st => decide (st.1 ≠ ns))++[(ns,inf)]) := rfl

/-- Stores that are added to one kind. -/
def addStores (key : String) (stores : List (String × Informer)) (rc : ResourceCache) :
    ResourceCache :=
  stores.foldl (fun rc st => addKindStore rc key st.1 st.2) rc

theorem addStores_scopes (key : String) (stores : List (String × Informer)) (rc : ResourceCache) :
    (addStores key stores rc).resourceScopes = rc.resourceScopes ∧
      (addStores key stores rc).resourceScopeNamespaces = rc.resourceScopeNamespaces := by
  unfold addStores
  induction stores generalizing rc with
  | nil => exact ⟨rfl,rfl⟩
  | cons st stores ih => exact ih _

theorem addStores_other {key k : String} (hk : k ≠ key) (stores : List (String × Informer))
    (rc : ResourceCache) : (addStores key stores rc).kindStores k = rc.kindStores k := by
  unfold addStores
  induction stores generalizing rc with
  | nil => rfl
  | cons st stores ih =>
    rw [List.foldl_cons, ih, addKindStore_kindStores, Function.update_of_ne hk]

theorem addStores_own (key : String) {stores : List (String × Informer)}
    (hnodup : (stores.map Prod.fst).Nodup) {rc : ResourceCache}
    (hnew : ∀ st ∈ rc.kindStores key, st.1 ∉ stores.map Prod.fst) :
    (addStores key stores rc).kindStores key = rc.kindStores key++stores := by
  unfold addStores
  induction stores generalizing rc with
  | nil => simp
  | cons st stores ih =>
    rw [List.map_cons, List.nodup_cons] at hnodup
    have hkept : (rc.kindStores key).filter (fun old => decide (old.1 ≠ st.1)) =
        rc.kindStores key := by
      rw [List.filter_eq_self]
      intro old hold
      have hne := hnew old hold
      rw [List.map_cons, List.mem_cons, not_or] at hne
      exact decide_eq_true hne.1
    have hadded : (addKindStore rc key st.1 st.2).kindStores key = rc.kindStores key++[st] := by
      rw [addKindStore_kindStores, Function.update_self, hkept]
    rw [List.foldl_cons, ih hnodup.2, hadded, List.append_assoc]
    · rfl
    · intro old hold
      rw [hadded, List.mem_append, List.mem_singleton] at hold
      rcases hold with hold | rfl
      · have hne := hnew old hold
        rw [List.map_cons, List.mem_cons, not_or] at hne
        exact hne.2
      · exact hnodup.1

theorem addStores_congr (key : String) (stores : List (String × Informer)) {a b : ResourceCache}
    (h : a.kindStores key = b.kindStores key) :
    (addStores key stores a).kindStores key = (addStores key stores b).kindStores key := by
  unfold addStores
  induction stores generalizing a b with
  | nil => exact h
  | cons st stores ih =>
    apply ih
    rw [addKindStore_kindStores, addKindStore_kindStores, Function.update_self,
      Function.update_self, h]

theorem storesFor_congr {a b : ResourceCache} {s : InformerSetup} (scope : ResourceScope)
    (h : a.resourceScopeNamespaces s.key = b.resourceScopeNamespaces s.key) :
    storesFor a s scope = storesFor b s scope := by
  unfold storesFor resourceScopeNamespaces
  rw [h]

theorem mem_namespaces {key : String} {scope : ResourceScope} {byKind : String → List String}
    (henabled : scope.enabled = true) (hns : scope.ns ≠ "") {n : String} :
    n ∈ resourceScopeNamespaces key scope byKind ↔
      n = scope.ns ∨ n ≠ "" ∧ n ∈ byKind key := by
  unfold resourceScopeNamespaces
  rw [henabled, if_neg (by simpa using hns)]
  by_cases hempty : byKind key = []
  · simp [hempty]
  · rw [if_neg hempty, Names.mem_distinctFrom, List.mem_cons, List.mem_singleton]
    constructor
    · rintro ⟨heq | hin,hne⟩
      · exact .inl heq
      · exact .inr ⟨hne,hin⟩
    · rintro (rfl | ⟨hne,hin⟩)
      · exact ⟨.inl rfl,hns⟩
      · exact ⟨.inr hin,hne⟩

theorem namespaces_nodup (key : String) (scope : ResourceScope) (byKind : String → List String) :
    (resourceScopeNamespaces key scope byKind).Nodup := by
  unfold resourceScopeNamespaces
  split_ifs
  · exact List.nodup_nil
  · exact List.nodup_singleton _
  · exact Names.distinctFrom_nodup _ _

theorem storesFor_each {rc : ResourceCache} {s : InformerSetup} {scope : ResourceScope}
    (h : (!s.isClusterScoped) = true ∧
      1 < (resourceScopeNamespaces s.key scope rc.resourceScopeNamespaces).length) :
    storesFor rc s scope = (resourceScopeNamespaces s.key scope rc.resourceScopeNamespaces).map
      fun ns => (ns,⟨s.key,ns⟩) :=
  if_pos h

theorem storesFor_whole {rc : ResourceCache} {s : InformerSetup} {scope : ResourceScope}
    (h : ¬((!s.isClusterScoped) = true ∧
      1 < (resourceScopeNamespaces s.key scope rc.resourceScopeNamespaces).length)) :
    storesFor rc s scope = [("",⟨s.key,if s.isClusterScoped then "" else scope.ns⟩)] :=
  if_neg h

theorem storesFor_nodup (rc : ResourceCache) (s : InformerSetup) (scope : ResourceScope) :
    ((storesFor rc s scope).map Prod.fst).Nodup := by
  by_cases h : (!s.isClusterScoped) = true ∧
      1 < (resourceScopeNamespaces s.key scope rc.resourceScopeNamespaces).length
  · rw [storesFor_each h, List.map_map]
    exact (namespaces_nodup s.key scope rc.resourceScopeNamespaces).map fun _ _ h => h
  · rw [storesFor_whole h]
    exact List.nodup_singleton _

theorem wire_eq {rc : ResourceCache} {s : InformerSetup} {scope : ResourceScope}
    (h : rc.resourceScopes s.key = some scope) (k : String) :
    ofKind (wire cfg rc s) k =
      ((rc.resourceScopes k,rc.resourceScopeNamespaces k),
        (addStores s.key (storesFor rc s scope) rc).kindStores k,
        (rc.informerStatuses++[(s.key,(storesFor rc s scope).map Prod.snd)]).find? fun status =>
          decide (status.1 = k)) := by
  obtain ⟨hscopes,hnamespaces⟩ := addStores_scopes s.key (storesFor rc s scope) rc
  unfold addStores at hscopes hnamespaces
  rw [wire, h]
  simp only [ofKind, hscopes, hnamespaces]
  rfl

theorem wire_other (rc : ResourceCache) (s : InformerSetup) (k : String) (hk : k ≠ s.key) :
    ofKind (wire cfg rc s) k = ofKind rc k := by
  cases hscope : rc.resourceScopes s.key with
  | none => rw [wire, hscope]
  | some scope =>
    rw [wire_eq cfg hscope, addStores_other hk, List.find?_append]
    simp [ofKind, Ne.symm hk]

theorem wire_own (a b : ResourceCache) (s : InformerSetup) (h : ofKind a s.key = ofKind b s.key) :
    ofKind (wire cfg a s) s.key = ofKind (wire cfg b s) s.key := by
  have hscopes : a.resourceScopes s.key = b.resourceScopes s.key := congrArg (·.1.1) h
  have hnamespaces : a.resourceScopeNamespaces s.key = b.resourceScopeNamespaces s.key :=
    congrArg (·.1.2) h
  have hstores : a.kindStores s.key = b.kindStores s.key := congrArg (·.2.1) h
  have hstatus : (a.informerStatuses.find? fun status => decide (status.1 = s.key)) =
      b.informerStatuses.find? fun status => decide (status.1 = s.key) := congrArg (·.2.2) h
  cases hscope : a.resourceScopes s.key with
  | none =>
    rw [wire, hscope, wire, ← hscopes, hscope]
    exact h
  | some scope =>
    rw [wire_eq cfg hscope, wire_eq cfg (hscopes ▸ hscope), storesFor_congr scope hnamespaces,
      hscopes, hnamespaces,
      addStores_congr s.key _ hstores, List.find?_append, List.find?_append, hstatus]

end Build

section Layout

/-- A namespace that the kind's informers collect, as far as the cache knows. -/
def Covers (rc : ResourceCache) (key ns : String) : Prop :=
  ∀ covered, KindNamespaces rc key = some covered → ns ∈ covered

/-- How the stores of a kind lie. -/
inductive Layout (rc : ResourceCache) (key : String) : Prop where
  | whole (watched : String)
      (hcovered : KindNamespaces rc key = if watched = "" then none else some [watched])
      (hstores : rc.kindStores key = [("",⟨key,watched⟩)])
  | each (namespaces : List String) (hcovered : KindNamespaces rc key = some namespaces)
      (hne : namespaces ≠ []) (hnodup : namespaces.Nodup) (hnamed : "" ∉ namespaces)
      (hstores : rc.kindStores key = namespaces.map fun ns => (ns,⟨key,ns⟩))

/-- A kind that the cache has informers for. -/
structure Watched (rc : ResourceCache) (key : String) : Prop where
  enabled : isEnabled rc key = true
  status : (rc.informerStatuses.find? fun status => decide (status.1 = key)) =
    some (key,(rc.kindStores key).map Prod.snd)
  layout : Layout rc key

variable {cfg : CacheConfig} {setup : InformerSetup} {scope : ResourceScope}

/-- The scope that the cache keeps of a kind. -/
def kept (setup : InformerSetup) (scope : ResourceScope) : ResourceScope :=
  if setup.isClusterScoped then { scope with ns := "" } else scope

def keptNamespaces (cfg : CacheConfig) (setup : InformerSetup) : List String :=
  if setup.isClusterScoped then [] else cfg.resourceScopeNamespaces setup.key

theorem enabledScopes_enabled {key : String} (h : enabledScopes cfg key = some scope) :
    scope.enabled = true := by
  unfold enabledScopes at h
  cases hscopes : cfg.resourceScopes with
  | none =>
    rw [hscopes] at h
    split_ifs at h
    all_goals
      rw [← Option.some.inj h]
  | some scopes =>
    rw [hscopes] at h
    exact (Option.filter_eq_some_iff.mp h).2

variable (hsetup : setup ∈ buildInformerSetups) (hscope : enabledScopes cfg setup.key = some scope)
include hsetup hscope

theorem scopedCache_kind :
    ofKind (scopedCache cfg) setup.key = ((some (kept setup scope),keptNamespaces cfg setup),[],none) := by
  have htouched : ofKind (scopedCache cfg) setup.key = ofKind (clearScope _ setup) setup.key :=
    Keyed.foldl_touched clearScope_other clearScope_own hsetup setup_keys_nodup
      { resourceScopes := enabledScopes cfg, resourceScopeNamespaces := cfg.resourceScopeNamespaces }
  rw [htouched]
  unfold clearScope kept keptNamespaces
  cases hcluster : setup.isClusterScoped with
  | false => simp [ofKind, hscope]
  | true => simp [ofKind, hscope]

theorem new_kind :
    ofKind (NewResourceCache cfg) setup.key =
      ((some (kept setup scope),keptNamespaces cfg setup),
        storesFor (NewResourceCache cfg) setup (kept setup scope),
        some (setup.key,(storesFor (NewResourceCache cfg) setup (kept setup scope)).map Prod.snd)) := by
  have hkind := scopedCache_kind hsetup hscope
  have hkept : (scopedCache cfg).resourceScopes setup.key = some (kept setup scope) :=
    congrArg (·.1.1) hkind
  have hnamespaces : (scopedCache cfg).resourceScopeNamespaces setup.key = keptNamespaces cfg setup :=
    congrArg (·.1.2) hkind
  have hempty : (scopedCache cfg).kindStores setup.key = [] := congrArg (·.2.1) hkind
  have hnone : ((scopedCache cfg).informerStatuses.find? fun status =>
      decide (status.1 = setup.key)) = none := congrArg (·.2.2) hkind
  have htouched : ofKind (NewResourceCache cfg) setup.key =
      ofKind (wire cfg (scopedCache cfg) setup) setup.key :=
    Keyed.foldl_touched (wire_other cfg) (wire_own cfg) hsetup setup_keys_nodup (scopedCache cfg)
  rw [wire_eq cfg hkept] at htouched
  have hsame : storesFor (NewResourceCache cfg) setup (kept setup scope) =
      storesFor (scopedCache cfg) setup (kept setup scope) :=
    storesFor_congr _ (congrArg (·.1.2) htouched)
  rw [htouched, hsame, addStores_own setup.key (storesFor_nodup _ _ _) (by simp [hempty]), hkept,
    hnamespaces, hempty, List.find?_append, hnone]
  simp

theorem new_watched : Watched (NewResourceCache cfg) setup.key := by
  have hkind := new_kind hsetup hscope
  have hkept : (NewResourceCache cfg).resourceScopes setup.key = some (kept setup scope) :=
    congrArg (·.1.1) hkind
  have hstores : (NewResourceCache cfg).kindStores setup.key =
      storesFor (NewResourceCache cfg) setup (kept setup scope) := congrArg (·.2.1) hkind
  constructor
  · rw [isEnabled, hkept]
    rfl
  · rw [hstores]
    exact congrArg (·.2.2) hkind
  · by_cases hns : (kept setup scope).ns = ""
    · have hfew : ¬((!setup.isClusterScoped) = true ∧
          1 < (resourceScopeNamespaces setup.key (kept setup scope)
            (NewResourceCache cfg).resourceScopeNamespaces).length) := by
        simp [resourceScopeNamespaces, hns]
      apply Layout.whole ""
      · rw [KindNamespaces, hkept]
        simp [hns]
      · rw [hstores, storesFor_whole hfew, hns, ite_self]
    · have hlocal : setup.isClusterScoped = false := by
        by_contra hcluster
        exact hns (by simp [kept, hcluster])
      have henabled : (kept setup scope).enabled = true := by
        simp [kept, hlocal, enabledScopes_enabled hscope]
      have hcovered : KindNamespaces (NewResourceCache cfg) setup.key =
          some (resourceScopeNamespaces setup.key (kept setup scope)
            (NewResourceCache cfg).resourceScopeNamespaces) := by
        rw [KindNamespaces, hkept]
        simp [hns, henabled]
      have hin : (kept setup scope).ns ∈ resourceScopeNamespaces setup.key (kept setup scope)
          (NewResourceCache cfg).resourceScopeNamespaces :=
        (mem_namespaces henabled hns).mpr (.inl rfl)
      by_cases hmany : 1 < (resourceScopeNamespaces setup.key (kept setup scope)
          (NewResourceCache cfg).resourceScopeNamespaces).length
      · refine .each _ hcovered (List.ne_nil_of_mem hin) (namespaces_nodup _ _ _) ?_ ?_
        · rw [mem_namespaces henabled hns]
          simp [Ne.symm hns]
        · rw [hstores, storesFor_each ⟨by simp [hlocal],hmany⟩]
      · apply Layout.whole (kept setup scope).ns
        · have hone : resourceScopeNamespaces setup.key (kept setup scope)
              (NewResourceCache cfg).resourceScopeNamespaces = [(kept setup scope).ns] := by
            obtain ⟨n,hn⟩ := List.length_eq_one_iff.mp
              (by have := List.length_pos_of_mem hin; omega :
                (resourceScopeNamespaces setup.key (kept setup scope)
                  (NewResourceCache cfg).resourceScopeNamespaces).length = 1)
            rw [hn] at hin ⊢
            rw [List.mem_singleton.mp hin]
          rw [hcovered, hone, if_neg hns]
        · rw [hstores, storesFor_whole (by simp [hmany]), hlocal]
          rfl

theorem covers_iff (ns : String) :
    Covers (NewResourceCache cfg) setup.key ns ↔
      setup.isClusterScoped = true ∨ scope.ns = "" ∨ ns = scope.ns ∨
        ns ≠ "" ∧ ns ∈ cfg.resourceScopeNamespaces setup.key := by
  have hkind := new_kind hsetup hscope
  have hkept : (NewResourceCache cfg).resourceScopes setup.key = some (kept setup scope) :=
    congrArg (·.1.1) hkind
  have hnamespaces : (NewResourceCache cfg).resourceScopeNamespaces setup.key =
      keptNamespaces cfg setup := congrArg (·.1.2) hkind
  have henabled := enabledScopes_enabled hscope
  unfold Covers
  rw [KindNamespaces, hkept]
  cases hcluster : setup.isClusterScoped with
  | true => simp [kept, hcluster]
  | false =>
    by_cases hns : scope.ns = ""
    · simp [kept, hcluster, hns]
    · simp [kept, keptNamespaces, hcluster, hns, henabled, mem_namespaces henabled hns, hnamespaces]

end Layout

section Held

variable {rc : ResourceCache} {key ns : String}

/-- The objects of a namespace that the kind's informers hold. -/
def heldIn (rc : ResourceCache) (key : String) (w : World) (ns : String) : List Object :=
  ((rc.kindStores key).flatMap fun st => (w.store st.2).items).filter fun o => decide (o.ns.1 = ns)

/-- A namespace that is collected has a store with all that the kind's informers hold of it. -/
theorem store_holds (h : Layout rc key) (hcovers : Covers rc key ns) :
    ∃ inf, storeFor rc key ns = some inf ∧ inf ∈ (rc.kindStores key).map Prod.snd ∧
      ∀ w : World, StoreRead.objects (inf,some ns) w = heldIn rc key w ns := by
  cases h with
  | whole watched hcovered hstores =>
    refine ⟨⟨key,watched⟩,?_,by simp [hstores],fun w => by simp [heldIn, hstores, StoreRead.objects]⟩
    unfold storeFor
    rw [hstores]
    by_cases hns : ns = ""
    · simp [hns]
    · simp [Ne.symm hns]
  | each namespaces hcovered hne hnodup hnamed hstores =>
    have hin := hcovers _ hcovered
    refine ⟨⟨key,ns⟩,?_,?_,fun w => ?_⟩
    · unfold storeFor
      rw [hstores]
      cases hfind : (namespaces.map fun n => (n,(⟨key,n⟩ : Informer))).find? fun st =>
          decide (st.1 = ns) with
      | none =>
        have hnone := List.find?_eq_none.mp hfind (ns,⟨key,ns⟩) (List.mem_map.mpr ⟨ns,hin,rfl⟩)
        exact absurd (decide_eq_true rfl) hnone
      | some st =>
        obtain ⟨n,-,rfl⟩ := List.mem_map.mp (List.mem_of_find?_eq_some hfind)
        have hname : n = ns := by simpa using List.find?_some hfind
        simp only [hfind, hname]
    · rw [hstores, List.map_map]
      exact List.mem_map.mpr ⟨ns,hin,rfl⟩
    · rw [heldIn, hstores, List.flatMap_map, Grouping.filter_flatMap_one hnodup hin]
      · rfl
      · intro n hn hother
        rw [List.filter_eq_nil_iff]
        intro o ho heq
        rcases (w.store ⟨key,n⟩).inScope o ho with hempty | hscope
        · exact hnamed (hempty ▸ hn)
        · exact hother (hscope.symm.trans (of_decide_eq_true heq))

theorem mem_held {w : World} {o : Object} (h : o ∈ heldIn rc key w ns) : o.ns.1 = ns :=
  of_decide_eq_true (List.mem_filter.mp h).2

/-- A key tells the namespace and the name it was made of. -/
theorem keyOf_inj {a b name : ApiName} : keyOf a b = keyOf ns name ↔ a.1 = ns ∧ b = name := by
  constructor
  · intro h
    unfold keyOf at h
    have hslash : ∀ (front : String) (t : ApiName), t.1 ≠ front++"/"++name.1 ∧
        t.1 ≠ front++"/"++b.1 := by
      intro front t
      constructor
      all_goals
        intro heq
        apply t.2
        rw [heq]
        simp
    split_ifs at h with ha hns hns
    · exact ⟨ha.trans hns.symm,Subtype.ext h⟩
    · exact absurd h (hslash ns b).1
    · exact absurd h.symm (hslash a name).2
    · obtain ⟨hfront,hlast⟩ := Join.last_part_inj b.2 name.2 h
      exact ⟨hfront,Subtype.ext hlast⟩
  · rintro ⟨rfl,rfl⟩
    rfl

theorem find_key (items : List Object) (name : ApiName) :
    (items.find? fun o => decide (o.key = keyOf ns name)) =
      (items.filter fun o => decide (o.ns.1 = ns)).find? fun o => decide (o.name = name) := by
  rw [List.find?_filter]
  congr 1
  ext o
  rw [Object.key, decide_eq_decide, keyOf_inj]
  simp

theorem held_nodup (h : Layout rc key) (hcovers : Covers rc key ns) (w : World) :
    ((heldIn rc key w ns).map Object.key).Nodup := by
  obtain ⟨inf,-,-,hheld⟩ := store_holds h hcovers
  rw [← hheld w]
  exact (w.store inf).keys.sublist (List.filter_sublist.map Object.key)

end Held

end Radar.ReadScope
