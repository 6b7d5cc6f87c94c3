import Mathlib.Data.List.Nodup
import Mathlib.Data.String.Basic
import Mathlib.Logic.Function.Basic
import Radar.Base.Names

/-!
# The stores of a resource cache

A configuration enables kinds, for the whole cluster or for some namespaces. A
namespaced kind that is collected in several namespaces gets an informer for
each; every other kind gets one informer, whose store stands under no namespace.
-/

set_option autoImplicit false

namespace Radar.ReadScope

/-- A namespace or a name, as the API server admits it. A cluster-scoped object has no namespace. -/
abbrev ApiName := { s : String // '/' ∉ s.toList }

structure Object where
  ns : ApiName
  name : ApiName
  body : String
  deriving DecidableEq

/-- The key under which a store holds an object. -/
def keyOf (ns name : String) : String := if ns = "" then name else ns++"/"++name

def Object.key (o : Object) : String := keyOf o.ns o.name

structure InformerSetup where
  key : String
  isEvent : Bool := false
  isClusterScoped : Bool := false
  deriving DecidableEq

def buildInformerSetups : List InformerSetup :=
  [{ key := "services" },
   { key := "pods" },
   { key := "nodes", isClusterScoped := true },
   { key := "namespaces", isClusterScoped := true },
   { key := "configmaps" },
   { key := "secrets" },
   { key := "events", isEvent := true },
   { key := "persistentvolumeclaims" },
   { key := "persistentvolumes", isClusterScoped := true },
   { key := "deployments" },
   { key := "daemonsets" },
   { key := "statefulsets" },
   { key := "replicasets" },
   { key := "ingresses" },
   { key := "ingressclasses", isClusterScoped := true },
   { key := "jobs" },
   { key := "cronjobs" },
   { key := "horizontalpodautoscalers" },
   { key := "storageclasses", isClusterScoped := true },
   { key := "poddisruptionbudgets" },
   { key := "networkpolicies" },
   { key := "serviceaccounts" },
   { key := "roles" },
   { key := "clusterroles", isClusterScoped := true },
   { key := "rolebindings" },
   { key := "clusterrolebindings", isClusterScoped := true },
   { key := "limitranges" },
   { key := "resourcequotas" }]

theorem setup_keys_nodup : (buildInformerSetups.map (·.key)).Nodup := by
  decide +kernel

/-- No namespace stands for the whole cluster. -/
structure ResourceScope where
  enabled : Bool
  ns : String
  deriving DecidableEq

/-- A map without a key has no scope or an empty list for it. -/
structure CacheConfig where
  resourceTypes : String → Bool := fun _ => false
  namespaceScoped : Bool := false
  ns : String := ""
  resourceScopes : Option (String → Option ResourceScope) := none
  resourceScopeNamespaces : String → List String := fun _ => []
  deferredTypes : String → Bool := fun _ => false

/-- An informer watches one namespace, or all of them. -/
structure Informer where
  key : String
  watched : String
  deriving DecidableEq

structure ResourceCache where
  resourceScopes : String → Option ResourceScope
  resourceScopeNamespaces : String → List String
  /-- The stores of a kind by the namespace they stand under. -/
  kindStores : String → List (String × Informer) := fun _ => []
  /-- The informers that a kind's sync state asks, in the order of the statuses. -/
  informerStatuses : List (String × List Informer) := []
  backgroundKeys : String → Bool := fun _ => false

section Scopes

def resourceScopeNamespaces (key : String) (scope : ResourceScope)
    (byKind : String → List String) : List String :=
  if !scope.enabled || scope.ns = "" then []
  else if byKind key = [] then [scope.ns]
  else Names.distinctFrom [""] (scope.ns::byKind key)

variable (cfg : CacheConfig)

/-- The scopes that are enabled; without scopes, one for each type. -/
def enabledScopes (key : String) : Option ResourceScope :=
  match cfg.resourceScopes with
  | some scopes => (scopes key).filter (·.enabled)
  | none =>
    if cfg.resourceTypes key then some ⟨true,if cfg.namespaceScoped then cfg.ns else ""⟩ else none

/-- A cluster-scoped kind is collected in the whole cluster, whatever its scope says. -/
def clearScope (rc : ResourceCache) (setup : InformerSetup) : ResourceCache :=
  if !setup.isClusterScoped then rc
  else
    match rc.resourceScopes setup.key with
    | none => rc
    | some scope =>
      { rc with
        resourceScopes :=
          Function.update rc.resourceScopes setup.key (some { scope with ns := "" })
        resourceScopeNamespaces := Function.update rc.resourceScopeNamespaces setup.key [] }

def scopedCache : ResourceCache :=
  buildInformerSetups.foldl clearScope
    { resourceScopes := enabledScopes cfg, resourceScopeNamespaces := cfg.resourceScopeNamespaces }

def addKindStore (rc : ResourceCache) (key ns : String) (inf : Informer) : ResourceCache :=
  { rc with
    kindStores := Function.update rc.kindStores key
      ((rc.kindStores key).filter (fun st => decide (st.1 ≠ ns))++[(ns,inf)]) }

/-- The namespaces under which a kind's stores stand, with their informers. -/
def storesFor (rc : ResourceCache) (setup : InformerSetup) (scope : ResourceScope) :
    List (String × Informer) :=
  let scopeNamespaces := resourceScopeNamespaces setup.key scope rc.resourceScopeNamespaces
  if !setup.isClusterScoped ∧ 1 < scopeNamespaces.length then
    scopeNamespaces.map fun ns => (ns,⟨setup.key,ns⟩)
  else [("",⟨setup.key,if setup.isClusterScoped then "" else scope.ns⟩)]

def wire (rc : ResourceCache) (setup : InformerSetup) : ResourceCache :=
  match rc.resourceScopes setup.key with
  | none => rc
  | some scope =>
    let stores := storesFor rc setup scope
    { stores.foldl (fun rc st => addKindStore rc setup.key st.1 st.2) rc with
      informerStatuses := rc.informerStatuses++[(setup.key,stores.map Prod.snd)]
      backgroundKeys :=
        if cfg.deferredTypes setup.key && setup.isEvent then
          Function.update rc.backgroundKeys setup.key true
        else rc.backgroundKeys }

def NewResourceCache : ResourceCache := buildInformerSetups.foldl (wire cfg) (scopedCache cfg)

end Scopes

section Moving

/-- What an informer holds, by key and in the namespace it watches. -/
structure Store (watched : String) where
  items : List Object
  keys : (items.map Object.key).Nodup
  inScope : ∀ o ∈ items, watched = "" ∨ o.ns.1 = watched

/-- What moves behind a cache. -/
structure World where
  synced : Informer → Bool
  store : (inf : Informer) → Store inf.watched
  deferredFailed : Bool
  /-- The kinds that the deferred sync keeps track of. -/
  deferredSynced : String → Bool

/-- Informers sync for good and hold what the cluster has, kinds come to be tracked, the deadline
fires. -/
inductive Moves : World → World → Prop where
  | sync (w : World) (inf : Informer) :
      Moves w { w with synced := Function.update w.synced inf true }
  | hold (w : World) (inf : Informer) (held : Store inf.watched) :
      Moves w { w with store := Function.update w.store inf held }
  | track (w : World) (keys : String → Bool) : Moves w { w with deferredSynced := keys }
  | deadline (w : World) : Moves w { w with deferredFailed := true }

end Moving

end Radar.ReadScope
