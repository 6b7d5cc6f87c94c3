import Mathlib.Data.Nat.Notation
import Mathlib.Logic.Function.Basic
import Radar.Base.Run

/-!
# The published permission result and a context switch

A probe looks for a fresh result and captures the generation, reads the
client, lists one object of each kind, and its result is published if the
generation has not moved. A switch invalidates before it swaps the client and
again afterwards. A client is named by its cluster, which answers as it likes.
-/

set_option autoImplicit false

namespace Radar.Permissions

/-- What a cluster said when one kind was listed, cluster-wide if `ns` is empty. -/
structure ProbeAnswer where
  cluster : String
  key : String
  ns : String
  allowed : Bool
  transient : Bool
  deriving DecidableEq, Repr

structure PermissionCheckResult where
  answers : List ProbeAnswer
  deriving DecidableEq, Repr

/-- `unpublished` is false for a result that is already the cache's, or that there was no client
for. -/
structure PermissionProbe where
  result : PermissionCheckResult
  hadErrors : Bool := false
  gen : ℕ := 0
  unpublished : Bool := false
  deriving DecidableEq, Repr

/-- `client` is the client that was read, or the one that was installed when the cache answered. -/
inductive Thread where
  | idle
  | captured (gen : ℕ)
  | probing (gen : ℕ) (client : String) (answers : List ProbeAnswer)
  | probed (probe : PermissionProbe) (client : Option String)
  | returned
  deriving DecidableEq, Repr

/-- How far the running switch is. -/
inductive Phase where
  | idle
  | invalidated (target : String)
  | swapped (target : String)
  /-- `ClearNamespaceScopeOverride` has returned. -/
  | cleared (target : String)
  | restored (target : String)
  | scoped (target : String)
  | connecting (target : String)
  deriving DecidableEq, Repr

/-- `published` lists what `publishResourcePermissions` answered true for, with the client installed
at that moment. -/
structure Server where
  inCluster : Bool
  now : ℕ
  client : Option String
  cachedPermResult : Option PermissionCheckResult := none
  resourcePermsExpiry : ℕ := 0
  resourcePermsGen : ℕ := 0
  threads : ℕ → Thread := fun _ => .idle
  phase : Phase := .idle
  published : List (PermissionCheckResult × Option String) := []

def started (inCluster : Bool) (now : ℕ) (client : Option String) : Server where
  inCluster := inCluster
  now := now
  client := client

inductive Act where
  | tick (elapsed : ℕ)
  /-- The cache check of `probeResourcePermissions`. -/
  | probe (i : ℕ) (bypassCache : Bool)
  | getClient (i : ℕ)
  | list (i : ℕ) (key ns : String) (allowed transient : Bool)
  | finish (i : ℕ)
  | publish (i : ℕ)
  /-- A probe that startup does not pick is never published. -/
  | discard (i : ℕ)
  /-- A rescope, or a reconnect within the cluster. -/
  | invalidate
  | invalidateBefore (target : String)
  | switchContext (ok : Bool)
  | clearNamespaceScopeOverride
  | restoreNamespaceScopePreference (picked : Bool)
  | requireNamespaceScopeTarget (ok : Bool)
  | invalidateAfter
  /-- The switch fails later, or succeeds. -/
  | finishSwitch
  deriving DecidableEq, Repr

def second : ℕ := 1000000000
def resourcePermsTTL : ℕ := 60*second
def resourcePermsErrorTTL : ℕ := 5*second

def PermissionProbe.ttl (p : PermissionProbe) : ℕ :=
  if p.hadErrors then resourcePermsErrorTTL else resourcePermsTTL

namespace Server

def setThread (s : Server) (i : ℕ) (t : Thread) : Server :=
  { s with threads := Function.update s.threads i t }

def getCachedPermissionResult (s : Server) : Option PermissionCheckResult := s.cachedPermResult

def invalidateResourcePermissionsCache (s : Server) : Server :=
  { s with
    cachedPermResult := none
    resourcePermsExpiry := 0
    resourcePermsGen := s.resourcePermsGen+1 }

def setPhase (s : Server) (p : Phase) : Server := { s with phase := p }

/-- A fresh cached result, unless it is bypassed. -/
def fresh (s : Server) (bypassCache : Bool) : Option PermissionCheckResult :=
  if bypassCache then none
  else if s.now < s.resourcePermsExpiry then s.cachedPermResult else none

/-- `publishResourcePermissions`, and what it answers. -/
def publishResourcePermissions (s : Server) (p : PermissionProbe) : Server × Bool :=
  if !p.unpublished then (s,true)
  else if s.resourcePermsGen ≠ p.gen then (s,false)
  else
    ({ s with
      cachedPermResult := some p.result
      resourcePermsExpiry := s.now+p.ttl },true)

/-- The answer is remembered if it is true. -/
def answer (s : Server) (result : PermissionCheckResult) (isCurrent : Bool) : Server :=
  if isCurrent then { s with published := (result,s.client)::s.published } else s

def probeStep (s : Server) (i : ℕ) (a : Act) : Option Server :=
  match s.threads i, a with
  | .idle, .probe _ bypassCache =>
    match s.fresh bypassCache with
    | some result => some (s.setThread i (.probed ⟨result,false,0,false⟩ s.client))
    | none => some (s.setThread i (.captured s.resourcePermsGen))
  | .captured gen, .getClient _ =>
    match s.client with
    | none => some (s.setThread i (.probed ⟨⟨[]⟩,false,0,false⟩ none))
    | some client => some (s.setThread i (.probing gen client []))
  | .probing gen client answers, .list _ key ns allowed transient =>
    some (s.setThread i (.probing gen client (⟨client,key,ns,allowed,transient⟩::answers)))
  | .probing gen client answers, .finish _ =>
    some (s.setThread i
      (.probed ⟨⟨answers⟩,answers.any ProbeAnswer.transient,gen,true⟩ (some client)))
  | .probed p _, .publish _ =>
    let r := s.publishResourcePermissions p
    some ((r.1.answer p.result r.2).setThread i .returned)
  | .probed _ _, .discard _ => some (s.setThread i .returned)
  | _, _ => none

def switchStep (s : Server) (a : Act) : Option Server :=
  match s.phase, a with
  | .idle, .invalidateBefore target =>
    if s.inCluster then none
    else some (s.invalidateResourcePermissionsCache.setPhase (.invalidated target))
  | .invalidated target, .switchContext ok =>
    if ok then some ({ s with client := some target }.setPhase (.swapped target))
    else some (s.setPhase .idle)
  | .swapped target, .clearNamespaceScopeOverride =>
    some (s.invalidateResourcePermissionsCache.setPhase (.cleared target))
  | .cleared target, .restoreNamespaceScopePreference picked =>
    if picked then some (s.invalidateResourcePermissionsCache.setPhase (.restored target))
    else some (s.setPhase (.restored target))
  | .restored target, .requireNamespaceScopeTarget ok =>
    if ok then some (s.setPhase (.scoped target)) else some (s.setPhase .idle)
  | .scoped target, .invalidateAfter =>
    some (s.invalidateResourcePermissionsCache.setPhase (.connecting target))
  | .connecting _, .finishSwitch => some (s.setPhase .idle)
  | _, _ => none

def step (s : Server) (a : Act) : Option Server :=
  match a with
  | .tick elapsed => some { s with now := s.now+elapsed }
  | .probe i _ => s.probeStep i a
  | .getClient i => s.probeStep i a
  | .list i _ _ _ _ => s.probeStep i a
  | .finish i => s.probeStep i a
  | .publish i => s.probeStep i a
  | .discard i => s.probeStep i a
  | .invalidate => some s.invalidateResourcePermissionsCache
  | _ => s.switchStep a

end Server

end Radar.Permissions
