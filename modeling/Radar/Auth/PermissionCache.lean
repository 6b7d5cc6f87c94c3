import Mathlib.Data.Int.Notation
import Radar.Auth.Identity

/-!
# The permission cache

Entries are objects that stay shared after they are read, so the cache maps
keys to places of a heap. `Review` records the cluster and the principal an
access review ran for and `storedAt` the moment an entry was stored; the code
has neither, and no operation branches on them.
-/

set_option autoImplicit false

namespace Radar.Auth

/-- Nanoseconds. -/
abbrev Time := ℤ

structure Review where
  cluster : String
  user : User

structure Attributes where
  verb : String
  group : String
  resource : String
  ns : String
  deriving DecidableEq, Repr

def canIKey (t : Attributes) : String :=
  t.verb ++ cacheKeySep ++ t.group ++ cacheKeySep ++ t.resource ++ cacheKeySep ++ t.ns

structure Decision where
  allowed : Bool
  review : Review

/-- No list of allowed namespaces means all of them. -/
structure UserPermissions where
  allowedNamespaces : Option (List String)
  discovery : Review
  expiresAt : Time
  storedAt : Time
  contextName : String
  canI : String → Option Decision

structure PermissionCache where
  cache : String → Option ℕ
  heap : List UserPermissions
  ttl : Time

def newPermissionCache (ttl : Time) : PermissionCache := ⟨fun _ => none,[],ttl⟩

namespace PermissionCache

/-- The entry, unless it is missing, expired or stamped with another context. -/
def get (pc : PermissionCache) (now : Time) (context username : String) (groups : List String) :
    Option ℕ := do
  let ref ← pc.cache (cacheKey username groups)
  let perms ← pc.heap[ref]?
  if now > perms.expiresAt then none
  else if perms.contextName ≠ context then none
  else some ref

/-- Whether the eviction of a later `set` drops the entry. -/
def expired (pc : PermissionCache) (now : Time) (ref : ℕ) : Bool :=
  match pc.heap[ref]? with
  | some perms => decide (now > perms.expiresAt)
  | none => false

/-- Stores a new entry under the current context and drops the expired ones. -/
def set (pc : PermissionCache) (now : Time) (context username : String) (groups : List String)
    (allowed : Option (List String)) (review : Review) : PermissionCache :=
  { pc with
    heap := pc.heap++[⟨allowed,review,now+pc.ttl,now,context,fun _ => none⟩]
    cache := fun k =>
      if k = cacheKey username groups then some pc.heap.length
      else (pc.cache k).filter fun ref => !pc.expired now ref }

def invalidate (pc : PermissionCache) : PermissionCache := { pc with cache := fun _ => none }

def canI (pc : PermissionCache) (ref : ℕ) (t : Attributes) : Option Bool := do
  let perms ← pc.heap[ref]?
  let d ← perms.canI (canIKey t)
  some d.allowed

def setDecision (t : Attributes) (d : Decision) (perms : UserPermissions) : UserPermissions :=
  { perms with canI := fun k => if k = canIKey t then some d else perms.canI k }

def setCanI (pc : PermissionCache) (ref : ℕ) (t : Attributes) (d : Decision) : PermissionCache :=
  { pc with heap := pc.heap.modify ref (setDecision t d) }

end PermissionCache

section Discovery

/-- The answers of one client to access reviews; `none` is an error. -/
abbrev Answers := Attributes → Option Bool

/-- Pods first, deployments when pods are denied. -/
def namespaceAllowed (sar : Answers) (ns : String) : Option Bool := do
  let ok ← sar ⟨"list","","pods",ns⟩
  if ok then some true else sar ⟨"list","apps","deployments",ns⟩

def allowedAmong (sar : Answers) : List String → Option (List String)
  | [] => some []
  | ns::rest => do
    let ok ← namespaceAllowed sar ns
    let allowedNS ← allowedAmong sar rest
    some (if ok then ns::allowedNS else allowedNS)

/-- `none` when a review failed. The namespaces are given in the order their answers arrive. -/
def discoverNamespaces (sar : Answers) (allNamespaces : List String) :
    Option (Option (List String)) := do
  let allowed ← sar ⟨"list","","pods",""⟩
  if allowed then some none
  else do
    let allowedNS ← allowedAmong sar allNamespaces
    some (some allowedNS)

/-- For a user whose permissions are known; a missing list stands for nil. -/
def filterNamespacesForUser (requested allowed : Option (List String)) : Option (List String) :=
  match allowed with
  | none => requested
  | some allowed =>
    if (requested.getD []).length = 0 then some allowed
    else some ((requested.getD []).filter (· ∈ allowed))

end Discovery

end Radar.Auth
