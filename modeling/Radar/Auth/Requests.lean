import Mathlib.Logic.Function.Basic
import Radar.Base.Run
import Radar.Auth.PermissionCache

/-!
# Requests around context switches

Any number of requests run the namespace filter or a single authorization,
one step at a time: the cache is read, a client is read, its reviews run, the
result is stored. The active cluster, whose client and name change together,
may switch between any two steps, and the cache is dropped some time after.
-/

set_option autoImplicit false

namespace Radar.Auth

inductive Request where
  | idle
  /-- `getUserNamespacesWithStatus` after a miss, with its client, and with what its reviews gave. -/
  | missed (user : User) (requested : Option (List String))
  | discovering (user : User) (requested : Option (List String)) (client : String)
  | discovered (user : User) (requested : Option (List String)) (client : String)
      (allowed : Option (List String))
  | namespaces (result : Option (List String)) (discoveryFailed : Bool)
  /-- `canReadUserDecision` with the entry it got, its client, and the verdict. -/
  | undecided (user : User) (t : Attributes) (perms : Option ℕ)
  | asking (user : User) (t : Attributes) (perms : Option ℕ) (client : String)
  | asked (user : User) (t : Attributes) (perms : Option ℕ) (client : String) (allowed : Bool)
  | decision (allowed authoritative : Bool)

structure Server where
  /-- The active context; a client is named by the context it was built for. -/
  context : String
  now : Time
  permCache : PermissionCache
  requests : ℕ → Request

def started (context : String) (now ttl : Time) : Server where
  context := context
  now := now
  permCache := newPermissionCache ttl
  requests := fun _ => .idle

namespace Server

def get (s : Server) (user : User) : Option ℕ :=
  s.permCache.get s.now s.context user.username user.groups

def setRequest (s : Server) (i : ℕ) (r : Request) : Server :=
  { s with requests := Function.update s.requests i r }

def setCache (s : Server) (pc : PermissionCache) : Server := { s with permCache := pc }

/-- The namespaces a request gets from an entry. -/
def filtered (s : Server) (requested : Option (List String)) (ref : ℕ) : Request :=
  match s.permCache.heap[ref]? with
  | some perms => .namespaces (filterNamespacesForUser requested perms.allowedNamespaces) false
  | none => .namespaces (some []) false

end Server

inductive Act where
  | switchContext (name : String)
  | finalizePostContextSwitch
  | tick (d : ℕ)
  | getNamespaces (i : ℕ) (user : User) (requested : Option (List String))
  | canRead (i : ℕ) (user : User) (t : Attributes)
  /-- There may be no client. -/
  | readClient (i : ℕ) (ok : Bool)
  | discover (i : ℕ) (sar : Answers) (allNamespaces : List String)
  | set (i : ℕ)
  | review (i : ℕ) (answer : Option Bool)
  | setCanI (i : ℕ)

open Server in
def step (s : Server) : Act → Option Server
  | .switchContext name => some { s with context := name }
  | .finalizePostContextSwitch => some (s.setCache s.permCache.invalidate)
  | .tick d => some { s with now := s.now+d }
  | .getNamespaces i user requested =>
    match s.requests i with
    | .idle => match s.get user with
      | some ref => some (s.setRequest i (s.filtered requested ref))
      | none => some (s.setRequest i (.missed user requested))
    | _ => none
  | .canRead i user t =>
    match s.requests i with
    | .idle => match s.get user with
      | some ref => match s.permCache.canI ref t with
        | some v => some (s.setRequest i (.decision v true))
        | none => some (s.setRequest i (.undecided user t (some ref)))
      | none => some (s.setRequest i (.undecided user t none))
    | _ => none
  | .readClient i ok =>
    match s.requests i with
    | .missed user requested =>
      some (s.setRequest i
        (if ok then .discovering user requested s.context else .namespaces (some []) true))
    | .undecided user t perms =>
      some (s.setRequest i (if ok then .asking user t perms s.context else .decision false false))
    | _ => none
  | .discover i sar allNamespaces =>
    match s.requests i with
    | .discovering user requested client =>
      match discoverNamespaces sar allNamespaces with
      | some allowed => some (s.setRequest i (.discovered user requested client allowed))
      | none => some (s.setRequest i (.namespaces (some []) true))
    | _ => none
  | .set i =>
    match s.requests i with
    | .discovered user requested client allowed =>
      some ((s.setCache (s.permCache.set s.now s.context user.username user.groups allowed
        ⟨client,user⟩)).setRequest i
          (.namespaces (filterNamespacesForUser requested allowed) false))
    | _ => none
  | .review i answer =>
    match s.requests i with
    | .asking user t perms client =>
      match answer with
      | some allowed => some (s.setRequest i (.asked user t perms client allowed))
      | none => some (s.setRequest i (.decision false false))
    | _ => none
  | .setCanI i =>
    match s.requests i with
    | .asked user t perms client allowed =>
      match perms with
      | some ref =>
        some ((s.setCache (s.permCache.setCanI ref t ⟨allowed,⟨client,user⟩⟩)).setRequest i
          (.decision allowed true))
      | none => some (s.setRequest i (.decision allowed true))
    | _ => none

/-- A review ran for this cluster and this principal. -/
def RanFor (context : String) (user : User) (r : Review) : Prop :=
  r.cluster = context ∧ SameIdentity r.user user

/-- Whatever the cache returns was computed for the active cluster and the asking principal,
and stored within the TTL. -/
def Isolated (s : Server) : Prop :=
  ∀ user ref, s.get user = some ref → ∃ perms, s.permCache.heap[ref]? = some perms ∧
    RanFor s.context user perms.discovery ∧
    (∀ k d, perms.canI k = some d → RanFor s.context user d.review) ∧
    perms.storedAt ≤ s.now ∧ s.now ≤ perms.storedAt+s.permCache.ttl

/-- The client whose result `set` is about to store. -/
def Request.discoveredBy : Request → Option String
  | .discovered _ _ client _ => some client
  | _ => none

/-- The entry and the client of a verdict `SetCanI` is about to add. -/
def Request.verdictFor : Request → Option (ℕ × String)
  | .asked _ _ (some ref) client _ => some (ref, client)
  | _ => none

/-- A result is stored under the context of the client that computed it: an entry while that
context is active, a verdict in an entry stamped with it. -/
def Matching (s : Server) : Act → Prop
  | .set i => ∀ client ∈ (s.requests i).discoveredBy, client = s.context
  | .setCanI i => ∀ v ∈ (s.requests i).verdictFor, ∀ perms ∈ s.permCache.heap[v.1]?,
      v.2 = perms.contextName
  | _ => True

instance (s : Server) (a : Act) : Decidable (Matching s a) :=
  match a with
  | .set i => inferInstanceAs (Decidable (∀ client ∈ (s.requests i).discoveredBy, client = s.context))
  | .setCanI i => inferInstanceAs (Decidable (∀ v ∈ (s.requests i).verdictFor,
      ∀ perms ∈ s.permCache.heap[v.1]?, v.2 = perms.contextName))
  | .switchContext _ | .finalizePostContextSwitch | .tick _ | .getNamespaces _ _ _ | .canRead _ _ _
  | .readClient _ _ | .discover _ _ _ | .review _ _ => isTrue trivial

end Radar.Auth
