import Mathlib.Data.List.AList
import Mathlib.Logic.Function.Basic
import Radar.Auth.Identity
import Radar.Base.Run

/-!
# The capability caches and a context switch

Capabilities are found by access reviews and kept in four caches. A call looks
its answer up, reads the client, asks its reviews outside every lock and
stores what came back; a switch cancels the operation context, swaps the
client and clears the caches one after another. A client is named by its
cluster, which answers a review as it likes.
-/

set_option autoImplicit false

namespace Radar.Rbac

open Radar.Auth

inductive Capability where
  | exec | logs | portForward | secrets | secretsUpdate | helmWrite | nodeWrite | localTerminal
  | deployments | daemonSets | statefulSets | rollouts
  deriving DecidableEq, Repr

structure Check where
  group : String := ""
  resource : String
  verb : String
  result : Capability
  namespaceFallback : Bool := false
  deriving DecidableEq, Repr

structure Config where
  inCluster : Bool := false
  forceDisableHelmWrite : Bool := false
  forceDisableExec : Bool := false
  forceDisableLocalTerminal : Bool := false
  deriving DecidableEq, Repr

def workloadChecks : List Check :=
  [{ group := "apps", resource := "deployments", verb := "patch", result := .deployments },
    { group := "apps", resource := "daemonsets", verb := "patch", result := .daemonSets },
    { group := "apps", resource := "statefulsets", verb := "patch", result := .statefulSets },
    { group := "argoproj.io", resource := "rollouts", verb := "patch", result := .rollouts }]

/-- The checks of `CheckCapabilities` and of `CheckCapabilitiesForUser`. -/
def globalChecks : List Check :=
  [{ resource := "pods/exec", verb := "create", result := .exec, namespaceFallback := true },
    { resource := "pods/log", verb := "get", result := .logs, namespaceFallback := true },
    { resource := "pods/portforward", verb := "create", result := .portForward,
      namespaceFallback := true },
    { resource := "secrets", verb := "list", result := .secrets, namespaceFallback := true },
    { resource := "secrets", verb := "update", result := .secretsUpdate,
      namespaceFallback := true },
    { resource := "secrets", verb := "create", result := .helmWrite, namespaceFallback := true },
    { resource := "nodes", verb := "patch", result := .nodeWrite, namespaceFallback := true }]
    ++workloadChecks

/-- The checks of both namespace-scoped calls. -/
def namespaceChecks (cfg : Config) : List Check :=
  (if cfg.forceDisableExec then []
    else [{ resource := "pods/exec", verb := "create", result := .exec }])
    ++[{ resource := "pods/log", verb := "get", result := .logs },
      { resource := "pods/portforward", verb := "create", result := .portForward }]
    ++workloadChecks
    ++(if cfg.forceDisableHelmWrite then []
      else [{ resource := "secrets", verb := "create", result := .helmWrite }])

/-- The calls: `CheckCapabilities`, `CheckNamespaceCapabilities`, `CheckCapabilitiesForUser` and
`CheckNamespaceCapabilitiesForUser`. -/
inductive Query where
  | capabilities
  | namespaceCapabilities (ns : String)
  | capabilitiesForUser (u : User)
  | namespaceCapabilitiesForUser (u : User) (ns : String)

/-- Who a review is about: Radar's own account or a user. -/
inductive Subject where
  | self
  | user (u : User)

def SameSubject : Subject → Subject → Prop
  | .self, .self => True
  | .user u, .user v => SameIdentity u v
  | _, _ => False

inductive Cache where
  | cachedCapabilities | nsCapCache | userCapabilitiesCache | userNamespaceCapabilitiesCache
  deriving DecidableEq, Repr

namespace Query

def subject : Query → Subject
  | .capabilities => .self
  | .namespaceCapabilities _ => .self
  | .capabilitiesForUser u => .user u
  | .namespaceCapabilitiesForUser u _ => .user u

def namespace? : Query → Option String
  | .capabilities => none
  | .namespaceCapabilities ns => some ns
  | .capabilitiesForUser _ => none
  | .namespaceCapabilitiesForUser _ ns => some ns

def cache : Query → Cache
  | .capabilities => .cachedCapabilities
  | .namespaceCapabilities _ => .nsCapCache
  | .capabilitiesForUser _ => .userCapabilitiesCache
  | .namespaceCapabilitiesForUser _ _ => .userNamespaceCapabilitiesCache

/-- The key in the call's cache; `cachedCapabilities` has a single entry. -/
def key : Query → String
  | .capabilities => ""
  | .namespaceCapabilities ns => ns
  | .capabilitiesForUser u => cacheKey u.username u.groups
  | .namespaceCapabilitiesForUser u ns =>
    cacheKey u.username u.groups ++ cacheKeySep ++ ns

def checks (cfg : Config) (q : Query) : List Check :=
  match q.namespace? with
  | none => globalChecks
  | some _ => namespaceChecks cfg

/-- Only `CheckNamespaceCapabilities` does not look at the connection status. -/
def refusesDisconnected : Query → Bool
  | .namespaceCapabilities _ => false
  | _ => true

/-- What is reported false whatever the reviews said. -/
def forcedOff (cfg : Config) (q : Query) (cap : Capability) : Bool :=
  match q, cap with
  | .capabilities, .portForward => cfg.inCluster
  | .capabilities, .helmWrite => cfg.forceDisableHelmWrite
  | .capabilities, .exec => cfg.forceDisableExec
  | .capabilitiesForUser _, .helmWrite => cfg.forceDisableHelmWrite
  | .capabilitiesForUser _, .exec => cfg.forceDisableExec
  | _, _ => false

end Query

/-- A review that was answered with yes. -/
structure Grant where
  check : Check
  cluster : String
  subject : Subject
  ns : String

def second : ℕ := 1000000000
def capabilitiesTTL : ℕ := 60*second
def capabilitiesErrorTTL : ℕ := 5*second

/-- `query` and `grants` say what the entry was computed from. -/
structure Entry where
  caps : Capability → Bool
  errors : Capability → Bool
  expiry : ℕ
  query : Query
  grants : List Grant

inductive Progress where
  | waiting
  | asked (cluster : String)
  /-- Not allowed cluster-wide; the fallback namespace is next. -/
  | refused (apiErr : Bool)
  | askedAgain (cluster ns : String) (apiErr : Bool)
  | finished
  deriving DecidableEq, Repr

/-- A call that runs its checks. Reviews of Radar's own account ask the client of the moment, those
of a user the one read before. -/
structure Call where
  query : Query
  client : String
  operation : ℕ
  fallbackNs : String
  progress : ℕ → Progress := fun _ => .waiting
  result : Capability → Bool := fun _ => false
  errors : Capability → Bool := fun _ => false
  hadErrors : Bool := false
  grants : List Grant := []

inductive Thread where
  | idle
  | missed (q : Query)
  | connected (q : Query) (client : String)
  | checking (c : Call)
  | returned

/-- How far the running switch is. `Range` deletes the keys it saw one at a time. -/
inductive Phase where
  | idle
  | cancelled (target : String)
  | swapped (target : String)
  | clearedGlobal (target : String)
  | clearedNamespaces (target : String)
  | rangingUsers (target : String) (remaining : List String)
  | clearedUsers (target : String)
  | rangingUserNamespaces (target : String) (remaining : List String)
  deriving DecidableEq, Repr

/-- A call that was answered by its cache, and the cluster of the last switch completed then. -/
structure Answer where
  query : Query
  caps : Capability → Bool
  errors : Capability → Bool
  grants : List Grant
  settled : Option String

structure Server where
  cfg : Config
  now : ℕ
  client : Option String
  operation : ℕ := 0
  caches : Cache → AList fun _ : String => Entry := fun _ => ∅
  threads : ℕ → Thread := fun _ => .idle
  phase : Phase := .idle
  settled : Option String := none
  answers : List Answer := []

def started (cfg : Config) (now : ℕ) (client : Option String) : Server where
  cfg := cfg
  now := now
  client := client

inductive Outcome where
  | granted | denied | failed
  deriving DecidableEq, Repr

inductive Act where
  | tick (elapsed : ℕ)
  /-- The call begins with its cache lookup. -/
  | lookup (i : ℕ) (q : Query)
  | getClient (i : ℕ) (disconnected : Bool)
  | newOperationContext (i : ℕ) (effectiveNamespace : String)
  | ask (i k : ℕ)
  | answer (i k : ℕ) (o : Outcome)
  | fallback (i k : ℕ) (effectiveNamespace : String)
  | store (i : ℕ)
  | cancelOngoingOperations (target : String)
  | switchContext
  /-- The next step of `InvalidateCapabilitiesCache`. -/
  | invalidate
  | delete (key : String)

namespace Server

def setThread (s : Server) (i : ℕ) (t : Thread) : Server :=
  { s with threads := Function.update s.threads i t }

def load (s : Server) (c : Cache) (key : String) : Option Entry := (s.caches c).lookup key

def setCache (s : Server) (c : Cache) (entries : AList fun _ : String => Entry) : Server :=
  { s with caches := Function.update s.caches c entries }

def storeEntry (s : Server) (e : Entry) : Server :=
  s.setCache e.query.cache ((s.caches e.query.cache).insert e.query.key e)

/-- The cluster a review of the call would be answered by now; none where it fails at once. -/
def asks (s : Server) (c : Call) : Option String :=
  if c.operation ≠ s.operation then none
  else
    match c.query.subject with
    | .self => s.client
    | .user _ => some c.client

end Server

namespace Call

def setProgress (c : Call) (k : ℕ) (p : Progress) : Call :=
  { c with progress := Function.update c.progress k p }

/-- `*c.result = true` -/
def grant (c : Call) (k : ℕ) (g : Grant) : Call :=
  { c.setProgress k .finished with
    result := Function.update c.result g.check.result true
    grants := g::c.grants }

/-- A check that ends without a grant. -/
def deny (c : Call) (k : ℕ) (check : Check) (apiErr : Bool) : Call :=
  match apiErr with
  | false => c.setProgress k .finished
  | true =>
    { c.setProgress k .finished with
      errors := Function.update c.errors check.result true
      hadErrors := true }

/-- The first review of a check was not allowed. -/
def refuse (c : Call) (k : ℕ) (check : Check) (apiErr : Bool) : Call :=
  if check.namespaceFallback then c.setProgress k (.refused apiErr) else c.deny k check apiErr

/-- The namespace `CheckCapabilities` read once, or the one its per-user twin reads for each
check. -/
def fallbackNamespace (c : Call) (effectiveNamespace : String) : String :=
  match c.query.subject with
  | .self => c.fallbackNs
  | .user _ => effectiveNamespace

def finished (cfg : Config) (c : Call) : Bool :=
  (List.range (c.query.checks cfg).length).all fun k => c.progress k = .finished

def reported (cfg : Config) (c : Call) (cap : Capability) : Bool :=
  match c.query, cap with
  | .capabilities, .localTerminal => !cfg.inCluster && !cfg.forceDisableLocalTerminal
  | q, cap => !q.forcedOff cfg cap && c.result cap

def ttl (c : Call) : ℕ :=
  match c.query with
  | .capabilitiesForUser _ => capabilitiesTTL
  | _ => if c.hadErrors then capabilitiesErrorTTL else capabilitiesTTL

def entry (cfg : Config) (now : ℕ) (c : Call) : Entry where
  caps := c.reported cfg
  errors := if c.query.namespace?.isSome then c.errors else fun _ => false
  expiry := now+c.ttl
  query := c.query
  grants := c.grants

end Call

namespace Server

/-- One step of a running call's check, the first review or the fallback. -/
def review (s : Server) (c : Call) (k : ℕ) (check : Check) : Act → Option Call
  | .ask _ _ =>
    match c.progress k with
    | .waiting =>
      match s.asks c with
      | none => some (c.refuse k check true)
      | some cluster => some (c.setProgress k (.asked cluster))
    | _ => none
  | .answer _ _ o =>
    match c.progress k with
    | .asked cluster =>
      match o with
      | .granted =>
        some (c.grant k ⟨check,cluster,c.query.subject,c.query.namespace?.getD ""⟩)
      | .denied => some (c.refuse k check false)
      | .failed => some (c.refuse k check true)
    | .askedAgain cluster ns apiErr =>
      match o with
      | .granted => some (c.grant k ⟨check,cluster,c.query.subject,ns⟩)
      | .denied => some (c.deny k check apiErr)
      | .failed => some (c.deny k check true)
    | _ => none
  | .fallback _ _ effectiveNamespace =>
    match c.progress k with
    | .refused apiErr =>
      if c.fallbackNamespace effectiveNamespace = "" then some (c.deny k check apiErr)
      else
        match s.asks c with
        | none => some (c.deny k check true)
        | some cluster =>
          some (c.setProgress k
            (.askedAgain cluster (c.fallbackNamespace effectiveNamespace) apiErr))
    | _ => none
  | _ => none

def check (s : Server) (i k : ℕ) (a : Act) : Option Server :=
  match s.threads i with
  | .checking c =>
    match (c.query.checks s.cfg)[k]? with
    | some check => (s.review c k check a).map fun c => s.setThread i (.checking c)
    | none => none
  | _ => none

/-- The next step of `InvalidateCapabilitiesCache`, and the end of the switch after its last. -/
def invalidateCapabilitiesCache (s : Server) : Option Server :=
  match s.phase with
  | .swapped target =>
    some { s.setCache .cachedCapabilities ∅ with phase := .clearedGlobal target }
  | .clearedGlobal target =>
    some { s.setCache .nsCapCache ∅ with phase := .clearedNamespaces target }
  | .clearedNamespaces target =>
    some { s with phase := .rangingUsers target (s.caches .userCapabilitiesCache).keys }
  | .rangingUsers target [] => some { s with phase := .clearedUsers target }
  | .clearedUsers target =>
    some { s with
      phase := .rangingUserNamespaces target (s.caches .userNamespaceCapabilitiesCache).keys }
  | .rangingUserNamespaces target [] =>
    some { s with phase := .idle, settled := some target }
  | _ => none

/-- `Range` reaches one of the keys it saw. -/
def rangeDelete (s : Server) (key : String) : Option Server :=
  match s.phase with
  | .rangingUsers target remaining =>
    if key ∈ remaining then
      some { s.setCache .userCapabilitiesCache ((s.caches .userCapabilitiesCache).erase key) with
        phase := .rangingUsers target (remaining.erase key) }
    else none
  | .rangingUserNamespaces target remaining =>
    if key ∈ remaining then
      some { s.setCache .userNamespaceCapabilitiesCache
          ((s.caches .userNamespaceCapabilitiesCache).erase key) with
        phase := .rangingUserNamespaces target (remaining.erase key) }
    else none
  | _ => none

def step (s : Server) (a : Act) : Option Server :=
  match a with
  | .tick elapsed => some { s with now := s.now+elapsed }
  | .lookup i q =>
    match s.threads i with
    | .idle =>
      if q.namespace? = some "" then some (s.setThread i .returned)
      else
        match s.load q.cache q.key with
        | some e =>
          if s.now < e.expiry then
            some { s.setThread i .returned with
              answers := ⟨q,e.caps,e.errors,e.grants,s.settled⟩::s.answers }
          else some (s.setThread i (.missed q))
        | none => some (s.setThread i (.missed q))
    | _ => none
  | .getClient i disconnected =>
    match s.threads i with
    | .missed q =>
      match s.client with
      | none => some (s.setThread i .returned)
      | some client =>
        if q.refusesDisconnected && disconnected then some (s.setThread i .returned)
        else some (s.setThread i (.connected q client))
    | _ => none
  | .newOperationContext i effectiveNamespace =>
    match s.threads i with
    | .connected q client =>
      some (s.setThread i (.checking ⟨q,client,s.operation,effectiveNamespace,
        fun _ => .waiting,fun _ => false,fun _ => false,false,[]⟩))
    | _ => none
  | .ask i k => s.check i k a
  | .answer i k _ => s.check i k a
  | .fallback i k _ => s.check i k a
  | .store i =>
    match s.threads i with
    | .checking c =>
      if c.finished s.cfg then some ((s.storeEntry (c.entry s.cfg s.now)).setThread i .returned)
      else none
    | _ => none
  | .cancelOngoingOperations target =>
    match s.phase with
    | .idle =>
      if s.cfg.inCluster then none
      else some { s with operation := s.operation+1, phase := .cancelled target }
    | _ => none
  | .switchContext =>
    match s.phase with
    | .cancelled target => some { s with client := some target, phase := .swapped target }
    | _ => none
  | .invalidate => s.invalidateCapabilitiesCache
  | .delete key => s.rangeDelete key

end Server

end Radar.Rbac
