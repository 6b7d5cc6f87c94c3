import Mathlib.Logic.Function.Basic
import Radar.Base.Run

/-!
# Namespace picks

A pick belongs to a user and a context. It is set by a POST, and a GET seeds
it, drops what was deleted from it and trims it to what the user may see.
Writers hold a lock while they write; the context is switched without it.
`writes` and `recent` only record what happened: every write with the context
its picks were checked against, and the contexts active since the maps were
last cleared.
-/

set_option autoImplicit false

namespace Radar.Scope

structure Key where
  user : String
  context : String
  deriving DecidableEq, Repr

/-- No namespaces are no pick. -/
def pick (namespaces : List String) : Option (List String) :=
  if namespaces = [] then none else some namespaces

/-- A missing list passes every pick. -/
def intersectPicksWithAllowed (picks : List String) (allowed : Option (List String)) :
    List String :=
  match allowed with
  | none => picks
  | some l => picks.filter (· ∈ l)

/-- An informer that knows no namespace cannot answer. -/
def pruneToExistingNamespaces (picks existing : List String) : List String :=
  if existing = [] then picks else intersectPicksWithAllowed picks (some existing)

inductive Write where
  | switched
  | explicit (k : Key) (namespaces : List String) (checked : String)
  | seed (k : Key) (picks : List String) (checked : String)
  | commit (k : Key) (replaced survivors : List String) (checked : String)
  deriving DecidableEq, Repr

/-- A mutation computed from `expected`; a prune is followed by the trim. -/
structure Mutation where
  key : Key
  expected : List String
  survivors : List String
  checked : String
  isPrune : Bool
  deriving DecidableEq, Repr

inductive Request where
  | idle
  /-- POST: the picks were validated while the context was `checked`. -/
  | validated (user : String) (namespaces : List String) (checked : String)
  /-- `nsPickMu` is held and the context has been read. -/
  | setting (k : Key) (namespaces : List String) (checked : String)
  /-- GET: the context of the seed has been read, its pick was absent, a source was read. -/
  | loading (k : Key)
  | absent (k : Key)
  | sourced (k : Key) (picks : List String) (checked : String)
  | seeding (k : Key) (picks : List String) (checked : String)
  | seeded (user : String)
  /-- The snapshot, its context first. -/
  | inContext (k : Key)
  | snapshot (k : Key) (picks : List String)
  | mutation (m : Mutation)
  | committing (m : Mutation)
  | pruned (k : Key) (actives : List String)
  deriving DecidableEq, Repr

structure Server where
  context : String
  nsPreferences : Key → Option (List String) := fun _ => none
  seededPicks : Key → Bool := fun _ => false
  /-- Who holds `nsPickMu`. -/
  nsPickMu : Option ℕ := none
  requests : ℕ → Request := fun _ => .idle
  writes : List Write := []
  recent : List String := [context]

inductive Act where
  | switchContext (name : String)
  | finalizePostContextSwitch
  /-- `handleSetActiveNamespace`, whose validation succeeds. -/
  | post (i : ℕ) (user : String) (namespaces : List String)
  /-- `handleGetNamespaceScope` -/
  | get (i : ℕ) (user : String)
  /-- The sources of a seed: the saved picks of the request's context, or what is configured for
  the active one. -/
  | source (i : ℕ) (saved : Bool) (picks : Option (List String))
  | existing (i : ℕ) (namespaces : List String)
  /-- The namespaces the user may see; a failed read trims nothing. -/
  | allowed (i : ℕ) (failed : Bool) (namespaces : Option (List String))
  /-- The request's next step. -/
  | next (i : ℕ)
  deriving DecidableEq, Repr

namespace Server

def setRequest (s : Server) (i : ℕ) (r : Request) : Server :=
  { s with requests := Function.update s.requests i r }

def lock (s : Server) (i : ℕ) (r : Request) : Server :=
  { s.setRequest i r with nsPickMu := some i }

def unlock (s : Server) (i : ℕ) (r : Request) : Server :=
  { s.setRequest i r with nsPickMu := none }

def switchContext (s : Server) (name : String) : Server :=
  { s with context := name, writes := .switched::s.writes, recent := name::s.recent }

def clearAllNamespacePreferences (s : Server) : Server :=
  { s with
    nsPreferences := fun _ => none
    seededPicks := fun _ => false
    recent := [s.context] }

/-- `setActiveNamespaceForUser` once it has its key. -/
def setActiveNamespaceForUser (s : Server) (k : Key) (namespaces : List String)
    (checked : String) : Server :=
  { s with
    nsPreferences := Function.update s.nsPreferences k (pick namespaces)
    seededPicks := Function.update s.seededPicks k true
    writes := .explicit k namespaces checked::s.writes }

/-- `seedPick` after its check of the context. -/
def seedPick (s : Server) (k : Key) (picks : List String) (checked : String) : Server :=
  if s.seededPicks k then s
  else
    let s := { s with seededPicks := Function.update s.seededPicks k true }
    if (s.nsPreferences k).isSome then s
    else
      { s with
        nsPreferences := Function.update s.nsPreferences k (some picks)
        writes := .seed k picks checked::s.writes }

/-- `commitPickMutation` after its check of the context. -/
def commitPickMutation (s : Server) (m : Mutation) : Server :=
  if (s.nsPreferences m.key).getD [] ≠ m.expected then s
  else
    { s with
      nsPreferences := Function.update s.nsPreferences m.key (pick m.survivors)
      writes := .commit m.key m.expected m.survivors m.checked::s.writes }

/-- After a prune, committed or not. -/
def afterMutation (m : Mutation) : Request :=
  if m.isPrune then .pruned m.key m.survivors else .idle

/-- A mutation that changes nothing is not committed. -/
def mutate (s : Server) (i : ℕ) (m : Mutation) : Server :=
  s.setRequest i (if m.survivors = m.expected then afterMutation m else .mutation m)

/-- The steps that need nothing from outside. -/
def next (s : Server) (i : ℕ) : Option Server :=
  match s.requests i with
  | .validated user namespaces checked =>
    if s.nsPickMu.isSome then none
    else if s.context = "" then some (s.setRequest i .idle)
    else some (s.lock i (.setting ⟨user,s.context⟩ namespaces checked))
  | .setting k namespaces checked =>
    some ((s.setActiveNamespaceForUser k namespaces checked).unlock i .idle)
  | .loading k =>
    if (s.nsPreferences k).isSome then some (s.setRequest i (.seeded k.user))
    else some (s.setRequest i (.absent k))
  | .sourced k picks checked =>
    if s.nsPickMu.isSome then none
    else if s.context ≠ k.context then some (s.setRequest i (.seeded k.user))
    else some (s.lock i (.seeding k picks checked))
  | .seeding k picks checked => some ((s.seedPick k picks checked).unlock i (.seeded k.user))
  | .seeded user =>
    if s.context = "" then some (s.setRequest i .idle)
    else some (s.setRequest i (.inContext ⟨user,s.context⟩))
  | .inContext k => some (s.setRequest i (.snapshot k ((s.nsPreferences k).getD [])))
  | .mutation m =>
    if s.nsPickMu.isSome then none
    else if s.context ≠ m.key.context then some (s.setRequest i (afterMutation m))
    else some (s.lock i (.committing m))
  | .committing m => some ((s.commitPickMutation m).unlock i (afterMutation m))
  | _ => none

def step (s : Server) : Act → Option Server
  | .switchContext name => some (s.switchContext name)
  | .finalizePostContextSwitch =>
    if s.nsPickMu.isSome then none else some s.clearAllNamespacePreferences
  | .post i user namespaces =>
    match s.requests i with
    | .idle => some (s.setRequest i (.validated user namespaces s.context))
    | _ => none
  | .get i user =>
    match s.requests i with
    | .idle =>
      if s.context = "" then some (s.setRequest i (.seeded user))
      else some (s.setRequest i (.loading ⟨user,s.context⟩))
    | _ => none
  | .source i saved picks =>
    match s.requests i with
    | .absent k =>
      match picks with
      | none => some (s.setRequest i (.seeded k.user))
      | some picks =>
        if picks = [] ∨ (saved ∧ k.user ≠ "") then none
        else some (s.setRequest i (.sourced k picks (if saved then k.context else s.context)))
    | _ => none
  | .existing i namespaces =>
    match s.requests i with
    | .snapshot k picks =>
      some (s.mutate i ⟨k,picks,pruneToExistingNamespaces picks namespaces,s.context,true⟩)
    | _ => none
  | .allowed i failed namespaces =>
    match s.requests i with
    | .pruned k actives =>
      if failed then some (s.setRequest i .idle)
      else some (s.mutate i ⟨k,actives,intersectPicksWithAllowed actives namespaces,s.context,false⟩)
    | _ => none
  | .next i => s.next i

end Server

end Radar.Scope
