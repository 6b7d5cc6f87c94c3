import Mathlib.Algebra.GroupWithZero.Nat
import Radar.Base.Looks
import Radar.ReadScope.Cache

/-!
# Assessing and reading a kind

Each function looks at the informers and at the deferred tracking at moments of
its own, while informers sync, stores change and the deadline may fire.
-/

set_option autoImplicit false

namespace Radar.ReadScope

inductive KindReadiness where
  | unavailable
  | pending
  | ready
  | failed
  deriving DecidableEq, Repr

section Readiness

variable (rc : ResourceCache)

def KindNamespaces (resource : String) : Option (List String) :=
  match rc.resourceScopes resource with
  | none => none
  | some scope =>
    if !scope.enabled || scope.ns = "" then none
    else some (resourceScopeNamespaces resource scope rc.resourceScopeNamespaces)

def isEnabled (key : String) : Bool := (rc.resourceScopes key).isSome

def HasSynced (inf : Informer) : Looks World Bool := Looks.ask fun w => w.synced inf

/-- The sync of a kind: every informer of it, one after the other. -/
def allSynced : List Informer → Looks World Bool
  | [] => return true
  | inf::rest => do
    let synced ← HasSynced inf
    if synced then allSynced rest else return false

def InformerSynced (key : String) : Looks World (Bool × Bool) :=
  match rc.informerStatuses.find? fun status => decide (status.1 = key) with
  | none => return (false,false)
  | some status => do
    let synced ← allSynced status.2
    return (synced,true)

def storeFor (key ns : String) : Option Informer :=
  let stores := rc.kindStores key
  match stores.find? fun st => decide (st.1 = ns) with
  | some st => some st.2
  | none => (stores.find? fun st => decide (st.1 = "")).map Prod.snd

def pastDeadline (key : String) : Looks World Bool := do
  let deferredFailed ← Looks.ask fun w : World => w.deferredFailed
  if !deferredFailed || rc.backgroundKeys key then return false
  else Looks.ask fun w => w.deferredSynced key

/-- The state of what has not synced. -/
def unsynced (key : String) : Looks World KindReadiness := do
  let past ← pastDeadline rc key
  return if past then .failed else .pending

def storeReadiness (key : String) (inf : Informer) : Looks World KindReadiness := do
  let synced ← HasSynced inf
  if synced then return .ready else unsynced rc key

def KindReadinessFor (key : String) : Looks World KindReadiness :=
  if !isEnabled rc key then return .unavailable
  else do
    let (synced,known) ← InformerSynced rc key
    if !known then return .unavailable
    else if synced then return .ready
    else unsynced rc key

end Readiness

/-- No list asks for all namespaces, and is no partition among the namespaces read. -/
structure KindReadAssessment where
  readiness : KindReadiness
  requested : Option (List String)
  allNamespaces : Bool := false
  read : Option (List String) := none
  loading : List String := []
  failed : List String := []
  uncovered : List String := []
  complete : Bool := false
  deriving DecidableEq

namespace KindReadAssessment

/-- Appending nothing to no list leaves no list. -/
def appended (read : Option (List String)) (namespaces : List String) : Option (List String) :=
  if namespaces = [] then read else some (read.getD []++namespaces)

def assign (a : KindReadAssessment) (state : KindReadiness) (namespaces : List String) :
    KindReadAssessment :=
  match state with
  | .ready => { a with read := appended a.read namespaces }
  | .failed => { a with failed := a.failed++namespaces }
  | _ => { a with loading := a.loading++namespaces }

def TargetReadiness (a : KindReadAssessment) : KindReadiness :=
  if a.read = none then a.readiness
  else if a.loading ≠ [] then .pending
  else if a.failed ≠ [] then .failed
  else .ready

end KindReadAssessment

section Reading

variable (rc : ResourceCache)

/-- The namespaces of a target, one after the other. -/
def assessEach (resource : String) (covered : List String) :
    List String → KindReadAssessment → Looks World KindReadAssessment
  | [], a => return a
  | ns::rest, a =>
    if ns ∉ covered then
      assessEach resource covered rest { a with uncovered := a.uncovered++[ns] }
    else
      match storeFor rc resource ns with
      | none => assessEach resource covered rest (a.assign a.readiness [ns])
      | some inf => do
        let state ← storeReadiness rc resource inf
        assessEach resource covered rest (a.assign state [ns])

def AssessKindRead (resource : String) (requested : Option (List String)) :
    Looks World KindReadAssessment := do
  let readiness ← KindReadinessFor rc resource
  let a : KindReadAssessment := { readiness := readiness, requested := requested }
  if readiness = .unavailable then return a
  else
    match KindNamespaces rc resource, requested with
    | none, none =>
      return { a with allNamespaces := true, complete := decide (readiness = .ready) }
    | none, some namespaces =>
      let a := KindReadAssessment.assign { a with allNamespaces := true, read := some [] }
        readiness namespaces
      return { a with complete := decide (a.loading = [] ∧ a.failed = []) }
    | some covered, _ => do
      let a ← assessEach rc resource covered (requested.getD covered) { a with read := some [] }
      return { a with
        complete :=
          decide (requested ≠ none ∧ a.loading = [] ∧ a.failed = [] ∧ a.uncovered = []) }

/-- A read of a store: the whole of it, or one namespace's objects. -/
abbrev StoreRead := Informer × Option String

def StoreRead.objects (read : StoreRead) (w : World) : List Object :=
  match read.2 with
  | none => (w.store read.1).items
  | some ns => (w.store read.1).items.filter fun o => decide (o.ns.1 = ns)

def wholeStores : List (String × Informer) → Looks World (Option (List StoreRead))
  | [] => return some []
  | st::rest => do
    let synced ← HasSynced st.2
    if synced then
      let reads ← wholeStores rest
      return reads.map ((st.2,none)::·)
    else return none

def namespaceStores (resource : String) (covered : Option (List String)) :
    List String → Looks World (Option (List StoreRead))
  | [] => return some []
  | ns::rest =>
    if covered.any fun covered => decide (ns ∉ covered) then return none
    else
      match storeFor rc resource ns with
      | none => return none
      | some inf => do
        let synced ← HasSynced inf
        if synced then
          let reads ← namespaceStores resource covered rest
          return reads.map ((inf,some ns)::·)
        else return none

def readableIndexers (resource : String) (namespaces : Option (List String)) :
    Looks World (Option (List StoreRead)) :=
  if !isEnabled rc resource || rc.kindStores resource = [] then return none
  else
    match namespaces with
    | none => wholeStores (rc.kindStores resource)
    | some namespaces => namespaceStores rc resource (KindNamespaces rc resource) namespaces

/-- Without a list, something was not readable. -/
def ReadableObjects (resource : String) (namespaces : Option (List String)) :
    Looks World (Option (List Object)) := do
  let reads ← readableIndexers rc resource namespaces
  match reads with
  | none => return none
  | some reads => do
    let out ← Looks.gather StoreRead.objects reads
    return some out

def ReadableCount (resource : String) (namespaces : Option (List String)) :
    Looks World (Option ℕ) := do
  let reads ← readableIndexers rc resource namespaces
  match reads with
  | none => return none
  | some reads => do
    let counts ← Looks.gather (fun read w => [(StoreRead.objects read w).length]) reads
    return some counts.sum

/-- Nothing when the namespace is not readable, else what was found. -/
def ReadableObject (resource ns name : String) : Looks World (Option (Option Object)) :=
  if !isEnabled rc resource || rc.kindStores resource = [] then return none
  else if (KindNamespaces rc resource).any fun covered => decide (ns ∉ covered) then return none
  else
    match storeFor rc resource ns with
    | none => return none
    | some inf => do
      let synced ← HasSynced inf
      if synced then
        let found ← Looks.ask fun w : World =>
          (w.store inf).items.find? fun o => decide (o.key = keyOf ns name)
        return some found
      else return none

end Reading

end Radar.ReadScope
