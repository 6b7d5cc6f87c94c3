import Mathlib.Logic.Function.Basic
import Radar.Base.Run

/-!
# The PostgreSQL store that reconnects

Any number of callers of `InitStore`, `ResetStore` and
`NoteDeletedWhileUnavailable` and any number of reconnect workers take steps; a
step is one critical section or one call out. Whether a database answers, a
file opens or a timer fires is part of the action. A worker's quit channel is
named by the worker.
-/

set_option autoImplicit false

namespace Radar.Reconnect

inductive StoreType where
  | memory
  | sqlite
  | postgres
  deriving DecidableEq, Repr

structure StoreConfig where
  type : StoreType
  path : String := ""
  dsn : String := ""
  deriving DecidableEq, Repr

/-- An open store. A worker dialed it, or `InitStore` did. -/
structure PostgresStore where
  dialer : Option ℕ
  serial : ℕ
  deriving DecidableEq, Repr

inductive EventStore where
  | memory
  | sqlite
  | postgres (store : PostgresStore)
  deriving DecidableEq, Repr

def maxDeletedWhileUnavailable : ℕ := 100000

/-- How far `installPostgresStore` is. -/
inductive Install (κ : Type*) where
  | draining (last : Bool)
  | forgetting (last : Bool) (keys : List κ)
  | publishing
  | finished

inductive Caller (κ : Type*) where
  | idle
  /-- `InitStore`, in its once. -/
  | initializing (cfg : StoreConfig)
  | opened (store : PostgresStore) (p : Install κ)
  /-- `startPostgresReconnect` is next. -/
  | starting
  | initialized
  /-- `ResetStore`, with `stopPostgresReconnect` next. -/
  | resetting
  /-- The worker is retired, the list not yet dropped. -/
  | stopping
  | stopped
  | cleared (store : Option EventStore)
  /-- `NoteDeletedWhileUnavailable`, after the key is added. -/
  | noted
  | saw (store : PostgresStore)
  | forgetting (store : PostgresStore) (keys : List κ)

inductive Worker (κ : Type*) where
  | unborn
  | waiting
  | dialing
  | dialed (store : PostgresStore)
  | claimed (store : PostgresStore) (p : Install κ)
  | superseded (store : PostgresStore)
  | gone

/-- What `since` remembers. -/
inductive Event (κ : Type*) where
  | noted (key : κ)
  | forgot (store : PostgresStore) (keys : List κ)

/-- `dialed`, `closed`, `installed` and `since` are not kept by the code: every store that was
dialed or closed, the stores published since the last reset cleared the store, and, newest first,
what was added to the list and handed to `forgetSeen` since the last reset dropped the list or
cleared the store. -/
structure Server (κ : Type*) where
  globalStoreInitMu : Option ℕ := none
  globalStoreOnce : Bool := false
  globalStore : Option EventStore := none
  globalStoreErr : Option String := none
  postgresReconnectMu : Bool := false
  postgresReconnectQuit : Option ℕ := none
  /-- The quit channels that are closed. -/
  quits : List ℕ := []
  deletedWhileUnavailable : List κ := []
  deletedWhileUnavailableOverflow : Bool := false
  callers : ℕ → Caller κ := fun _ => .idle
  workers : ℕ → Worker κ := fun _ => .unborn
  dialed : List PostgresStore := []
  closed : List PostgresStore := []
  installed : List PostgresStore := []
  since : List (Event κ) := []

/-- Before anything is called. -/
def started (κ : Type*) : Server κ := {}

inductive Act (κ : Type*) where
  | initStore (i : ℕ) (cfg : StoreConfig)
  /-- The store is opened, or the database dialed. -/
  | openStore (i : ℕ) (answers : Bool)
  | install (i : ℕ)
  /-- `w` is the worker that is started, if one is. -/
  | startPostgresReconnect (i w : ℕ)
  | returnInit (i : ℕ)
  | resetStore (i : ℕ)
  | stopPostgresReconnect (i : ℕ)
  | dropDeleted (i : ℕ)
  | clearStore (i : ℕ)
  | returnReset (i : ℕ)
  | quit (w : ℕ)
  | timer (w : ℕ)
  | dial (w : ℕ) (answers : Bool)
  | claim (w : ℕ)
  | workerInstall (w : ℕ)
  | closeSuperseded (w : ℕ)
  | noteDeletedWhileUnavailable (i : ℕ) (key : κ)
  | getStore (i : ℕ)
  | takeDeletedWhileUnavailable (i : ℕ)
  | forgetSeen (i : ℕ)

namespace Server

variable {κ : Type*}

def setCaller (s : Server κ) (i : ℕ) (p : Caller κ) : Server κ :=
  { s with callers := Function.update s.callers i p }

def setWorker (s : Server κ) (w : ℕ) (p : Worker κ) : Server κ :=
  { s with workers := Function.update s.workers w p }

def setGlobalStore (s : Server κ) (store : EventStore) : Server κ :=
  { s with globalStore := some store }

def fail (s : Server κ) (err : String) : Server κ := { s with globalStoreErr := some err }

def lockInit (s : Server κ) (i : Option ℕ) : Server κ := { s with globalStoreInitMu := i }

/-- `takeDeletedWhileUnavailable`: the list is emptied, its keys go with the caller. -/
def takeDeleted (s : Server κ) : Server κ :=
  { s with deletedWhileUnavailable := [], deletedWhileUnavailableOverflow := false }

def forgetSeen (s : Server κ) (store : PostgresStore) (keys : List κ) : Server κ :=
  { s with since := .forgot store keys::s.since }

def publish (s : Server κ) (store : PostgresStore) : Server κ :=
  { s.setGlobalStore (.postgres store) with installed := store::s.installed }

/-- A step of `installPostgresStore`, and what is next. -/
def install (s : Server κ) (store : PostgresStore) : Install κ → Server κ × Install κ
  | .draining last => (s.takeDeleted,.forgetting last s.deletedWhileUnavailable)
  | .forgetting last keys => (s.forgetSeen store keys,if last then .finished else .publishing)
  | .publishing => (s.publish store,.draining true)
  | .finished => (s,.finished)

def dialedBy (s : Server κ) (dialer : Option ℕ) : PostgresStore := ⟨dialer,s.dialed.length⟩

def addDialed (s : Server κ) (store : PostgresStore) : Server κ :=
  { s with dialed := store::s.dialed }

def close (s : Server κ) (store : PostgresStore) : Server κ :=
  { s with closed := store::s.closed }

def closeStore (s : Server κ) : Option EventStore → Server κ
  | some (.postgres store) => s.close store
  | _ => s

def initStep (s : Server κ) (a : Act κ) : Option (Server κ) :=
  match a with
  | .initStore i cfg =>
    match s.callers i, s.globalStoreInitMu with
    | .idle, none =>
      if s.globalStoreOnce then some ((s.lockInit (some i)).setCaller i .initialized)
      else
        some ({ s.lockInit (some i) with globalStoreOnce := true }.setCaller i (.initializing cfg))
    | _, _ => none
  | .openStore i answers =>
    match s.callers i with
    | .initializing cfg =>
      match cfg.type with
      | .sqlite =>
        if cfg.path = "" then
          some ((s.fail "SQLite store requires a path").setCaller i .initialized)
        -- What can't be opened is replaced by a degraded memory store.
        else some ((s.setGlobalStore (if answers then .sqlite else .memory)).setCaller i .initialized)
      | .memory => some ((s.setGlobalStore .memory).setCaller i .initialized)
      | .postgres =>
        if cfg.dsn = "" then
          some ((s.fail "PostgreSQL timeline store requires a DSN").setCaller i .initialized)
        else if answers then
          some ((s.addDialed (s.dialedBy none)).setCaller i
            (.opened (s.dialedBy none) (.draining false)))
        else some (s.setCaller i .starting)
    | _ => none
  | .install i =>
    match s.callers i with
    | .opened store p =>
      match p with
      | .finished => some (s.setCaller i .initialized)
      | p => some ((s.install store p).1.setCaller i (.opened store (s.install store p).2))
    | _ => none
  | .startPostgresReconnect i w =>
    match s.callers i, s.workers w, s.postgresReconnectMu with
    | .starting, .unborn, false =>
      match s.postgresReconnectQuit with
      | some _ => some (s.setCaller i .initialized)
      | none =>
        some (({ s with postgresReconnectQuit := some w }.setWorker w .waiting).setCaller i
          .initialized)
    | _, _, _ => none
  | .returnInit i =>
    match s.callers i with
    | .initialized => some ((s.lockInit none).setCaller i .idle)
    | _ => none
  | _ => none

def resetStep (s : Server κ) (a : Act κ) : Option (Server κ) :=
  match a with
  | .resetStore i =>
    match s.callers i, s.globalStoreInitMu with
    | .idle, none => some ((s.lockInit (some i)).setCaller i .resetting)
    | _, _ => none
  | .stopPostgresReconnect i =>
    match s.callers i, s.postgresReconnectMu with
    | .resetting, false =>
      some ({ s with
        postgresReconnectMu := true
        postgresReconnectQuit := none
        quits := s.postgresReconnectQuit.toList++s.quits }.setCaller i .stopping)
    | _, _ => none
  | .dropDeleted i =>
    match s.callers i with
    | .stopping =>
      some ({ s.takeDeleted with
        postgresReconnectMu := false
        since := [] }.setCaller i .stopped)
    | _ => none
  | .clearStore i =>
    match s.callers i with
    | .stopped =>
      some ({ s with
        globalStore := none
        globalStoreOnce := false
        globalStoreErr := none
        installed := []
        since := [] }.setCaller i (.cleared s.globalStore))
    | _ => none
  | .returnReset i =>
    match s.callers i with
    | .cleared store => some (((s.closeStore store).lockInit none).setCaller i .idle)
    | _ => none
  | _ => none

def workerStep (s : Server κ) (a : Act κ) : Option (Server κ) :=
  match a with
  | .quit w =>
    match s.workers w with
    | .waiting => if w ∈ s.quits then some (s.setWorker w .gone) else none
    | _ => none
  | .timer w =>
    match s.workers w with
    | .waiting => some (s.setWorker w .dialing)
    | _ => none
  | .dial w answers =>
    match s.workers w with
    | .dialing =>
      if answers then
        some ((s.addDialed (s.dialedBy (some w))).setWorker w (.dialed (s.dialedBy (some w))))
      else some (s.setWorker w .waiting)
    | _ => none
  | .claim w =>
    match s.workers w, s.postgresReconnectMu with
    | .dialed store, false =>
      if s.postgresReconnectQuit ≠ some w then some (s.setWorker w (.superseded store))
      else
        some ({ s with postgresReconnectMu := true }.setWorker w (.claimed store (.draining false)))
    | _, _ => none
  | .workerInstall w =>
    match s.workers w with
    | .claimed store p =>
      match p with
      | .finished =>
        some ({ s with
          postgresReconnectQuit := none
          postgresReconnectMu := false }.setWorker w .gone)
      | p => some ((s.install store p).1.setWorker w (.claimed store (s.install store p).2))
    | _ => none
  | .closeSuperseded w =>
    match s.workers w with
    | .superseded store => some ((s.close store).setWorker w .gone)
    | _ => none
  | _ => none

variable [DecidableEq κ]

/-- The key is added, unless the list is full. -/
def noteDeleted (s : Server κ) (key : κ) : Server κ :=
  if maxDeletedWhileUnavailable ≤ s.deletedWhileUnavailable.length then
    { s with deletedWhileUnavailableOverflow := true }
  else
    { s with
      deletedWhileUnavailable := s.deletedWhileUnavailable.insert key
      since := .noted key::s.since }

def noteStep (s : Server κ) (a : Act κ) : Option (Server κ) :=
  match a with
  | .noteDeletedWhileUnavailable i key =>
    match s.callers i with
    | .idle => some ((s.noteDeleted key).setCaller i .noted)
    | _ => none
  | .getStore i =>
    match s.callers i with
    | .noted =>
      match s.globalStore with
      | some (.postgres store) => some (s.setCaller i (.saw store))
      | _ => some (s.setCaller i .idle)
    | _ => none
  | .takeDeletedWhileUnavailable i =>
    match s.callers i with
    | .saw store => some (s.takeDeleted.setCaller i (.forgetting store s.deletedWhileUnavailable))
    | _ => none
  | .forgetSeen i =>
    match s.callers i with
    | .forgetting store keys => some ((s.forgetSeen store keys).setCaller i .idle)
    | _ => none
  | _ => none

def step (s : Server κ) (a : Act κ) : Option (Server κ) :=
  match a with
  | .initStore _ _ => s.initStep a
  | .openStore _ _ => s.initStep a
  | .install _ => s.initStep a
  | .startPostgresReconnect _ _ => s.initStep a
  | .returnInit _ => s.initStep a
  | .resetStore _ => s.resetStep a
  | .stopPostgresReconnect _ => s.resetStep a
  | .dropDeleted _ => s.resetStep a
  | .clearStore _ => s.resetStep a
  | .returnReset _ => s.resetStep a
  | .quit _ => s.workerStep a
  | .timer _ => s.workerStep a
  | .dial _ _ => s.workerStep a
  | .claim _ => s.workerStep a
  | .workerInstall _ => s.workerStep a
  | .closeSuperseded _ => s.workerStep a
  | _ => s.noteStep a

end Server

end Radar.Reconnect
