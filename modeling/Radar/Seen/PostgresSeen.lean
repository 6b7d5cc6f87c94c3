import Mathlib.Data.Finset.Card
import Radar.Base.LastWrite
import Radar.Base.Run

/-!
# The seen marks of the PostgreSQL store

Four places know about a mark: the in-memory set, the clears kept for a
retry, the ordered write queue with the batch the writer has pulled from it,
and the table. Each action below is one critical section, one channel
operation or one statement; calls for one key are sequential, everything else
interleaves.
-/

set_option autoImplicit false

namespace Radar.Seen

/-- `done` tells the writer to flush at once: the clear's caller is waiting. -/
structure SeenResourceWrite (κ : Type*) where
  key : κ
  delete : Bool
  done : Bool
  deriving DecidableEq

/-- Where a call of `MarkResourceSeen` or `ClearResourceSeen` for a key stands. -/
inductive CallState where
  | idle
  | markSend
  | clearSend
  | clearTimedOut
  | clearWait
  deriving DecidableEq

/-- The writer: pulling, about to run the next statement of a flush, behind a
failed delete whose keys it has not kept yet, or behind a finished statement. -/
inductive WriterState where
  | pulling
  | flushing
  | deleteFailed
  | finished
  deriving DecidableEq

structure PostgresStore (κ : Type*) where
  seenResources : Finset κ
  unclearedSeen : Finset κ
  seenWrites : List (SeenResourceWrite κ)
  pending : List (SeenResourceWrite κ)
  writer : WriterState
  table : Finset κ
  seenDropped : ℕ
  calls : κ → CallState
  /-- `forgetSeen` calls between their two critical sections. -/
  forgetting : List (List κ)

def seenWriteQueueDepth : ℕ := 4096

def seenWriteBatchSize : ℕ := 500

def maxUnclearedSeen : ℕ := 100000

section Model
variable {κ : Type*} [DecidableEq κ]

/-- A store opened over a table: the marks are loaded, nothing is waiting. -/
def opened (rows : Finset κ) : PostgresStore κ where
  seenResources := rows
  unclearedSeen := ∅
  seenWrites := []
  pending := []
  writer := .pulling
  table := rows
  seenDropped := 0
  calls := fun _ => .idle
  forgetting := []

/-- One key of `noteUncleared`; the bound drops what does not fit. -/
def noteKey (seen : Finset κ) (uncleared : Finset κ) (k : κ) : Finset κ :=
  if k ∈ seen then uncleared
  else if k ∉ uncleared ∧ maxUnclearedSeen ≤ uncleared.card then uncleared
  else insert k uncleared

def noteUncleared (s : PostgresStore κ) (keys : List κ) : PostgresStore κ :=
  { s with unclearedSeen := keys.foldl (noteKey s.seenResources) s.unclearedSeen }

def roomInQueue (s : PostgresStore κ) : Bool := decide (s.seenWrites.length < seenWriteQueueDepth)

/-- The leading run of the batch: consecutive writes of one kind share a statement. -/
def statementRun (s : PostgresStore κ) : List (SeenResourceWrite κ) :=
  match s.pending with
  | [] => []
  | w::rest => w::rest.takeWhile (fun x => x.delete == w.delete)

def afterRun (s : PostgresStore κ) : List (SeenResourceWrite κ) :=
  s.pending.drop (statementRun s).length

def runDeletes (s : PostgresStore κ) : Bool :=
  match s.pending with
  | [] => false
  | w::_ => w.delete

/-- What the statement does to the table when the database applies it. -/
def applyStatement (s : PostgresStore κ) : Finset κ :=
  if runDeletes s then s.table \ ((statementRun s).map (·.key)).toFinset
  else s.table ∪ ((statementRun s).map (·.key)).toFinset

inductive Act (κ : Type*) where
  /-- The critical section of `MarkResourceSeen`, then its `enqueueSeenWrite`. -/
  | mark (k : κ)
  | markSend (k : κ)
  /-- The critical section of `ClearResourceSeen`, the send or its timeout, and the end of the wait. -/
  | clear (k : κ)
  | clearSend (k : κ)
  | clearTimeout (k : κ)
  | clearNote (k : κ)
  | clearReturn (k : κ)
  /-- `forgetSeen` up to its `noteUncleared`, and that call. -/
  | forget (keys : List κ)
  | forgetNote (call : ℕ)
  /-- One key of the loop of `applyUnclearedSeen`, from `forgetSeen` or a retry. The
  loop holds the lock throughout, which only takes interleavings away. -/
  | applyUncleared (k : κ)
  /-- The writer takes a write, its ticker fires, and the steps of a flush. -/
  | pull
  | tick
  | statement (ok applied : Bool)
  | noteFailed
  | release

def step (s : PostgresStore κ) : Act κ → Option (PostgresStore κ)
  | .mark k =>
    if s.calls k = .idle then
      some { s with
        seenResources := insert k s.seenResources
        unclearedSeen := s.unclearedSeen.erase k
        calls := Function.update s.calls k .markSend }
    else none
  | .markSend k =>
    if s.calls k = .markSend then
      if roomInQueue s then
        some { s with
          seenWrites := s.seenWrites++[⟨k, false, false⟩]
          calls := Function.update s.calls k .idle }
      else
        some { s with
          seenDropped := s.seenDropped+1
          calls := Function.update s.calls k .idle }
    else none
  | .clear k =>
    if s.calls k = .idle then
      some { s with
        seenResources := s.seenResources.erase k
        calls := Function.update s.calls k .clearSend }
    else none
  | .clearSend k =>
    if s.calls k = .clearSend ∧ roomInQueue s then
      some { s with
        seenWrites := s.seenWrites++[⟨k, true, true⟩]
        calls := Function.update s.calls k .clearWait }
    else none
  | .clearTimeout k =>
    if s.calls k = .clearSend then
      some { s with calls := Function.update s.calls k .clearTimedOut }
    else none
  | .clearNote k =>
    if s.calls k = .clearTimedOut then
      some { noteUncleared s [k] with calls := Function.update s.calls k .idle }
    else none
  | .clearReturn k =>
    if s.calls k = .clearWait then
      some { s with calls := Function.update s.calls k .idle }
    else none
  | .forget keys =>
    some { s with
      seenResources := s.seenResources \ keys.toFinset
      forgetting := s.forgetting++[keys] }
  | .forgetNote call =>
    match s.forgetting[call]? with
    | some keys => some { noteUncleared s keys with forgetting := s.forgetting.eraseIdx call }
    | none => none
  | .applyUncleared k =>
    if k ∈ s.unclearedSeen then
      if k ∈ s.seenResources then some { s with unclearedSeen := s.unclearedSeen.erase k }
      else if roomInQueue s then
        some { s with
          seenWrites := s.seenWrites++[⟨k, true, false⟩]
          unclearedSeen := s.unclearedSeen.erase k }
      else some s
    else none
  | .pull =>
    match s.writer, s.seenWrites with
    | .pulling, w::rest =>
      some { s with
        seenWrites := rest
        pending := s.pending++[w]
        writer := if seenWriteBatchSize ≤ s.pending.length+1 ∨ w.done then .flushing else .pulling }
    | _, _ => none
  | .tick =>
    if s.writer = .pulling ∧ s.pending ≠ [] then some { s with writer := .flushing } else none
  | .statement ok applied =>
    if s.writer = .flushing ∧ s.pending ≠ [] then
      some { s with
        table := if ok || applied then applyStatement s else s.table
        writer := if ok || !runDeletes s then .finished else .deleteFailed }
    else none
  | .noteFailed =>
    if s.writer = .deleteFailed then
      some { noteUncleared s ((statementRun s).map (·.key)) with writer := .finished }
    else none
  | .release =>
    if s.writer = .finished then
      some { s with
        pending := afterRun s
        writer := if (afterRun s).isEmpty then .pulling else .flushing }
    else none

end Model

end Radar.Seen
