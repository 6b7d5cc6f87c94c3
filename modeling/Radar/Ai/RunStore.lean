import Mathlib.Logic.Function.Basic
import Radar.Base.Numbered
import Radar.Ai.Events

/-!
# The store of investigations

A row for each run and the rows of the events of each, in the order of their
sequence numbers. The writer applies the queued operations one after another;
what is applied of a queue is a fold.
-/

set_option autoImplicit false

namespace Radar.Ai

/-- What a run is about, and what it is run with. -/
structure Target where
  kind : String
  group : String := ""
  namespaceName : String := ""
  name : String
  agent : String := ""
  profile : String := ""
  model : String := ""
  effort : String := ""
  deriving DecidableEq, Repr

inductive Status where
  | running
  | done
  | error
  | stopped
  | stale
  deriving DecidableEq, Repr

structure RunSummary where
  id : ℕ
  target : Target
  context : String
  status : Status
  sessionID : String
  preview : String
  deriving DecidableEq, Repr

inductive StoreOp where
  | saveRun (s : RunSummary)
  | appendEvents (runID : ℕ) (events : List RunEvent) (summary : Option RunSummary)
  | deleteRun (id : ℕ)
  /-- Whether its transaction commits. -/
  | clearTerminal (commits : Bool)
  deriving DecidableEq, Repr

/-- The tables `runs` and `run_events`. -/
structure Tables where
  runs : ℕ → Option RunSummary := fun _ => none
  events : ℕ → List RunEvent := fun _ => []

/-- `INSERT OR REPLACE` of one event row. -/
def insertOrReplace (e : RunEvent) : List RunEvent → List RunEvent
  | [] => [e]
  | d::rest =>
    if e.seq < d.seq then e::d::rest
    else if e.seq = d.seq then e::rest
    else d::insertOrReplace e rest

/-- `COALESCE(MAX(seq), 0) + 1` -/
def nextSeq (rows : List RunEvent) : ℕ := (rows.map (·.seq)).foldr max 0+1

/-- The statement for one event of a batch. -/
def appendRow (rows : List RunEvent) (e : RunEvent) : List RunEvent :=
  if 0 < e.seq then insertOrReplace e rows
  else insertOrReplace { e with seq := nextSeq rows } rows

namespace Tables

def upsertRun (t : Tables) (s : RunSummary) : Tables :=
  { t with runs := Function.update t.runs s.id (some s) }

def isRunning (t : Tables) (id : ℕ) : Bool :=
  match t.runs id with
  | some s => s.status = .running
  | none => false

def apply (t : Tables) : StoreOp → Tables
  | .saveRun s => t.upsertRun s
  | .appendEvents runID events summary =>
    let appended : Tables :=
      { t with events := Function.update t.events runID (events.foldl appendRow (t.events runID)) }
    match summary with
    | some s => appended.upsertRun s
    | none => appended
  | .deleteRun id =>
    { runs := Function.update t.runs id none, events := Function.update t.events id [] }
  | .clearTerminal commits =>
    if commits then
      { runs := fun id => if t.isRunning id then t.runs id else none
        events := fun id => if t.isRunning id then t.events id else [] }
    else t

/-- What is there once some operations are applied. -/
def applyAll (t : Tables) (ops : List StoreOp) : Tables := ops.foldl apply t

/-- None when the sequence has a gap: a corrupt history. -/
def loadEvents (t : Tables) (runID : ℕ) : Option (List RunEvent) :=
  if Numbered.From RunEvent.seq 0 (t.events runID) then some (t.events runID) else none

end Tables

section Rows

open Numbered

theorem insertOrReplace_last {rows : List RunEvent} {e : RunEvent}
    (h : ∀ d ∈ rows, d.seq < e.seq) : insertOrReplace e rows = rows++[e] := by
  induction rows with
  | nil => rfl
  | cons d rest ih =>
    have hd := h d List.mem_cons_self
    rw [insertOrReplace, if_neg (by omega), if_neg (by omega),
      ih fun c hc => h c (List.mem_cons_of_mem d hc)]
    rfl

theorem lt_nextSeq {rows : List RunEvent} {d : RunEvent} (hd : d ∈ rows) :
    d.seq < nextSeq rows := by
  unfold nextSeq
  induction rows with
  | nil => nomatch hd
  | cons c rest ih =>
    rw [List.map_cons, List.foldr_cons]
    rcases List.mem_cons.mp hd with rfl | hd
    · omega
    · have := ih hd
      omega

theorem nextSeq_numbered {rows : List RunEvent} (h : From RunEvent.seq 0 rows) :
    nextSeq rows = rows.length+1 := by
  unfold nextSeq
  induction rows using List.reverseRecOn with
  | nil => rfl
  | append_singleton rows e ih =>
    obtain ⟨hrows,he,_⟩ := from_append.mp h
    have hfold : ∀ (l : List ℕ) (a : ℕ), l.foldr max a = max (l.foldr max 0) a := by
      intro l a
      induction l with
      | nil => simp
      | cons b l ih => rw [List.foldr_cons, List.foldr_cons, ih, Nat.max_assoc]
    have hmax := ih hrows
    rw [List.map_append, List.foldr_append, List.map_singleton, List.foldr_cons, List.foldr_nil,
      hfold, List.length_append, List.length_singleton]
    omega

/-- An event with the next number, or one that the store is to number, lands at the end. -/
theorem appendRow_next {rows : List RunEvent} {e : RunEvent} (h : From RunEvent.seq 0 rows)
    (he : e.seq = rows.length+1 ∨ e.seq = 0) :
    appendRow rows e = rows++[⟨rows.length+1,e.event⟩] := by
  unfold appendRow
  rcases he with he | he
  · rw [if_pos (by omega), insertOrReplace_last fun d hd => by have := seq_le h hd; omega]
    rw [← he]
  · rw [if_neg (by omega), insertOrReplace_last fun d hd => lt_nextSeq hd, nextSeq_numbered h]

/-- A batch with the next numbers is appended. -/
theorem appendRows_numbered {rows batch : List RunEvent} (h : From RunEvent.seq 0 (rows++batch)) :
    batch.foldl appendRow rows = rows++batch := by
  induction batch generalizing rows with
  | nil => simp
  | cons e rest ih =>
    have hsplit := from_append.mp h
    have hseq : e.seq = rows.length+1 := by
      have := hsplit.2.1
      omega
    have hone : (⟨rows.length+1,e.event⟩ : RunEvent) = e := by rw [← hseq]
    have hmore : From RunEvent.seq 0 ((rows++[e])++rest) := by simpa using h
    rw [List.foldl_cons, appendRow_next hsplit.1 (.inl hseq), hone, ih hmore]
    simp

end Rows

end Radar.Ai
