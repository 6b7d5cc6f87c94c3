import Mathlib.Tactic.SplitIfs
import Radar.Base.Ring
import Radar.Timeline.Event

/-!
# The in-memory event store

The ring is a total function on slots; only slots below `maxSize` are ever
used. The invariant ties the head, the span and the arrival counter to the
number of writes, and every occupied slot to the write that filled it. The
live rows, oldest arrival first, are the store's abstract content: each
operation is described on that list, and a query is a filter of it.
-/

set_option autoImplicit false

namespace Radar.TimelineMemory
open Radar.Timeline Radar.Ring

structure MemoryStore where
  records : ℕ → TimelineEvent
  maxSize : ℕ
  head : ℕ
  count : ℕ
  lastSeq : ℕ
  eventsEvicted : Bool
  evictedThrough : Time
  index : String → Option ℕ

def newMemoryStore (maxSize : ℤ) : MemoryStore where
  records := fun _ => {}
  maxSize := if maxSize ≤ 0 then 1000 else maxSize.toNat
  head := 0
  count := 0
  lastSeq := 0
  eventsEvicted := false
  evictedThrough := 0
  index := fun _ => none

/-- The bookkeeping for the row about to be overwritten at the head slot. -/
def evictHead (m : MemoryStore) : MemoryStore :=
  let evicted := m.records m.head
  if evicted.id ≠ "" then
    { m with
      eventsEvicted := true
      evictedThrough :=
        if evicted.timestamp > m.evictedThrough then evicted.timestamp else m.evictedThrough
      index := if m.index evicted.id = some m.head
        then Function.update m.index evicted.id none else m.index }
  else m

def writeAtHead (m : MemoryStore) (event : TimelineEvent) : MemoryStore :=
  let m := evictHead m
  { m with
    lastSeq := m.lastSeq+1
    records := Function.update m.records m.head { event with seq := m.lastSeq+1 }
    index := if event.id ≠ "" then Function.update m.index event.id (some m.head) else m.index
    head := (m.head+1) % m.maxSize
    count := if m.count < m.maxSize then m.count+1 else m.count }

/-- A K8s Event revision that is not older than the stored row of the same id. -/
def supersedes (event old : TimelineEvent) : Bool :=
  event.source == .k8sEvent && old.source == .k8sEvent &&
  !decide (event.timestamp < old.timestamp)

/-- A bump that lost its enrichment keeps what the row already knows. -/
def keepEnrichment (event old : TimelineEvent) : TimelineEvent :=
  { event with
    createdAt := if event.createdAt = none then old.createdAt else event.createdAt
    owner := if ownerReplacesOnUpsert event then event.owner else old.owner
    ownerEvidence := if ownerReplacesOnUpsert event then event.ownerEvidence else old.ownerEvidence
    labels := if event.labels = none then old.labels else event.labels }

def vacate (m : MemoryStore) (idx : ℕ) (id : String) : MemoryStore :=
  { m with
    records := Function.update m.records idx {}
    index := Function.update m.index id none }

def appendLocked (m : MemoryStore) (event : TimelineEvent) : MemoryStore :=
  if event.id ≠ "" then
    match m.index event.id with
    | some idx =>
      if (m.records idx).id = event.id then
        if supersedes event (m.records idx) then
          writeAtHead (vacate m idx event.id) (keepEnrichment event (m.records idx))
        else m
      else writeAtHead m event
    | none => writeAtHead m event
  else writeAtHead m event

def appendBatch (m : MemoryStore) (events : List TimelineEvent) : MemoryStore :=
  events.foldl appendLocked m

def matchesFilters (event : TimelineEvent) (opts : QueryOptions) (cf : Option CompiledFilter) : Bool :=
  (match cf with
    | some cf => cf.matches event
    | none => true) &&
  !(opts.clusterContext != "" && event.clusterContext != opts.clusterContext) &&
  !(deltaPaging opts && decide ((event.seq : ℤ) ≤ opts.sinceSeq)) &&
  !(decide (opts.untilSeq > 0) && decide ((event.seq : ℤ) ≥ opts.untilSeq)) &&
  !(!Time.isZero opts.sinceTime && decide (event.timestamp < opts.sinceTime)) &&
  !(!Time.isZero opts.untilTime && decide (event.timestamp > opts.untilTime)) &&
  !(!opts.namespaces.isEmpty && !opts.namespaces.contains event.ns) &&
  !(!opts.kinds.isEmpty && !opts.kinds.contains event.kind) &&
  !(opts.requireAPIVersion && event.apiVersion == "") &&
  !(!opts.apiGroups.isEmpty && event.apiVersion != "" &&
    !opts.apiGroups.contains (groupFromAPIVersion event.apiVersion)) &&
  !(!opts.names.isEmpty && !opts.names.contains event.name) &&
  !(!opts.sources.isEmpty && !opts.sources.contains event.source) &&
  !(!opts.eventTypes.isEmpty && !opts.eventTypes.contains event.eventType) &&
  !(opts.excludeDeleted && event.eventType == .delete) &&
  opts.scope.matches event &&
  !(event.isManaged && !opts.includeManaged &&
    (match cf with
      | some cf => !cf.preset.includeManaged
      | none => true)) &&
  !(!opts.includeK8sEvents && event.source == .k8sEvent)

/-- The ring slot the query loop visits at step `i`; `count ≤ maxSize` keeps the
source's signed index arithmetic non-negative. -/
def slotAt (m : MemoryStore) (ascending : Bool) (i : ℕ) : ℕ :=
  if ascending then (m.head+m.maxSize-m.count+i) % m.maxSize
  else (m.head+m.maxSize-1-i) % m.maxSize

def queryLoop (admits : TimelineEvent → Bool) (limit offset : ℕ) :
    List TimelineEvent → List TimelineEvent → ℕ → List TimelineEvent
  | [], results, _ => results
  | event::rest, results, skipped =>
    if limit ≤ results.length then results
    else if event.id = "" then queryLoop admits limit offset rest results skipped
    else if !admits event then queryLoop admits limit offset rest results skipped
    else if skipped < offset then queryLoop admits limit offset rest results (skipped+1)
    else queryLoop admits limit offset rest (results++[event]) skipped

def query (m : MemoryStore) (opts : QueryOptions) : List TimelineEvent :=
  let cf := getOrCompileFilter opts.filterPreset
  queryLoop (fun e => matchesFilters e opts cf) (effectiveLimit opts) opts.offset.toNat
    ((List.range m.count).map (fun i => m.records (slotAt m (deltaAscending opts) i))) [] 0

/-- The live rows in arrival order. -/
def live (m : MemoryStore) : List TimelineEvent :=
  (window m.maxSize m.lastSeq m.records).filter (fun e => e.id != "")

structure Inv (m : MemoryStore) : Prop where
  size_pos : 0 < m.maxSize
  head_eq : m.head = m.lastSeq % m.maxSize
  count_eq : m.count = min m.lastSeq m.maxSize
  index_empty : m.index "" = none
  index_iff : ∀ id, id ≠ "" → ∀ j, m.index id = some j ↔ j < m.maxSize ∧ (m.records j).id = id
  seq_eq : ∀ w, w < m.lastSeq → m.lastSeq ≤ w+m.maxSize →
    (m.records (w % m.maxSize)).id ≠ "" → (m.records (w % m.maxSize)).seq = w+1
  unwritten : ∀ j, m.lastSeq ≤ j → j < m.maxSize → (m.records j).id = ""

namespace Inv

theorem head_lt {m : MemoryStore} (h : Inv m) : m.head < m.maxSize := by
  rw [h.head_eq]
  exact Nat.mod_lt _ h.size_pos

/-- Every occupied slot was filled by one of the last `maxSize` writes. -/
theorem slot_write {m : MemoryStore} (h : Inv m) {j : ℕ} (hj : j < m.maxSize)
    (hid : (m.records j).id ≠ "") :
    ∃ w, w < m.lastSeq ∧ m.lastSeq ≤ w+m.maxSize ∧ w % m.maxSize = j := by
  have hlt : j < m.lastSeq := by
    by_contra hge
    exact hid (h.unwritten j (by omega) hj)
  have hn := h.size_pos
  have hdiv := Nat.mod_add_div (m.lastSeq-1-j) m.maxSize
  have hmod := Nat.mod_lt (m.lastSeq-1-j) hn
  refine ⟨j+m.maxSize*((m.lastSeq-1-j)/m.maxSize), by omega, by omega, ?_⟩
  rw [Nat.add_mul_mod_self_left, Nat.mod_eq_of_lt hj]

theorem slot_seq {m : MemoryStore} (h : Inv m) {j : ℕ} (hj : j < m.maxSize)
    (hid : (m.records j).id ≠ "") :
    (m.records j).seq ≤ m.lastSeq ∧ m.lastSeq < (m.records j).seq+m.maxSize := by
  obtain ⟨w, hw, hw', rfl⟩ := h.slot_write hj hid
  have := h.seq_eq w hw hw' hid
  omega

theorem slot_unique {m : MemoryStore} (h : Inv m) {i j : ℕ} (hi : i < m.maxSize)
    (hj : j < m.maxSize) (hid : (m.records i).id ≠ "")
    (heq : (m.records i).id = (m.records j).id) : i = j := by
  have h1 := (h.index_iff _ hid i).mpr ⟨hi, rfl⟩
  have h2 := (h.index_iff _ hid j).mpr ⟨hj, heq.symm⟩
  exact Option.some.inj (h1.symm.trans h2)

end Inv

theorem inv_new (maxSize : ℤ) : Inv (newMemoryStore maxSize) where
  size_pos := by
    simp only [newMemoryStore]
    split_ifs <;> omega
  head_eq := (Nat.zero_mod _).symm
  count_eq := (Nat.zero_min _).symm
  index_empty := rfl
  index_iff := by
    intro id hid j
    simp [newMemoryStore, hid.symm]
  seq_eq := by
    intro w hw
    exact absurd hw (Nat.not_lt_zero w)
  unwritten := fun _ _ _ => rfl

/-! ## Live rows -/

theorem mem_window {m : MemoryStore} (h : Inv m) {e : TimelineEvent}
    (hid : e.id ≠ "") :
    e ∈ window m.maxSize m.lastSeq m.records ↔ ∃ j, j < m.maxSize ∧ m.records j = e := by
  constructor
  · intro he
    obtain ⟨j, hj, rfl⟩ := List.mem_map.mp he
    obtain ⟨w, -, -, rfl⟩ := mem_slots.mp hj
    exact ⟨_, Nat.mod_lt _ h.size_pos, rfl⟩
  · rintro ⟨j, hj, rfl⟩
    exact List.mem_map_of_mem (mem_slots.mpr (h.slot_write hj hid))

theorem mem_live {m : MemoryStore} (h : Inv m) {e : TimelineEvent} :
    e ∈ live m ↔ e.id ≠ "" ∧ ∃ j, j < m.maxSize ∧ m.records j = e := by
  rw [live, List.mem_filter]
  constructor
  · rintro ⟨he, hid⟩
    have hid : e.id ≠ "" := by simpa using hid
    exact ⟨hid, (mem_window h hid).mp he⟩
  · rintro ⟨hid, hj⟩
    exact ⟨(mem_window h hid).mpr hj, by simpa using hid⟩

theorem live_seq_pos {m : MemoryStore} (h : Inv m) {e : TimelineEvent} (he : e ∈ live m) :
    0 < e.seq := by
  obtain ⟨hid, j, hj, rfl⟩ := (mem_live h).mp he
  obtain ⟨w, hw, hw', rfl⟩ := h.slot_write hj hid
  rw [h.seq_eq w hw hw' hid]
  omega

theorem live_seq_le {m : MemoryStore} (h : Inv m) {e : TimelineEvent} (he : e ∈ live m) :
    e.seq ≤ m.lastSeq := by
  obtain ⟨hid, j, hj, rfl⟩ := (mem_live h).mp he
  exact (h.slot_seq hj hid).1

theorem live_sorted {m : MemoryStore} (h : Inv m) :
    (live m).Pairwise (fun a b => a.seq < b.seq) := by
  rw [live, List.pairwise_filter, window, List.pairwise_map, slots, List.pairwise_map]
  refine List.Pairwise.imp_of_mem ?_ List.pairwise_lt_range
  intro i j hi hj hij hidi hidj
  rw [List.mem_range] at hi hj
  rw [h.seq_eq _ (by omega) (by omega) (by simpa using hidi),
    h.seq_eq _ (by omega) (by omega) (by simpa using hidj)]
  omega

theorem live_ids_nodup {m : MemoryStore} (h : Inv m) : ((live m).map (·.id)).Nodup := by
  rw [List.Nodup, List.pairwise_map]
  refine List.Pairwise.imp_of_mem ?_ (live_sorted h)
  intro a b ha hb hab heq
  obtain ⟨hida, i, hi, rfl⟩ := (mem_live h).mp ha
  obtain ⟨-, j, hj, rfl⟩ := (mem_live h).mp hb
  obtain rfl := h.slot_unique hi hj hida heq
  exact absurd hab (Nat.lt_irrefl _)

end Radar.TimelineMemory
