import Radar.Timeline.MemoryContent

/-!
# The eviction boundary of the ring

The ring evicts by arrival, and the boundary is a time. What was last accepted
under an id is either still the row that the index finds, or it is no newer
than the boundary: a write at the head moves the boundary past the row it
overwrites, and an upsert takes a row away only to write its successor.
-/

set_option autoImplicit false

namespace Radar.TimelineMemory
open Radar.Timeline Radar.Ring

/-- `EvictedThrough` -/
def evictedThroughOf (m : MemoryStore) : Time := m.evictedThrough

/-- The newest slot is looked at first. -/
def getEvent (m : MemoryStore) (id : String) : Option TimelineEvent :=
  ((List.range m.count).map fun i => m.records (slotAt m false i)).find? fun e => e.id = id

inductive Write where
  | append (event : TimelineEvent)
  | appendBatch (events : List TimelineEvent)

/-- A store with the revision it last wrote of each id. -/
structure Kept where
  store : MemoryStore
  latest : String → Option TimelineEvent := fun _ => none

/-- The row that an event became, if the store took it. -/
def written (m : MemoryStore) (event : TimelineEvent) : Option TimelineEvent :=
  if (appendLocked m event).lastSeq = m.lastSeq then none
  else some ((appendLocked m event).records m.head)

def Kept.take (s : Kept) (event : TimelineEvent) : Kept where
  store := appendLocked s.store event
  latest :=
    match written s.store event with
    | some row => Function.update s.latest event.id (some row)
    | none => s.latest

def Kept.write (s : Kept) (w : Write) : Kept :=
  match w with
  | .append event => s.take event
  | .appendBatch events => events.foldl Kept.take s

theorem foldl_take_store (s : Kept) (events : List TimelineEvent) :
    (events.foldl Kept.take s).store = appendBatch s.store events := by
  induction events generalizing s with
  | nil => rfl
  | cons e es ih => exact ih (s.take e)

section Boundary

variable {m : MemoryStore} {event r : TimelineEvent} {id : String}

/-- What is found under an id is the row that the index points to. -/
theorem getEvent_of_index (h : Inv m) (hid : id ≠ "") {j : ℕ} (hj : m.index id = some j) :
    getEvent m id = some (m.records j) := by
  obtain ⟨hlt,hrec⟩ := (h.index_iff id hid j).mp hj
  have hne : (m.records j).id ≠ "" := by rwa [hrec]
  have hmem : m.records j ∈ (List.range m.count).map fun i => m.records (slotAt m false i) := by
    rw [visited_slots h false, if_neg (by decide), List.mem_reverse, mem_window h hne]
    exact ⟨j,hlt,rfl⟩
  unfold getEvent
  cases hfind : ((List.range m.count).map fun i => m.records (slotAt m false i)).find?
      fun e => e.id = id with
  | none =>
    have hno := List.find?_eq_none.mp hfind _ hmem
    exact absurd hrec (by simpa using hno)
  | some e =>
    have heid : e.id = id := by simpa using List.find?_some hfind
    have hwin : e ∈ (List.range m.count).map fun i => m.records (slotAt m false i) :=
      List.mem_of_find?_eq_some hfind
    rw [visited_slots h false, if_neg (by decide), List.mem_reverse,
      mem_window h (by rwa [heid])] at hwin
    obtain ⟨k,hk,rfl⟩ := hwin
    rw [h.slot_unique hk hlt (by rwa [heid]) (by rw [heid, hrec])]

theorem evictHead_mono (m : MemoryStore) : m.evictedThrough ≤ (evictHead m).evictedThrough := by
  unfold evictHead
  by_cases hid : (m.records m.head).id ≠ ""
  · rw [if_pos hid]
    show m.evictedThrough ≤ if (m.records m.head).timestamp > m.evictedThrough
      then (m.records m.head).timestamp else m.evictedThrough
    split
    · exact Int.le_of_lt ‹_›
    · exact Int.le_refl _
  · exact Int.le_of_eq (by rw [if_neg hid])

/-- The row at the head is no newer than the boundary once it is overwritten. -/
theorem evictHead_passes (hid : (m.records m.head).id ≠ "") :
    (m.records m.head).timestamp ≤ (evictHead m).evictedThrough := by
  unfold evictHead
  rw [if_pos hid]
  show (m.records m.head).timestamp ≤ if (m.records m.head).timestamp > m.evictedThrough
    then (m.records m.head).timestamp else m.evictedThrough
  split
  · exact Int.le_refl _
  · exact Int.not_lt.mp ‹_›

theorem writeAtHead_mono (m : MemoryStore) (event : TimelineEvent) :
    m.evictedThrough ≤ (writeAtHead m event).evictedThrough :=
  evictHead_mono m

theorem appendLocked_mono (h : Inv m) (event : TimelineEvent) :
    m.evictedThrough ≤ (appendLocked m event).evictedThrough := by
  obtain ⟨heq,-⟩ | ⟨idx,-,-,-,-,heq⟩ | ⟨idx,-,-,-,-,heq⟩ := append_locked_cases h event
  · rw [heq]
    exact writeAtHead_mono m event
  · rw [heq]
    exact writeAtHead_mono (vacate m idx event.id) _
  · exact Int.le_of_eq (by rw [heq])

/-- A row is in place: the index finds it. -/
def Holds (m : MemoryStore) (id : String) (r : TimelineEvent) : Prop :=
  ∃ j, m.index id = some j ∧ m.records j = r

/-- A write leaves every other row in place, unless it moves the boundary past it. -/
theorem writeAtHead_holds (h : Inv m) (hid : id ≠ "") (hne : id ≠ event.id) (hr : Holds m id r) :
    Holds (writeAtHead m event) id r ∨ r.timestamp ≤ (writeAtHead m event).evictedThrough := by
  obtain ⟨j,hj,rfl⟩ := hr
  obtain ⟨hlt,hrec⟩ := (h.index_iff id hid j).mp hj
  by_cases hhead : j = m.head
  · right
    subst hhead
    exact evictHead_passes (by rwa [hrec])
  · left
    refine ⟨j,?_,?_⟩
    · have hindex := (evict_head_index h id hid j).mpr ⟨hlt,hrec,hhead⟩
      simp only [writeAtHead, evict_head_head]
      split_ifs
      · rwa [Function.update_of_ne hne]
      · exact hindex
    · simp [writeAtHead, Function.update_of_ne hhead]

/-- The row that is written is in place. -/
theorem writeAtHead_written (hid : event.id ≠ "") :
    Holds (writeAtHead m event) event.id ((writeAtHead m event).records m.head) := by
  refine ⟨m.head,?_,rfl⟩
  simp [writeAtHead, hid]

/-- An upsert takes away only the row of its own id. -/
theorem vacate_holds (h : Inv m) {idx : ℕ} (hidx : m.index event.id = some idx)
    (hevent : event.id ≠ "") (hid : id ≠ "") (hne : id ≠ event.id) (hr : Holds m id r) :
    Holds (vacate m idx event.id) id r := by
  obtain ⟨j,hj,rfl⟩ := hr
  obtain ⟨-,hrec⟩ := (h.index_iff id hid j).mp hj
  obtain ⟨-,hold⟩ := (h.index_iff _ hevent idx).mp hidx
  refine ⟨j,?_,?_⟩
  · simpa [vacate, Function.update_of_ne hne] using hj
  · have hji : j ≠ idx := by
      rintro rfl
      exact hne (hrec.symm.trans hold)
    simp [vacate, Function.update_of_ne hji]

end Boundary

/-- What was last accepted under an id is in place, or no newer than the boundary. -/
structure BoundaryInv (s : Kept) : Prop where
  store : Inv s.store
  bounded : ∀ id r, id ≠ "" → s.latest id = some r →
    Holds s.store id r ∨ r.timestamp ≤ s.store.evictedThrough

theorem take_latest {s : Kept} {event row : TimelineEvent} (h : written s.store event = some row) :
    (s.take event).latest = Function.update s.latest event.id (some row) := by
  simp [Kept.take, h]

theorem take_boundary {s : Kept} (h : BoundaryInv s) (event : TimelineEvent) :
    BoundaryInv (s.take event) := by
  refine ⟨append_locked_inv h.store event,fun id r hid hr => ?_⟩
  have hmono := appendLocked_mono h.store event
  -- what a store that writes `w` in place of `m` keeps of the other ids
  have hothers : ∀ w row, id ≠ event.id → appendLocked s.store event = writeAtHead w row →
      row.id = event.id → Inv w → (Holds s.store id r → Holds w id r) →
      s.latest id = some r → Holds (appendLocked s.store event) id r ∨
        r.timestamp ≤ (appendLocked s.store event).evictedThrough := by
    intro w row hne heq hrow hinv hkeep hold
    obtain hr | hle := h.bounded id r hid hold
    · rw [heq]
      exact writeAtHead_holds hinv hid (hrow ▸ hne) (hkeep hr)
    · exact .inr (Int.le_trans hle hmono)
  show Holds (appendLocked s.store event) id r ∨
    r.timestamp ≤ (appendLocked s.store event).evictedThrough
  obtain ⟨heq,-⟩ | ⟨idx,hevent,hidx,-,-,heq⟩ | ⟨idx,-,-,-,-,heq⟩ :=
    append_locked_cases h.store event
  · have hwritten : written s.store event = some ((writeAtHead s.store event).records s.store.head) := by
      simp [written, heq, writeAtHead]
    rw [take_latest hwritten] at hr
    by_cases hne : id = event.id
    · subst hne
      left
      rw [Function.update_self] at hr
      rw [← Option.some.inj hr, heq]
      exact writeAtHead_written hid
    · exact hothers s.store event hne heq rfl h.store (fun hr => hr)
        (by rwa [Function.update_of_ne hne] at hr)
  · have hwritten : written s.store event =
        some ((writeAtHead (vacate s.store idx event.id)
          (keepEnrichment event (s.store.records idx))).records s.store.head) := by
      simp [written, heq, writeAtHead, vacate]
    rw [take_latest hwritten] at hr
    by_cases hne : id = event.id
    · subst hne
      left
      rw [Function.update_self] at hr
      rw [← Option.some.inj hr, heq]
      have hkept : (keepEnrichment event (s.store.records idx)).id ≠ "" := hid
      exact writeAtHead_written hkept
    · exact hothers (vacate s.store idx event.id) _ hne heq rfl (vacate_inv h.store hevent hidx)
        (vacate_holds h.store hidx hevent hid hne)
        (by rwa [Function.update_of_ne hne] at hr)
  · have hwritten : written s.store event = none := by
      simp [written, heq]
    have hlatest : (s.take event).latest = s.latest := by simp [Kept.take, hwritten]
    rw [heq]
    exact h.bounded id r hid (hlatest ▸ hr)

theorem write_boundary {s : Kept} (h : BoundaryInv s) (w : Write) : BoundaryInv (s.write w) := by
  cases w with
  | append event => exact take_boundary h event
  | appendBatch events =>
    show BoundaryInv (events.foldl Kept.take s)
    induction events generalizing s with
    | nil => exact h
    | cons e es ih => exact ih (take_boundary h e)

theorem writes_boundary {s : Kept} (h : BoundaryInv s) (ws : List Write) :
    BoundaryInv (ws.foldl Kept.write s) := by
  induction ws generalizing s with
  | nil => exact h
  | cons w ws ih => exact ih (write_boundary h w)

theorem new_boundary (maxSize : ℤ) : BoundaryInv { store := newMemoryStore maxSize } :=
  ⟨inv_new maxSize,fun _ _ _ => nofun⟩

theorem takes_mono {s : Kept} (h : BoundaryInv s) (events : List TimelineEvent) :
    s.store.evictedThrough ≤ (events.foldl Kept.take s).store.evictedThrough := by
  induction events generalizing s with
  | nil => exact Int.le_refl _
  | cons e es ih =>
    exact Int.le_trans (appendLocked_mono h.store e) (ih (take_boundary h e))

theorem writes_mono {s : Kept} (h : BoundaryInv s) (ws : List Write) :
    s.store.evictedThrough ≤ (ws.foldl Kept.write s).store.evictedThrough := by
  induction ws generalizing s with
  | nil => exact Int.le_refl _
  | cons w ws ih =>
    refine Int.le_trans ?_ (ih (write_boundary h w))
    cases w with
    | append event => exact takes_mono h [event]
    | appendBatch events => exact takes_mono h events

/-- A revision newer than the boundary is still found, and the boundary never moves back. -/
theorem eviction_boundary_sound (maxSize : ℤ) (ws more : List Write) :
    (∀ id r, id ≠ "" → (ws.foldl Kept.write { store := newMemoryStore maxSize }).latest id = some r →
      evictedThroughOf (ws.foldl Kept.write { store := newMemoryStore maxSize }).store < r.timestamp →
        getEvent (ws.foldl Kept.write { store := newMemoryStore maxSize }).store id = some r) ∧
    evictedThroughOf (ws.foldl Kept.write { store := newMemoryStore maxSize }).store ≤
      evictedThroughOf ((ws++more).foldl Kept.write { store := newMemoryStore maxSize }).store := by
  have h := writes_boundary (new_boundary maxSize) ws
  constructor
  · intro id r hid hlatest hnewer
    obtain ⟨j,hj,hr⟩ | hle := h.bounded id r hid hlatest
    · rw [getEvent_of_index h.store hid hj, hr]
    · exact absurd hnewer (Int.not_lt.mpr hle)
  · rw [List.foldl_append]
    exact writes_mono h more

end Radar.TimelineMemory
