import Radar.Timeline.MemoryStore

/-!
# What the ring operations do to the live rows

Writing at the head appends a row and drops the slot that falls out of the
window; vacating removes one id; a query returns a prefix of the admitted
live rows in its direction. All of them keep the ring invariant.
-/

set_option autoImplicit false

namespace Radar.TimelineMemory
open Radar.Timeline Radar.Ring

theorem evict_head_fields (m : MemoryStore) :
    (evictHead m).records = m.records ∧ (evictHead m).maxSize = m.maxSize ∧
    (evictHead m).head = m.head ∧ (evictHead m).count = m.count ∧
    (evictHead m).lastSeq = m.lastSeq := by
  simp only [evictHead]
  split <;> simp

@[simp] theorem evict_head_records (m : MemoryStore) : (evictHead m).records = m.records :=
  (evict_head_fields m).1

@[simp] theorem evict_head_max_size (m : MemoryStore) : (evictHead m).maxSize = m.maxSize :=
  (evict_head_fields m).2.1

@[simp] theorem evict_head_head (m : MemoryStore) : (evictHead m).head = m.head :=
  (evict_head_fields m).2.2.1

@[simp] theorem evict_head_count (m : MemoryStore) : (evictHead m).count = m.count :=
  (evict_head_fields m).2.2.2.1

@[simp] theorem evict_head_last_seq (m : MemoryStore) : (evictHead m).lastSeq = m.lastSeq :=
  (evict_head_fields m).2.2.2.2

theorem evict_head_index_eq {m : MemoryStore} (h : Inv m) :
    (evictHead m).index = if (m.records m.head).id ≠ ""
      then Function.update m.index (m.records m.head).id none else m.index := by
  by_cases hocc : (m.records m.head).id = ""
  · simp [evictHead, hocc]
  · have hhead := (h.index_iff _ hocc m.head).mpr ⟨h.head_lt, rfl⟩
    simp [evictHead, hocc, hhead]

/-- After the eviction bookkeeping the index knows every slot but the head's. -/
theorem evict_head_index {m : MemoryStore} (h : Inv m) (id : String) (hid : id ≠ "") (j : ℕ) :
    (evictHead m).index id = some j ↔
      j < m.maxSize ∧ (m.records j).id = id ∧ j ≠ m.head := by
  have hindex := h.index_iff id hid j
  rw [evict_head_index_eq h]
  split_ifs with hocc
  · by_cases heq : id = (m.records m.head).id
    · rw [heq, Function.update_self]
      constructor
      · intro hnone
        cases hnone
      · rintro ⟨hj, hrec, hne⟩
        exact absurd (h.slot_unique hj h.head_lt (by rw [hrec]; exact hocc) hrec) hne
    · rw [Function.update_of_ne heq, hindex]
      constructor
      · rintro ⟨hj, hrec⟩
        refine ⟨hj, hrec, ?_⟩
        rintro rfl
        exact heq hrec.symm
      · rintro ⟨hj, hrec, -⟩
        exact ⟨hj, hrec⟩
  · rw [hindex]
    constructor
    · rintro ⟨hj, hrec⟩
      refine ⟨hj, hrec, ?_⟩
      rintro rfl
      exact hocc (by rw [hrec]; exact hid)
    · rintro ⟨hj, hrec, -⟩
      exact ⟨hj, hrec⟩

theorem evict_head_index_empty {m : MemoryStore} (h : Inv m) : (evictHead m).index "" = none := by
  rw [evict_head_index_eq h]
  split_ifs with hocc
  · rw [Function.update_of_ne (Ne.symm hocc), h.index_empty]
  · exact h.index_empty

/-- A fresh or unindexed event takes the head slot and the next arrival number. -/
theorem write_at_head_inv {m : MemoryStore} (h : Inv m) (event : TimelineEvent)
    (hfresh : event.id ≠ "" → m.index event.id = none) : Inv (writeAtHead m event) where
  size_pos := by simpa [writeAtHead] using h.size_pos
  head_eq := by
    simp only [writeAtHead, evict_head_head, evict_head_max_size, evict_head_last_seq, h.head_eq]
    rw [Nat.mod_add_mod]
  count_eq := by
    simp only [writeAtHead, evict_head_count, evict_head_max_size, evict_head_last_seq, h.count_eq]
    split_ifs <;> omega
  index_empty := by
    simp only [writeAtHead]
    split_ifs with hid
    · rw [Function.update_of_ne (Ne.symm hid), evict_head_index_empty h]
    · exact evict_head_index_empty h
  index_iff := by
    intro id hid j
    have hold := evict_head_index h id hid j
    simp only [writeAtHead, evict_head_records, evict_head_max_size, evict_head_head]
    by_cases hj : j = m.head
    · subst hj
      rw [Function.update_self]
      split_ifs with hev
      · by_cases heq : id = event.id
        · simp [heq, h.head_lt]
        · rw [Function.update_of_ne heq, hold]
          simp [Ne.symm heq]
      · rw [hold]
        rw [not_not] at hev
        simp [hev, Ne.symm hid]
    · rw [Function.update_of_ne hj]
      split_ifs with hev
      · by_cases heq : id = event.id
        · have hno := hfresh hev
          rw [heq, Function.update_self]
          constructor
          · intro hsome
            exact absurd (Option.some.inj hsome).symm hj
          · rintro ⟨hjm, hrec⟩
            have := (h.index_iff _ hev j).mpr ⟨hjm, hrec⟩
            rw [hno] at this
            cases this
        · rw [Function.update_of_ne heq, hold]
          simp [hj]
      · rw [hold]
        simp [hj]
  seq_eq := by
    intro w hw hw' hid
    simp only [writeAtHead, evict_head_records, evict_head_max_size, evict_head_head,
      evict_head_last_seq] at *
    by_cases hlast : w = m.lastSeq
    · rw [hlast, h.head_eq, Function.update_self]
    · have hne : w % m.maxSize ≠ m.head := by
        rw [h.head_eq]
        exact slot_ne (by omega) (by omega)
      rw [Function.update_of_ne hne] at hid ⊢
      exact h.seq_eq w (by omega) (by omega) hid
  unwritten := by
    intro j hj hj'
    simp only [writeAtHead, evict_head_records, evict_head_max_size, evict_head_head,
      evict_head_last_seq] at *
    have hne : j ≠ m.head := by
      rw [h.head_eq, Nat.mod_eq_of_lt (by omega)]
      omega
    rw [Function.update_of_ne hne]
    exact h.unwritten j (by omega) hj'

theorem vacate_inv {m : MemoryStore} (h : Inv m) {idx : ℕ} {id : String} (hid : id ≠ "")
    (hidx : m.index id = some idx) : Inv (vacate m idx id) where
  size_pos := h.size_pos
  head_eq := h.head_eq
  count_eq := h.count_eq
  index_empty := by
    simp only [vacate]
    rw [Function.update_of_ne (Ne.symm hid), h.index_empty]
  index_iff := by
    intro id' hid' j
    obtain ⟨hlt, hrec⟩ := (h.index_iff id hid idx).mp hidx
    simp only [vacate]
    by_cases hj : j = idx
    · subst hj
      rw [Function.update_self]
      by_cases heq : id' = id
      · simp [heq, Ne.symm hid]
      · rw [Function.update_of_ne heq, h.index_iff id' hid', hrec]
        simp [Ne.symm heq, Ne.symm hid']
    · rw [Function.update_of_ne hj]
      by_cases heq : id' = id
      · rw [heq, Function.update_self]
        constructor
        · intro hnone
          cases hnone
        · rintro ⟨hjm, hrecj⟩
          exact absurd (h.slot_unique hjm hlt (by rw [hrecj]; exact hid) (hrecj.trans hrec.symm)) hj
      · rw [Function.update_of_ne heq, h.index_iff id' hid']
  seq_eq := by
    intro w hw hw' hidw
    simp only [vacate] at *
    by_cases hj : w % m.maxSize = idx
    · rw [hj, Function.update_self] at hidw
      exact absurd rfl hidw
    · rw [Function.update_of_ne hj] at hidw ⊢
      exact h.seq_eq w hw hw' hidw
  unwritten := by
    intro j hj hj'
    simp only [vacate]
    by_cases hji : j = idx
    · rw [hji, Function.update_self]
    · rw [Function.update_of_ne hji]
      exact h.unwritten j hj hj'

theorem vacate_index {m : MemoryStore} {idx : ℕ} {id : String} : (vacate m idx id).index id = none := by
  simp [vacate]

/-- What one event can do to the store: nothing, one write, or vacate then write. -/
theorem append_locked_cases {m : MemoryStore} (h : Inv m) (event : TimelineEvent) :
    (appendLocked m event = writeAtHead m event ∧ (event.id ≠ "" → m.index event.id = none)) ∨
    (∃ idx, event.id ≠ "" ∧ m.index event.id = some idx ∧ (m.records idx).id = event.id ∧
      supersedes event (m.records idx) = true ∧
      appendLocked m event =
        writeAtHead (vacate m idx event.id) (keepEnrichment event (m.records idx))) ∨
    (∃ idx, event.id ≠ "" ∧ m.index event.id = some idx ∧ (m.records idx).id = event.id ∧
      supersedes event (m.records idx) = false ∧ appendLocked m event = m) := by
  by_cases hid : event.id = ""
  · exact Or.inl ⟨by simp [appendLocked, hid], fun hne => absurd hid hne⟩
  cases hidx : m.index event.id with
  | none => exact Or.inl ⟨by simp [appendLocked, hid, hidx], fun _ => rfl⟩
  | some idx =>
    have hrec := ((h.index_iff _ hid idx).mp hidx).2
    cases hsup : supersedes event (m.records idx) with
    | true =>
      exact Or.inr (Or.inl ⟨idx, hid, rfl, hrec, hsup, by simp [appendLocked, hid, hidx, hrec, hsup]⟩)
    | false =>
      exact Or.inr (Or.inr ⟨idx, hid, rfl, hrec, hsup, by simp [appendLocked, hid, hidx, hrec, hsup]⟩)

@[simp] theorem keep_enrichment_id (event old : TimelineEvent) :
    (keepEnrichment event old).id = event.id := rfl

theorem append_locked_inv {m : MemoryStore} (h : Inv m) (event : TimelineEvent) :
    Inv (appendLocked m event) := by
  rcases append_locked_cases h event with ⟨heq, hfresh⟩ | ⟨idx, hid, hidx, -, -, heq⟩ |
    ⟨idx, -, -, -, -, heq⟩
  · rw [heq]
    exact write_at_head_inv h event hfresh
  · rw [heq]
    exact write_at_head_inv (vacate_inv h hid hidx) _ (fun _ => vacate_index)
  · rw [heq]
    exact h

theorem append_batch_inv {m : MemoryStore} (h : Inv m) (events : List TimelineEvent) :
    Inv (appendBatch m events) := by
  induction events generalizing m with
  | nil => exact h
  | cons e es ih => exact ih (append_locked_inv h e)

/-! ## The abstract content -/

/-- The arrival log the ring implements: a bounded list of rows with one row per id. -/
theorem live_write_at_head {m : MemoryStore} (h : Inv m) (event : TimelineEvent) :
    live (writeAtHead m event) =
      (live m).filter (fun r => decide (m.lastSeq+1 < r.seq+m.maxSize)) ++
        (if event.id = "" then [] else [{ event with seq := m.lastSeq+1 }]) := by
  have hnew : ∀ w, w < m.lastSeq → m.lastSeq < w+m.maxSize →
      Function.update m.records m.head { event with seq := m.lastSeq+1 } (w % m.maxSize) =
        m.records (w % m.maxSize) := by
    intro w hw hw'
    rw [h.head_eq]
    exact Function.update_of_ne (slot_ne hw (by omega)) _ _
  have hkeep : ∀ w, w < m.lastSeq → m.lastSeq < w+m.maxSize → (m.records (w % m.maxSize)).id ≠ "" →
      m.lastSeq+1 < (m.records (w % m.maxSize)).seq+m.maxSize := by
    intro w hw hw' hid
    rw [h.seq_eq w hw (by omega) hid]
    omega
  have hrows : ∀ l : List ℕ, (∀ j ∈ l, ∃ w, w < m.lastSeq ∧ m.lastSeq < w+m.maxSize ∧ w % m.maxSize = j) →
      (l.map (Function.update m.records m.head { event with seq := m.lastSeq+1 })).filter
          (fun e => e.id != "") =
        ((l.map m.records).filter (fun e => e.id != "")).filter
          (fun r => decide (m.lastSeq+1 < r.seq+m.maxSize)) := by
    intro l hl
    induction l with
    | nil => rfl
    | cons j l ih =>
      obtain ⟨w, hw, hw', rfl⟩ := hl j (by simp)
      rw [List.map_cons, List.map_cons, hnew w hw hw', List.filter_cons, List.filter_cons,
        ih (fun k hk => hl k (by simp [hk]))]
      split
      · next hid => simp [hkeep w hw hw' (by simpa using hid)]
      · rfl
  have hlast : (([m.lastSeq % m.maxSize].map
      (Function.update m.records m.head { event with seq := m.lastSeq+1 })).filter
        (fun e => e.id != "")) = if event.id = "" then [] else [{ event with seq := m.lastSeq+1 }] := by
    rw [← h.head_eq, List.map_cons, List.map_nil, Function.update_self]
    by_cases hid : event.id = "" <;> simp [hid]
  have hn := h.size_pos
  simp only [live, window, writeAtHead, evict_head_max_size, evict_head_last_seq,
    evict_head_records, evict_head_head]
  rw [slots_succ _ _ hn, List.map_append, List.filter_append, hlast]
  congr 1
  split
  · next hlt =>
    apply hrows
    intro j hj
    obtain ⟨w, hw, -, rfl⟩ := mem_slots.mp hj
    exact ⟨w, hw, by omega, rfl⟩
  · next hge =>
    rw [slots_of_ge hn (show m.maxSize ≤ m.lastSeq by omega), List.tail_cons]
    rw [hrows]
    · rw [List.map_cons, List.filter_cons]
      split
      · next hid =>
        rw [List.filter_cons_of_neg]
        rw [h.seq_eq _ (by omega) (by omega) (by simpa using hid)]
        simp
        omega
      · rfl
    · intro j hj
      obtain ⟨i, hi, rfl⟩ := List.mem_map.mp hj
      rw [List.mem_range] at hi
      exact ⟨m.lastSeq-m.maxSize+1+i, by omega, by omega, rfl⟩

theorem live_vacate {m : MemoryStore} (h : Inv m) {idx : ℕ} {id : String} (hid : id ≠ "")
    (hidx : m.index id = some idx) : live (vacate m idx id) = (live m).filter (fun r => r.id != id) := by
  obtain ⟨hlt, hrec⟩ := (h.index_iff id hid idx).mp hidx
  have hrows : ∀ l : List ℕ, (∀ j ∈ l, j < m.maxSize) →
      (l.map (Function.update m.records idx {})).filter (fun e => e.id != "") =
        ((l.map m.records).filter (fun e => e.id != "")).filter (fun r => r.id != id) := by
    intro l hl
    induction l with
    | nil => rfl
    | cons j l ih =>
      have hj : j < m.maxSize := hl j (by simp)
      rw [List.map_cons, List.map_cons, List.filter_cons, List.filter_cons,
        ih (fun k hk => hl k (by simp [hk]))]
      by_cases hji : j = idx
      · subst hji
        simp [hrec, hid]
      · rw [Function.update_of_ne hji]
        split
        · next hne =>
          have hne : (m.records j).id ≠ "" := by simpa using hne
          have : (m.records j).id ≠ id := by
            intro heq
            exact hji (h.slot_unique hj hlt hne (heq.trans hrec.symm))
          simp [this]
        · rfl
  exact hrows _ (fun j hj => by
    obtain ⟨w, -, -, rfl⟩ := mem_slots.mp hj
    exact Nat.mod_lt _ h.size_pos)

@[simp] theorem write_at_head_last_seq (m : MemoryStore) (event : TimelineEvent) :
    (writeAtHead m event).lastSeq = m.lastSeq+1 := by
  simp [writeAtHead]

theorem append_locked_last_seq {m : MemoryStore} (h : Inv m) (event : TimelineEvent) :
    m.lastSeq ≤ (appendLocked m event).lastSeq := by
  rcases append_locked_cases h event with ⟨heq, -⟩ | ⟨idx, -, -, -, -, heq⟩ | ⟨idx, -, -, -, -, heq⟩
  · simp [heq]
  · simp [heq, vacate]
  · simp [heq]

/-- A live row either was live before the write or carries a new arrival number. -/
theorem live_write_at_head_old {m : MemoryStore} (h : Inv m) {event e : TimelineEvent}
    (he : e ∈ live (writeAtHead m event)) : e ∈ live m ∨ e.seq = m.lastSeq+1 := by
  rw [live_write_at_head h, List.mem_append] at he
  rcases he with he | he
  · exact Or.inl (List.mem_filter.mp he).1
  · split at he
    · cases he
    · right
      rw [List.mem_singleton.mp he]

theorem live_append_locked_old {m : MemoryStore} (h : Inv m) {event e : TimelineEvent}
    (he : e ∈ live (appendLocked m event)) : e ∈ live m ∨ m.lastSeq < e.seq := by
  rcases append_locked_cases h event with ⟨heq, -⟩ | ⟨idx, hid, hidx, -, -, heq⟩ |
    ⟨idx, -, -, -, -, heq⟩
  · rw [heq] at he
    rcases live_write_at_head_old h he with he | he
    · exact Or.inl he
    · exact Or.inr (by omega)
  · rw [heq] at he
    rcases live_write_at_head_old (vacate_inv h hid hidx) he with he | he
    · rw [live_vacate h hid hidx] at he
      exact Or.inl (List.mem_filter.mp he).1
    · have hlast : (vacate m idx event.id).lastSeq = m.lastSeq := rfl
      exact Or.inr (by omega)
  · rw [heq] at he
    exact Or.inl he

/-! ## Runs in which nothing falls out -/

theorem write_at_head_evicted {m : MemoryStore} {event : TimelineEvent}
    (hev : (writeAtHead m event).eventsEvicted = false) :
    m.eventsEvicted = false ∧ (m.records m.head).id = "" := by
  have hev : (evictHead m).eventsEvicted = false := hev
  by_cases hocc : (m.records m.head).id = ""
  · exact ⟨by simpa [evictHead, hocc] using hev, hocc⟩
  · simp [evictHead, hocc] at hev

/-- A write that evicts nothing keeps every live row. -/
theorem live_write_kept {m : MemoryStore} (h : Inv m) {event : TimelineEvent} (hid : event.id ≠ "")
    (hev : (writeAtHead m event).eventsEvicted = false) :
    live (writeAtHead m event) = live m++[{ event with seq := m.lastSeq+1 }] := by
  have hhead := (write_at_head_evicted hev).2
  rw [live_write_at_head h, if_neg hid, List.filter_eq_self.mpr]
  intro r hr
  obtain ⟨hrid, j, hj, rfl⟩ := (mem_live h).mp hr
  obtain ⟨w, hw, hw', rfl⟩ := h.slot_write hj hrid
  have hne : w+m.maxSize ≠ m.lastSeq := by
    intro heq
    rw [h.head_eq, ← heq, Nat.add_mod_right] at hhead
    exact hrid hhead
  rw [h.seq_eq w hw hw' hrid]
  simp only [decide_eq_true_eq]
  omega

/-- What one event with an id does to the live rows when nothing is evicted. -/
theorem append_locked_live {m : MemoryStore} (h : Inv m) {event : TimelineEvent}
    (hid : event.id ≠ "") (hev : (appendLocked m event).eventsEvicted = false) :
    ((∀ e ∈ live m, e.id ≠ event.id) ∧
      live (appendLocked m event) = live m++[{ event with seq := m.lastSeq+1 }]) ∨
    (∃ old ∈ live m, old.id = event.id ∧ supersedes event old = true ∧
      live (appendLocked m event) = (live m).filter (fun r => r.id != event.id) ++
        [{ keepEnrichment event old with seq := m.lastSeq+1 }]) ∨
    (∃ old ∈ live m, old.id = event.id ∧ supersedes event old = false ∧
      live (appendLocked m event) = live m) := by
  have hlive : ∀ idx, m.index event.id = some idx → m.records idx ∈ live m := by
    intro idx hidx
    obtain ⟨hlt, hrec⟩ := (h.index_iff _ hid idx).mp hidx
    exact (mem_live h).mpr ⟨by rw [hrec]; exact hid, idx, hlt, rfl⟩
  rcases append_locked_cases h event with ⟨heq, hfresh⟩ | ⟨idx, -, hidx, hrec, hsup, heq⟩ |
    ⟨idx, -, hidx, hrec, hsup, heq⟩
  · refine Or.inl ⟨?_, ?_⟩
    · intro e he heid
      obtain ⟨-, j, hj, rfl⟩ := (mem_live h).mp he
      have hsome := (h.index_iff _ hid j).mpr ⟨hj, heid⟩
      rw [hfresh hid] at hsome
      cases hsome
    · rw [heq] at hev ⊢
      exact live_write_kept h hid hev
  · refine Or.inr (Or.inl ⟨_, hlive idx hidx, hrec, hsup, ?_⟩)
    rw [heq] at hev ⊢
    rw [live_write_kept (vacate_inv h hid hidx) (by simpa using hid) hev, live_vacate h hid hidx]
    rfl
  · refine Or.inr (Or.inr ⟨_, hlive idx hidx, hrec, hsup, ?_⟩)
    rw [heq]

theorem append_locked_evicted {m : MemoryStore} (h : Inv m) {event : TimelineEvent}
    (hev : (appendLocked m event).eventsEvicted = false) : m.eventsEvicted = false := by
  rcases append_locked_cases h event with ⟨heq, -⟩ | ⟨idx, -, -, -, -, heq⟩ | ⟨idx, -, -, -, -, heq⟩
  · rw [heq] at hev
    exact (write_at_head_evicted hev).1
  · rw [heq] at hev
    exact (write_at_head_evicted hev).1
  · rwa [heq] at hev

theorem append_batch_evicted {m : MemoryStore} (h : Inv m) {events : List TimelineEvent}
    (hev : (appendBatch m events).eventsEvicted = false) : m.eventsEvicted = false := by
  induction events generalizing m with
  | nil => exact hev
  | cons e es ih => exact append_locked_evicted h (ih (append_locked_inv h e) hev)

/-! ## The query loop

It visits the window slot by slot, in arrival order or against it, and stops at the page bound. -/

theorem query_loop_eq (admits : TimelineEvent → Bool) (limit offset : ℕ)
    (rows results : List TimelineEvent) (skipped : ℕ) :
    queryLoop admits limit offset rows results skipped =
      results ++ (((rows.filter (fun e => e.id != "")).filter admits).drop
        (offset-skipped)).take (limit-results.length) := by
  induction rows generalizing results skipped with
  | nil => simp [queryLoop]
  | cons event rest ih =>
    rw [queryLoop]
    split_ifs with hfull hid hadm hskip
    · simp [Nat.sub_eq_zero_of_le hfull]
    · rw [ih]
      simp [hid]
    · rw [ih, List.filter_cons_of_pos (by simpa using hid),
        List.filter_cons_of_neg (by simpa using hadm)]
    · rw [ih, List.filter_cons_of_pos (by simpa using hid),
        List.filter_cons_of_pos (by simpa using hadm)]
      rw [show offset-skipped = (offset-(skipped+1))+1 by omega, List.drop_succ_cons]
    · rw [ih, List.filter_cons_of_pos (by simpa using hid),
        List.filter_cons_of_pos (by simpa using hadm)]
      rw [show offset-skipped = 0 by omega, List.drop_zero, List.drop_zero,
        show limit-results.length = (limit-(results++[event]).length)+1 by
          simp only [List.length_append, List.length_singleton]; omega,
        List.take_succ_cons]
      simp

theorem visited_slots {m : MemoryStore} (h : Inv m) (ascending : Bool) :
    (List.range m.count).map (fun i => m.records (slotAt m ascending i)) =
      if ascending then window m.maxSize m.lastSeq m.records
      else (window m.maxSize m.lastSeq m.records).reverse := by
  cases ascending with
  | true =>
    simp only [if_true, window, slots, List.map_map, h.count_eq]
    apply List.map_congr_left
    intro i hi
    simp only [slotAt, if_true, Function.comp_apply, h.head_eq, h.count_eq]
    rw [head_walk (List.mem_range.mp hi)]
  | false =>
    simp only [Bool.false_eq_true, if_false, window, ← List.map_reverse, slots_reverse,
      List.map_map, h.count_eq]
    apply List.map_congr_left
    intro i hi
    simp only [slotAt, Bool.false_eq_true, if_false, Function.comp_apply, h.head_eq]
    rw [head_walk_back (List.mem_range.mp hi)]

def admitted (m : MemoryStore) (opts : QueryOptions) : List TimelineEvent :=
  (live m).filter (fun e => matchesFilters e opts (getOrCompileFilter opts.filterPreset))

theorem query_ascending {m : MemoryStore} (h : Inv m) (opts : QueryOptions)
    (hasc : deltaAscending opts = true) :
    query m opts = ((admitted m opts).drop opts.offset.toNat).take (effectiveLimit opts) := by
  rw [query, hasc, visited_slots h, query_loop_eq]
  simp [admitted, live]

theorem query_descending {m : MemoryStore} (h : Inv m) (opts : QueryOptions)
    (hdesc : deltaAscending opts = false) :
    query m opts =
      ((admitted m opts).reverse.drop opts.offset.toNat).take (effectiveLimit opts) := by
  rw [query, hdesc, visited_slots h, query_loop_eq]
  simp [admitted, live, List.filter_reverse]

end Radar.TimelineMemory
