import Mathlib.Order.Bounds.Basic
import Radar.Timeline.Arrivals
import Radar.Timeline.MemoryContent

/-!
# What the slots of the ring hold

A slot is occupied when a row was written to it and not vacated since, whether
or not the row has an id. The occupied slots lie in the window behind the head
and carry increasing arrival numbers, so the statistics over the window are
those of the rows.
-/

set_option autoImplicit false

namespace Radar.TimelineMemory
open Radar.Timeline Radar.Ring

variable {m : MemoryStore}

section Slots

def Occupied (m : MemoryStore) (j : ℕ) : Prop := m.records j ≠ {}

/-- Occupied slots bear the number of the write that filled them. -/
structure Filled (m : MemoryStore) : Prop where
  seq_eq : ∀ w, w < m.lastSeq → m.lastSeq ≤ w+m.maxSize → Occupied m (w % m.maxSize) →
    (m.records (w % m.maxSize)).seq = w+1
  unwritten : ∀ j, m.lastSeq ≤ j → j < m.maxSize → ¬Occupied m j

theorem new_filled (maxSize : ℤ) : Filled (newMemoryStore maxSize) where
  seq_eq := fun w hw => absurd hw (Nat.not_lt_zero w)
  unwritten := fun _ _ _ => not_not.mpr rfl

theorem write_filled (h : Inv m) (hf : Filled m) (event : TimelineEvent) :
    Filled (writeAtHead m event) where
  seq_eq := by
    intro w hw hw' hocc
    simp only [Occupied, writeAtHead, evict_head_records, evict_head_max_size, evict_head_head,
      evict_head_last_seq] at *
    by_cases hlast : w = m.lastSeq
    · rw [hlast, h.head_eq, Function.update_self]
    · have hne : w % m.maxSize ≠ m.head := by
        rw [h.head_eq]
        exact slot_ne (by omega) (by omega)
      rw [Function.update_of_ne hne] at hocc ⊢
      exact hf.seq_eq w (by omega) (by omega) hocc
  unwritten := by
    intro j hj hj'
    simp only [Occupied, writeAtHead, evict_head_records, evict_head_max_size, evict_head_head,
      evict_head_last_seq] at *
    have hne : j ≠ m.head := by
      rw [h.head_eq, Nat.mod_eq_of_lt (by omega)]
      omega
    rw [Function.update_of_ne hne]
    exact hf.unwritten j (by omega) hj'

theorem vacate_filled (hf : Filled m) (idx : ℕ) (id : String) : Filled (vacate m idx id) where
  seq_eq := by
    intro w hw hw' hocc
    simp only [Occupied, vacate] at *
    by_cases hj : w % m.maxSize = idx
    · rw [hj, Function.update_self] at hocc
      exact absurd rfl hocc
    · rw [Function.update_of_ne hj] at hocc ⊢
      exact hf.seq_eq w hw hw' hocc
  unwritten := by
    intro j hj hj'
    simp only [Occupied, vacate]
    by_cases hji : j = idx
    · rw [hji, Function.update_self]
      exact not_not.mpr rfl
    · rw [Function.update_of_ne hji]
      exact hf.unwritten j hj hj'

theorem append_filled (h : Inv m) (hf : Filled m) (event : TimelineEvent) :
    Filled (appendLocked m event) := by
  rcases append_locked_cases h event with ⟨heq,-⟩ | ⟨idx,hid,hidx,-,-,heq⟩ | ⟨idx,-,-,-,-,heq⟩
  · rw [heq]
    exact write_filled h hf event
  · rw [heq]
    exact write_filled (vacate_inv h hid hidx) (vacate_filled hf idx event.id) _
  · rw [heq]
    exact hf

theorem appends_filled (events : List TimelineEvent) (h : Inv m) (hf : Filled m) :
    Inv (events.foldl appendLocked m) ∧ Filled (events.foldl appendLocked m) := by
  induction events generalizing m with
  | nil => exact ⟨h,hf⟩
  | cons event events ih => exact ih (append_locked_inv h event) (append_filled h hf event)

theorem writes_filled (maxSize : ℤ) (ws : List Write) :
    Inv (afterWrites maxSize ws) ∧ Filled (afterWrites maxSize ws) := by
  rw [afterWrites, writes_eq]
  exact appends_filled _ (inv_new maxSize) (new_filled maxSize)

end Slots

section Window

/-- The slots behind the head, oldest first. -/
def windowSlots (m : MemoryStore) : List ℕ := (List.range m.count).map (slotAt m true)

theorem window_slots (h : Inv m) : windowSlots m = slots m.maxSize m.lastSeq := by
  rw [windowSlots, slots, h.count_eq]
  apply List.map_congr_left
  intro i hi
  rw [slotAt, if_pos rfl, h.head_eq, h.count_eq]
  exact head_walk (List.mem_range.mp hi)

theorem occupied_write (h : Inv m) (hf : Filled m) {j : ℕ} (hj : j < m.maxSize)
    (hocc : Occupied m j) :
    ∃ w, w < m.lastSeq ∧ m.lastSeq ≤ w+m.maxSize ∧ w % m.maxSize = j := by
  have hlt : j < m.lastSeq := by
    by_contra hge
    exact hf.unwritten j (by omega) hj hocc
  have hn := h.size_pos
  have hdiv := Nat.mod_add_div (m.lastSeq-1-j) m.maxSize
  have hmod := Nat.mod_lt (m.lastSeq-1-j) hn
  refine ⟨j+m.maxSize*((m.lastSeq-1-j)/m.maxSize),by omega,by omega,?_⟩
  rw [Nat.add_mul_mod_self_left, Nat.mod_eq_of_lt hj]

theorem occupied_in_window (h : Inv m) (hf : Filled m) {j : ℕ} (hj : j < m.maxSize)
    (hocc : Occupied m j) : j ∈ windowSlots m := by
  rw [window_slots h]
  exact mem_slots.mpr (occupied_write h hf hj hocc)

theorem occupied_seq (h : Inv m) (hf : Filled m) {j : ℕ} (hj : j < m.maxSize)
    (hocc : Occupied m j) : 0 < (m.records j).seq ∧ (m.records j).seq ≤ m.lastSeq := by
  obtain ⟨w,hw,hw',rfl⟩ := occupied_write h hf hj hocc
  have hseq := hf.seq_eq w hw hw' hocc
  omega

theorem window_increasing (h : Inv m) (hf : Filled m) :
    (windowSlots m).Pairwise fun i j => Occupied m i → Occupied m j →
      (m.records i).seq < (m.records j).seq := by
  rw [window_slots h, slots, List.pairwise_map]
  apply List.Pairwise.imp_of_mem _ List.pairwise_lt_range
  intro i j hi hj hij hocci hoccj
  rw [List.mem_range] at hi hj
  rw [hf.seq_eq _ (by omega) (by omega) hocci, hf.seq_eq _ (by omega) (by omega) hoccj]
  omega

end Window

section Statistics

structure StoreStats where
  totalEvents : ℕ := 0
  oldestEvent : Time := 0
  newestEvent : Time := 0
  oldestSeq : ℕ := 0
  newestSeq : ℕ := 0
  maxEvents : ℕ := 0
  eventsEvicted : Bool := false
  seenResources : ℕ := 0
  degraded : Bool := false
  degradedReason : String := ""
  deriving DecidableEq, Repr

/-- One turn of the loop over the window. -/
def countRow (s : StoreStats) (row : TimelineEvent) : StoreStats :=
  if row.id = "" then s
  else
    { s with
      totalEvents := s.totalEvents+1
      newestEvent :=
        if Time.isZero s.newestEvent || decide (row.timestamp > s.newestEvent) then row.timestamp
        else s.newestEvent
      oldestEvent :=
        if Time.isZero s.oldestEvent || decide (row.timestamp < s.oldestEvent) then row.timestamp
        else s.oldestEvent
      oldestSeq := if s.oldestSeq = 0 ∨ row.seq < s.oldestSeq then row.seq else s.oldestSeq
      newestSeq := if row.seq > s.newestSeq then row.seq else s.newestSeq }

/-- The resources seen and the reason for which the store is a fallback do not change with rows. -/
def stats (m : MemoryStore) (seenResources : List String) (degradedReason : String) : StoreStats :=
  let counted := ((List.range m.count).map fun i => m.records (slotAt m false i)).foldl countRow {}
  { counted with
    maxEvents := m.maxSize
    eventsEvicted := m.eventsEvicted
    seenResources := seenResources.length
    degraded := decide (degradedReason ≠ "")
    degradedReason := degradedReason }

/-- The rows that the slots hold. -/
def rows (m : MemoryStore) : List TimelineEvent :=
  ((List.range m.maxSize).map m.records).filter fun row => decide (row.id ≠ "")

/-- The arrival numbers of some rows. -/
def seqs (l : List TimelineEvent) : Set ℕ := {n | ∃ row ∈ l, row.seq = n}

/-- The statistics are those of the rows counted so far. -/
structure Counts (s : StoreStats) (l : List TimelineEvent) : Prop where
  total : s.totalEvents = l.length
  none : l = [] → s.oldestSeq = 0 ∧ s.newestSeq = 0
  bounds : l ≠ [] → IsLeast (seqs l) s.oldestSeq ∧ IsGreatest (seqs l) s.newestSeq

theorem count_row {s : StoreStats} {l : List TimelineEvent} (h : Counts s l)
    (hpos : ∀ row ∈ l, 0 < row.seq) {row : TimelineEvent} (hid : row.id ≠ "") (hseq : 0 < row.seq) :
    Counts (countRow s row) (row::l) := by
  rw [countRow, if_neg hid]
  constructor
  · exact congrArg (·+1) h.total
  · exact fun hnil => absurd hnil (List.cons_ne_nil row l)
  · intro _
    have hseqs : seqs (row::l) = insert row.seq (seqs l) := by
      ext n
      simp [seqs, eq_comm]
    rw [hseqs]
    by_cases hl : l = []
    · obtain ⟨hold,hnew⟩ := h.none hl
      have hempty : seqs l = ∅ := by simp [seqs, hl]
      simp [hempty, hold, hnew, hseq]
    · obtain ⟨hleast,hgreatest⟩ := h.bounds hl
      have holdpos : s.oldestSeq ≠ 0 := by
        obtain ⟨first,hfirst,heq⟩ := hleast.1
        have hfirst := hpos first hfirst
        omega
      constructor
      · have hmin : (if s.oldestSeq = 0 ∨ row.seq < s.oldestSeq then row.seq else s.oldestSeq) =
            min row.seq s.oldestSeq := by
          split_ifs <;> omega
        show IsLeast _ (if _ then _ else _)
        rw [hmin]
        exact hleast.insert row.seq
      · have hmax : (if row.seq > s.newestSeq then row.seq else s.newestSeq) =
            max row.seq s.newestSeq := by
          split_ifs <;> omega
        show IsGreatest _ (if _ then _ else _)
        rw [hmax]
        exact hgreatest.insert row.seq

theorem count_rows {s : StoreStats} {l : List TimelineEvent} (h : Counts s l)
    (hpos : ∀ row ∈ l, 0 < row.seq) (more : List TimelineEvent)
    (hmore : ∀ row ∈ more, row.id ≠ "" → 0 < row.seq) :
    Counts (more.foldl countRow s) ((more.filter fun row => decide (row.id ≠ "")).reverse++l) := by
  induction more generalizing s l with
  | nil => exact h
  | cons row more ih =>
    have hrest : ∀ r ∈ more, r.id ≠ "" → 0 < r.seq := fun r hr => hmore r (List.mem_cons_of_mem row hr)
    by_cases hid : row.id = ""
    · have hsame : countRow s row = s := if_pos hid
      rw [List.foldl_cons, hsame, List.filter_cons_of_neg (by simp [hid])]
      exact ih h hpos hrest
    · have hseq := hmore row List.mem_cons_self hid
      rw [List.foldl_cons, List.filter_cons_of_pos (by simp [hid]), List.reverse_cons,
        List.append_assoc]
      apply ih (count_row h hpos hid hseq) _ hrest
      intro r hr
      rcases List.mem_cons.mp hr with rfl | hr
      · exact hseq
      · exact hpos r hr

theorem rows_perm (h : Inv m) : (rows m).Perm (live m) := by
  have hrows : ∀ row, row ∈ rows m ↔ row ∈ live m := by
    intro row
    rw [mem_live h, rows, List.mem_filter, decide_eq_true_eq, List.mem_map]
    simp only [List.mem_range]
    tauto
  have hnodup : (rows m).Nodup := by
    rw [rows, List.Nodup, List.pairwise_filter, List.pairwise_map]
    apply List.Pairwise.imp_of_mem _ (List.nodup_range)
    intro i j hi hj hne hidi _ heq
    rw [List.mem_range] at hi hj
    exact hne (h.slot_unique hi hj (of_decide_eq_true hidi) (congrArg (·.id) heq))
  have hlive : (live m).Nodup := (live_sorted h).imp fun hlt heq => absurd hlt (by simp [heq])
  exact (List.perm_ext_iff_of_nodup hnodup hlive).mpr hrows

theorem counts_perm {s : StoreStats} {l l' : List TimelineEvent} (h : Counts s l) (hp : l.Perm l') :
    Counts s l' := by
  have hseqs : seqs l' = seqs l := by
    ext n
    simp [seqs, hp.mem_iff]
  constructor
  · rw [h.total, hp.length_eq]
  · exact fun hnil => h.none (List.perm_nil.mp (hnil ▸ hp))
  · intro hne
    rw [hseqs]
    exact h.bounds fun hnil => hne (List.perm_nil.mp (hnil ▸ hp.symm))

theorem stats_count (h : Inv m) (seenResources : List String) (degradedReason : String) :
    Counts (stats m seenResources degradedReason) (rows m) := by
  have hvisited := visited_slots h false
  have hwindow : ∀ row ∈ (window m.maxSize m.lastSeq m.records).reverse, row.id ≠ "" → 0 < row.seq := by
    intro row hrow hid
    apply live_seq_pos h
    rw [live, List.mem_filter]
    exact ⟨List.mem_reverse.mp hrow,by simpa using hid⟩
  have hempty : Counts {} [] :=
    ⟨rfl,fun _ => ⟨rfl,rfl⟩,fun hne => absurd rfl hne⟩
  have hcount := count_rows hempty (by simp) _ hwindow
  have hfold : Counts (stats m seenResources degradedReason) (live m) := by
    rw [List.filter_reverse, List.reverse_reverse, List.append_nil] at hcount
    rw [stats, hvisited]
    have hlive : (window m.maxSize m.lastSeq m.records).filter (fun row => decide (row.id ≠ "")) =
        live m := by
      rw [live]
      apply List.filter_congr
      intro row _
      by_cases hid : row.id = ""
      · simp [hid]
      · simp [hid]
    rw [hlive] at hcount
    exact ⟨hcount.total,hcount.none,hcount.bounds⟩
  exact counts_perm hfold (rows_perm h).symm

/-- What the ring's structures say of each other. -/
structure RingInv (m : MemoryStore) : Prop where
  index : ∀ id j, m.index id = some j ↔ id ≠ "" ∧ j < m.maxSize ∧ (m.records j).id = id
  once : ∀ i j, i < m.maxSize → j < m.maxSize → (m.records i).id ≠ "" →
    (m.records i).id = (m.records j).id → i = j
  inWindow : ∀ j, j < m.maxSize → Occupied m j → j ∈ windowSlots m
  increasing : (windowSlots m).Pairwise fun i j => Occupied m i → Occupied m j →
    (m.records i).seq < (m.records j).seq
  bounded : ∀ j, j < m.maxSize → Occupied m j →
    0 < (m.records j).seq ∧ (m.records j).seq ≤ m.lastSeq
  counted : ∀ seenResources degradedReason, Counts (stats m seenResources degradedReason) (rows m)

theorem ring_invariant (maxSize : ℤ) (ws : List Write) : RingInv (afterWrites maxSize ws) := by
  obtain ⟨h,hf⟩ := writes_filled maxSize ws
  constructor
  · intro id j
    by_cases hid : id = ""
    · rw [hid, h.index_empty]
      simp
    · simp [h.index_iff id hid j, hid]
  · exact fun i j hi hj hid heq => h.slot_unique hi hj hid heq
  · exact fun j hj hocc => occupied_in_window h hf hj hocc
  · exact window_increasing h hf
  · exact fun j hj hocc => occupied_seq h hf hj hocc
  · exact fun seenResources degradedReason => stats_count h seenResources degradedReason

end Statistics

end Radar.TimelineMemory
