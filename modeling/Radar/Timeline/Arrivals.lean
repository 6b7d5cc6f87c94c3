import Radar.Base.LastWrite
import Radar.Base.Numbered
import Radar.Base.SortFunc
import Radar.Timeline.EvictionBoundary

/-!
# The ring as a log of arrivals

Every event that the store takes arrives at the end of a log. The ring holds
the last `maxSize` arrivals, less those that a later one of the same id
replaced. The slot of a replaced arrival stays empty until it is the oldest,
so an accepted bump can cost another row before the ring is full of ids.
-/

set_option autoImplicit false

namespace Radar.TimelineMemory
open Radar.Timeline Radar.Ring Radar.Numbered

section Log

/-- The rows among the last `n` arrivals. -/
def contents (n : ℕ) (log : List TimelineEvent) : List TimelineEvent :=
  LastWrite.lasts TimelineEvent.id (log.drop (log.length-n))

def rowWith (rows : List TimelineEvent) (id : String) : Option TimelineEvent :=
  rows.find? fun r => r.id = id

/-- A new id, or a bump of a K8s Event. -/
def accepts (rows : List TimelineEvent) (event : TimelineEvent) : Bool :=
  match rowWith rows event.id with
  | none => true
  | some old => supersedes event old

def arrival (rows : List TimelineEvent) (event : TimelineEvent) : TimelineEvent :=
  match rowWith rows event.id with
  | none => event
  | some old => keepEnrichment event old

def arrive (n : ℕ) (log : List TimelineEvent) (event : TimelineEvent) : List TimelineEvent :=
  if accepts (contents n log) event then
    log++[{ arrival (contents n log) event with seq := log.length+1 }]
  else log

def arrivals (n : ℕ) (events : List TimelineEvent) : List TimelineEvent :=
  events.foldl (arrive n) []

variable {n : ℕ} {log : List TimelineEvent}

theorem from_increasing {k : ℕ} (h : From TimelineEvent.seq k log) :
    log.Pairwise fun a b => a.seq < b.seq := by
  induction log generalizing k with
  | nil => exact List.Pairwise.nil
  | cons e log ih =>
    refine List.pairwise_cons.mpr ⟨fun r hr => ?_,ih h.2⟩
    rw [h.1]
    exact lt_seq h.2 hr

/-- The last `n` arrivals are told by their numbers. -/
theorem contents_eq (h : From TimelineEvent.seq 0 log) :
    contents n log = (LastWrite.lasts TimelineEvent.id log).filter
      fun r => log.length < r.seq+n := by
  have hdrop : log.drop (log.length-n) = log.filter fun r => log.length < r.seq+n := by
    rw [← filter_after h (Nat.sub_le _ _)]
    apply List.filter_congr
    intro r hr
    have := lt_seq h hr
    simp only [decide_eq_decide]
    omega
  rw [contents, hdrop, LastWrite.lasts_filter]
  apply (from_increasing h).imp
  intro a b hab ha
  simp only [decide_eq_true_eq] at ha ⊢
  omega

theorem contents_append (h : From TimelineEvent.seq 0 log) (hn : 0 < n) {row : TimelineEvent}
    (hrow : row.seq = log.length+1) :
    contents n (log++[row]) = ((contents n log).filter fun r => r.id ≠ row.id).filter
      (fun r => log.length+1 < r.seq+n)++[row] := by
  have hfrom : From TimelineEvent.seq 0 (log++[row]) := from_append.mpr ⟨h,by simpa using hrow,trivial⟩
  rw [contents_eq hfrom, contents_eq h, LastWrite.lasts_append_one, List.filter_append,
    List.filter_cons_of_pos, List.filter_nil]
  · congr 1
    rw [List.filter_filter, List.filter_filter, List.filter_filter]
    apply List.filter_congr
    intro r _
    simp only [List.length_append, List.length_singleton]
    by_cases hid : r.id = row.id
    · simp [hid]
    · by_cases hlt : log.length+1 < r.seq+n
      · simp [hid, hlt, show log.length < r.seq+n by omega]
      · simp [hid, hlt]
  · simp only [List.length_append, List.length_singleton, decide_eq_true_eq]
    omega

end Log

section Refinement

/-- The ring holds the last arrivals of the log. -/
structure Logs (m : MemoryStore) (log : List TimelineEvent) : Prop where
  inv : Inv m
  numbered : From TimelineEvent.seq 0 log
  length : m.lastSeq = log.length
  live : live m = contents m.maxSize log

variable {m : MemoryStore} {log : List TimelineEvent} {event r : TimelineEvent}

theorem rowWith_live (h : Inv m) {id : String} (hid : id ≠ "") :
    rowWith (live m) id = (m.index id).map m.records := by
  cases hidx : m.index id with
  | none =>
    apply List.find?_eq_none.mpr
    intro r hr hrid
    obtain ⟨-,j,hj,rfl⟩ := (mem_live h).mp hr
    have hindex := (h.index_iff id hid j).mpr ⟨hj,of_decide_eq_true hrid⟩
    rw [hidx] at hindex
    cases hindex
  | some j =>
    obtain ⟨hj,hrec⟩ := (h.index_iff id hid j).mp hidx
    have hlive : m.records j ∈ live m := (mem_live h).mpr ⟨by rwa [hrec],j,hj,rfl⟩
    cases hfind : rowWith (live m) id with
    | none =>
      have hno := List.find?_eq_none.mp hfind _ hlive
      exact absurd hrec (by simpa using hno)
    | some r =>
      have hrid : r.id = id := by simpa using List.find?_some hfind
      have hr : r ∈ live m := List.mem_of_find?_eq_some hfind
      obtain ⟨hne,k,hk,rfl⟩ := (mem_live h).mp hr
      rw [h.slot_unique hk hj hne (by rw [hrid, hrec])]
      rfl

/-- What one event leaves of the rows. -/
theorem live_append (h : Inv m) (hid : event.id ≠ "") :
    live (appendLocked m event) =
      if accepts (live m) event then
        ((live m).filter fun r => r.id ≠ event.id).filter
          (fun r => m.lastSeq+1 < r.seq+m.maxSize)++
            [{ arrival (live m) event with seq := m.lastSeq+1 }]
      else live m := by
  have hrow := rowWith_live h hid
  obtain ⟨heq,hnew⟩ | ⟨idx,-,hidx,hrec,hsup,heq⟩ | ⟨idx,-,hidx,hrec,hsup,heq⟩ :=
    append_locked_cases h event
  · rw [hnew hid] at hrow
    have hother : (live m).filter (fun r => r.id ≠ event.id) = live m := by
      apply List.filter_eq_self.mpr
      intro r hr
      simpa using List.find?_eq_none.mp hrow r hr
    simp only [accepts, arrival, hrow, Option.map_none, if_true]
    rw [heq, live_write_at_head h, if_neg hid, hother]
  · rw [hidx, Option.map_some] at hrow
    simp only [accepts, arrival, hrow, hsup, if_true]
    have hkept : (keepEnrichment event (m.records idx)).id ≠ "" := hid
    rw [heq, live_write_at_head (vacate_inv h hid hidx), if_neg hkept, live_vacate h hid hidx]
    simp only [ne_eq, decide_not]
    rfl
  · rw [hidx, Option.map_some] at hrow
    simp only [accepts, hrow, hsup]
    rw [heq]
    rfl

theorem appendLocked_lastSeq (h : Inv m) (hid : event.id ≠ "") :
    (appendLocked m event).lastSeq = if accepts (live m) event then m.lastSeq+1 else m.lastSeq := by
  have hrow := rowWith_live h hid
  obtain ⟨heq,hnew⟩ | ⟨idx,-,hidx,hrec,hsup,heq⟩ | ⟨idx,-,hidx,hrec,hsup,heq⟩ :=
    append_locked_cases h event
  · rw [hnew hid] at hrow
    simp [accepts, hrow, heq, writeAtHead]
  · rw [hidx, Option.map_some] at hrow
    simp [accepts, hrow, heq, hsup, writeAtHead, vacate]
  · rw [hidx, Option.map_some] at hrow
    simp [accepts, hrow, heq, hsup]

theorem appendLocked_maxSize (h : Inv m) : (appendLocked m event).maxSize = m.maxSize := by
  obtain ⟨heq,-⟩ | ⟨idx,-,-,-,-,heq⟩ | ⟨idx,-,-,-,-,heq⟩ := append_locked_cases h event <;> rw [heq]
  · exact evict_head_max_size m
  · exact evict_head_max_size (vacate m idx event.id)

theorem arrival_id (rows : List TimelineEvent) : (arrival rows event).id = event.id := by
  unfold arrival
  split <;> rfl

theorem append_logs (h : Logs m log) (hid : event.id ≠ "") :
    Logs (appendLocked m event) (arrive m.maxSize log event) where
  inv := append_locked_inv h.inv event
  numbered := by
    unfold arrive
    split
    · exact from_append.mpr ⟨h.numbered,by simp,trivial⟩
    · exact h.numbered
  length := by
    rw [appendLocked_lastSeq h.inv hid, h.live, h.length, arrive]
    split
    · simp
    · rfl
  live := by
    rw [live_append h.inv hid, appendLocked_maxSize h.inv, h.live, h.length, arrive]
    split
    · rw [contents_append h.numbered h.inv.size_pos rfl]
      simp only [arrival_id]
    · rfl

theorem new_logs (maxSize : ℤ) : Logs (newMemoryStore maxSize) [] where
  inv := inv_new maxSize
  numbered := trivial
  length := rfl
  live := by simp [live, window, slots, newMemoryStore, contents, LastWrite.lasts]

/-- The events of a run one by one. -/
def Write.events (w : Write) : List TimelineEvent :=
  match w with
  | .append event => [event]
  | .appendBatch events => events

def MemoryStore.write (m : MemoryStore) (w : Write) : MemoryStore :=
  match w with
  | .append event => appendLocked m event
  | .appendBatch events => appendBatch m events

def afterWrites (maxSize : ℤ) (ws : List Write) : MemoryStore :=
  ws.foldl MemoryStore.write (newMemoryStore maxSize)

theorem writes_eq (m : MemoryStore) (ws : List Write) :
    ws.foldl MemoryStore.write m = (ws.flatMap Write.events).foldl appendLocked m := by
  induction ws generalizing m with
  | nil => rfl
  | cons w ws ih =>
    rw [List.foldl_cons, List.flatMap_cons, List.foldl_append, ih]
    cases w <;> rfl

theorem appends_logs {events : List TimelineEvent} (h : Logs m log)
    (hids : ∀ e ∈ events, e.id ≠ "") :
    Logs (events.foldl appendLocked m) (events.foldl (arrive m.maxSize) log) ∧
      (events.foldl appendLocked m).maxSize = m.maxSize := by
  induction events generalizing m log with
  | nil => exact ⟨h,rfl⟩
  | cons e es ih =>
    have hstep := append_logs h (hids e List.mem_cons_self)
    have hall := ih hstep fun e' he' => hids e' (List.mem_cons_of_mem e he')
    rw [appendLocked_maxSize h.inv] at hall
    exact hall

end Refinement

section Capacity

variable {m : MemoryStore} {log : List TimelineEvent} {event r : TimelineEvent} {n : ℕ}

/-- The event takes the row of another id away. -/
def Evicts (m : MemoryStore) (event r : TimelineEvent) : Prop :=
  r ∈ live m ∧ r.id ≠ event.id ∧ r ∉ live (appendLocked m event)

theorem evicts_iff (h : Inv m) (hid : event.id ≠ "") (hr : r ∈ live m) (hne : r.id ≠ event.id) :
    Evicts m event r ↔ accepts (live m) event = true ∧ r.seq+m.maxSize = m.lastSeq+1 := by
  have hbound : m.lastSeq < r.seq+m.maxSize := by
    obtain ⟨hrid,j,hj,rfl⟩ := (mem_live h).mp hr
    exact (h.slot_seq hj hrid).2
  have hrow : r ≠ { arrival (live m) event with seq := m.lastSeq+1 } := by
    intro heq
    apply hne
    rw [heq]
    exact arrival_id (live m)
  unfold Evicts
  rw [live_append h hid]
  by_cases hacc : accepts (live m) event = true
  · rw [if_pos hacc]
    simp only [List.mem_append, List.mem_filter, List.mem_singleton, hr, hne, hrow, hacc,
      decide_eq_true_eq, ne_eq, not_false_eq_true, true_and, or_false, decide_true]
    omega
  · rw [if_neg hacc]
    simp [hr, hacc]

/-- No event of the list bumps a row. -/
def Unbumped : MemoryStore → List TimelineEvent → Prop
  | _, [] => True
  | m, e::es => (∀ old ∈ live m, old.id = e.id → supersedes e old = false) ∧
      Unbumped (appendLocked m e) es

theorem rowWith_some {rows : List TimelineEvent} {id : String} {old : TimelineEvent}
    (h : rowWith rows id = some old) : old ∈ rows ∧ old.id = id :=
  ⟨List.mem_of_find?_eq_some h,by simpa using List.find?_some h⟩

theorem accepts_new {rows : List TimelineEvent}
    (hbump : ∀ old ∈ rows, old.id = event.id → supersedes event old = false) :
    accepts rows event = true ↔ event.id ∉ rows.map TimelineEvent.id := by
  unfold accepts
  cases hfind : rowWith rows event.id with
  | none =>
    simp only [List.mem_map, not_exists, not_and, true_iff]
    intro r hr heq
    exact absurd heq (by simpa using List.find?_eq_none.mp hfind r hr)
  | some old =>
    obtain ⟨hold,heq⟩ := rowWith_some hfind
    simp only [hbump old hold heq, Bool.false_eq_true, false_iff, not_not]
    exact heq ▸ List.mem_map_of_mem hold

/-- Without bumps the last arrivals have ids of their own. -/
structure Distinct (n : ℕ) (log events : List TimelineEvent) : Prop where
  window : ((log.drop (log.length-n)).map TimelineEvent.id).Nodup
  ids : ∀ id, id ∈ log.map TimelineEvent.id ↔ id ∈ events.map TimelineEvent.id

theorem contents_ids (id : String) : id ∈ (contents n log).map TimelineEvent.id ↔
    id ∈ (log.drop (log.length-n)).map TimelineEvent.id := LastWrite.mem_lasts_keys

theorem arrive_distinct {events : List TimelineEvent} (h : Distinct n log events)
    (hbump : ∀ old ∈ contents n log, old.id = event.id → supersedes event old = false) :
    Distinct n (arrive n log event) (events++[event]) := by
  have hnew := accepts_new hbump
  rw [contents_ids] at hnew
  unfold arrive
  split
  · next hacc =>
    have hfresh := hnew.mp hacc
    constructor
    · rw [List.length_append, List.length_singleton]
      have hsub : ((log++[{ arrival (contents n log) event with seq := log.length+1 }]).drop
          (log.length+1-n)).Sublist (log.drop (log.length-n)++
            [{ arrival (contents n log) event with seq := log.length+1 }]) := by
        rw [List.drop_append]
        exact (List.drop_sublist_drop_left log (by omega)).append (List.drop_sublist _ _)
      apply (hsub.map TimelineEvent.id).nodup
      rw [List.map_append, List.map_singleton, arrival_id]
      exact List.Nodup.append h.window (List.nodup_singleton _) (by simpa using hfresh)
    · intro id
      rw [List.map_append, List.map_append, List.mem_append, List.mem_append, h.ids, List.map_singleton,
        List.map_singleton, arrival_id]
  · next hacc =>
    refine ⟨h.window,fun id => ?_⟩
    rw [List.map_append, List.mem_append, h.ids, List.map_singleton, List.mem_singleton]
    constructor
    · exact .inl
    · rintro (hin | rfl)
      · exact hin
      · rw [← h.ids]
        have hin := not_not.mp (mt hnew.mpr hacc)
        exact ((List.drop_sublist _ _).map _).subset hin

theorem contents_length_eq {events : List TimelineEvent} (h : Distinct n log events) :
    (contents n log).length = min log.length n := by
  rw [contents, LastWrite.lasts_of_nodup h.window, List.length_drop]
  omega

/-- So they are as many as the ids, as far as there is room. -/
theorem contents_length {events : List TimelineEvent} (h : Distinct n log events) :
    (contents n log).length = min (events.map TimelineEvent.id).toFinset.card n := by
  have hids : (events.map TimelineEvent.id).toFinset = (log.map TimelineEvent.id).toFinset := by
    ext id
    rw [List.mem_toFinset, List.mem_toFinset, h.ids]
  have hcard := List.toFinset_card_of_nodup h.window
  rw [List.length_map] at hcard
  rw [hids, contents_length_eq h]
  by_cases hn : log.length ≤ n
  · rw [Nat.sub_eq_zero_of_le hn, List.drop_zero] at hcard
    rw [hcard]
  · have hsub : ((log.drop (log.length-n)).map TimelineEvent.id).toFinset ⊆
        (log.map TimelineEvent.id).toFinset := by
      intro id hid
      rw [List.mem_toFinset] at hid ⊢
      exact ((List.drop_sublist _ _).map _).subset hid
    have hle := Finset.card_le_card hsub
    rw [hcard, List.length_drop] at hle
    omega

theorem appends_distinct {events seen : List TimelineEvent} (h : Logs m log)
    (hd : Distinct m.maxSize log seen) (hids : ∀ e ∈ events, e.id ≠ "") (hbump : Unbumped m events) :
    Distinct m.maxSize (events.foldl (arrive m.maxSize) log) (seen++events) := by
  induction events generalizing m log seen with
  | nil => simpa using hd
  | cons e es ih =>
    obtain ⟨he,hes⟩ := hbump
    rw [h.live] at he
    have hall := ih (append_logs h (hids e List.mem_cons_self))
      (by rw [appendLocked_maxSize h.inv]; exact arrive_distinct hd he)
      (fun e' he' => hids e' (List.mem_cons_of_mem e he')) hes
    rw [appendLocked_maxSize h.inv, List.append_assoc, List.singleton_append] at hall
    exact hall

/-- How a store that took `events` uses its room. -/
structure RoomUsed (m : MemoryStore) (maxSize : ℤ) (events : List TimelineEvent) : Prop where
  rows : live m = contents m.maxSize (arrivals m.maxSize events)
  evicts : ∀ event r, event.id ≠ "" → r ∈ live m → r.id ≠ event.id →
    (Evicts m event r ↔ accepts (live m) event = true ∧ r.seq+m.maxSize = m.lastSeq+1)
  one : ∀ event r s, event.id ≠ "" → Evicts m event r → Evicts m event s → r = s
  full : Unbumped (newMemoryStore maxSize) events →
    (live m).length = min (events.map TimelineEvent.id).toFinset.card m.maxSize
  late : Unbumped (newMemoryStore maxSize) events → ∀ event r, event.id ≠ "" →
    (∀ old ∈ live m, old.id = event.id → supersedes event old = false) → Evicts m event r →
      (live m).length = m.maxSize ∧ ∀ old ∈ live m, old.id ≠ event.id

/-- The store holds its last arrivals. Without bumps these have ids of their own, and a row goes
only when the store is full and the id is new. -/
theorem ring_holds_arrivals (maxSize : ℤ) (ws : List Write)
    (hids : ∀ e ∈ ws.flatMap Write.events, e.id ≠ "") :
    RoomUsed (afterWrites maxSize ws) maxSize (ws.flatMap Write.events) := by
  have hrun : afterWrites maxSize ws =
      (ws.flatMap Write.events).foldl appendLocked (newMemoryStore maxSize) := writes_eq _ ws
  rw [hrun]
  generalize ws.flatMap Write.events = events at hids
  obtain ⟨hlogs,hsize⟩ := appends_logs (new_logs maxSize) hids
  have hdistinct : Unbumped (newMemoryStore maxSize) events →
      Distinct (newMemoryStore maxSize).maxSize
        (events.foldl (arrive (newMemoryStore maxSize).maxSize) []) events := by
    intro hbump
    exact appends_distinct (new_logs maxSize) ⟨by simp,fun _ => Iff.rfl⟩ hids hbump
  generalize events.foldl appendLocked (newMemoryStore maxSize) = m at hlogs hsize
  have hseq : ∀ event r, event.id ≠ "" → Evicts m event r → r.seq+m.maxSize = m.lastSeq+1 :=
    fun event r hid h => ((evicts_iff hlogs.inv hid h.1 h.2.1).mp h).2
  have hfull : Unbumped (newMemoryStore maxSize) events →
      (live m).length = min (events.map TimelineEvent.id).toFinset.card m.maxSize := by
    intro hbump
    rw [hlogs.live, hsize]
    exact contents_length (hdistinct hbump)
  constructor
  · rw [hlogs.live, hsize]
    rfl
  · intro event r hid hr hne
    exact evicts_iff hlogs.inv hid hr hne
  · intro event r s hid hr hs
    have hrs : r.seq = s.seq := by
      have := hseq event r hid hr
      have := hseq event s hid hs
      omega
    exact SortBy.eq_of_key_eq (live_sorted hlogs.inv) hr.1 hs.1 hrs
  · exact hfull
  · intro hbump event r hid hnone hr
    have hacc := ((evicts_iff hlogs.inv hid hr.1 hr.2.1).mp hr).1
    constructor
    · have hpos := live_seq_pos hlogs.inv hr.1
      have hlast := hseq event r hid hr
      have hlength := hlogs.length
      rw [hlogs.live, hsize, contents_length_eq (hdistinct hbump), ← hlength, ← hsize]
      omega
    · intro old hold heq
      exact (accepts_new hnone).mp hacc (heq ▸ List.mem_map_of_mem hold)

end Capacity

section Bumped

def k8sEvent (id : String) (timestamp : Time) : TimelineEvent where
  id := id
  source := .k8sEvent
  timestamp := timestamp

/-- A bump in a store of two rows takes the other one away. -/
theorem bump_evicts : ¬ ∀ (maxSize : ℤ) (ws : List Write),
    (∀ e ∈ ws.flatMap Write.events, e.id ≠ "") → ∀ event r, event.id ≠ "" →
      Evicts (afterWrites maxSize ws) event r →
        (live (afterWrites maxSize ws)).length = (afterWrites maxSize ws).maxSize ∧
          ∀ old ∈ live (afterWrites maxSize ws), old.id ≠ event.id := by
  intro h
  have hnone := h 2 [.append (k8sEvent "a" 1),.append (k8sEvent "b" 2)] (by decide)
    (k8sEvent "b" 3) { k8sEvent "a" 1 with seq := 1 } (by decide)
    ⟨by decide,by decide,by decide⟩
  exact hnone.2 { k8sEvent "b" 2 with seq := 2 } (by decide) rfl

theorem ring_holds_arrivals_three :
    RoomUsed (afterWrites 2 [.appendBatch [k8sEvent "a" 1,k8sEvent "b" 2],.append (k8sEvent "b" 3)]) 2
      [k8sEvent "a" 1,k8sEvent "b" 2,k8sEvent "b" 3] :=
  ring_holds_arrivals 2 [.appendBatch [k8sEvent "a" 1,k8sEvent "b" 2],.append (k8sEvent "b" 3)]
    (by decide)

end Bumped

end Radar.TimelineMemory
