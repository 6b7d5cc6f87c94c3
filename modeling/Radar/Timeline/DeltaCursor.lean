import Mathlib.Order.MinMax
import Mathlib.Data.Int.Order.Basic
import Radar.Timeline.MemoryContent

/-!
# The delta cursor

A polling client keeps the largest arrival number it was given as its
cursor. Writers and polls interleave freely; between two polls any number of
rows may arrive, re-arrive or fall out of the ring.
-/

set_option autoImplicit false

namespace Radar.DeltaCursor
open Radar.Timeline Radar.TimelineMemory Radar.Ring

/-- The client's fixed content filters and page bound; the cursor is set per poll. -/
abbrev pollOptions (base : QueryOptions) (cursor : ℤ) : QueryOptions :=
  { base with sinceSeq := cursor, seqPaging := true, offset := 0 }

/-- What the content filters alone say about a row. -/
def admits (base : QueryOptions) (e : TimelineEvent) : Bool :=
  matchesFilters e { base with sinceSeq := 0, seqPaging := false }
    (getOrCompileFilter base.filterPreset)

theorem poll_filter (base : QueryOptions) (cursor : ℤ) (e : TimelineEvent) :
    matchesFilters e (pollOptions base cursor) (getOrCompileFilter base.filterPreset) =
      (admits base e && decide (cursor < e.seq)) := by
  have hzero : decide ((0 : ℤ) > 0) = false := rfl
  rw [Bool.eq_iff_iff]
  simp only [admits, matchesFilters, deltaPaging, Bool.true_or, Bool.true_and,
    Bool.false_or, hzero, Bool.false_and, Bool.not_false, Bool.and_true, Bool.and_eq_true,
    Bool.not_eq_true', decide_eq_false_iff_not, Int.not_le, decide_eq_true_eq]
  -- only the position of the cursor test differs
  apply iff_of_eq
  ac_rfl

def nextCursor (cursor : ℤ) (page : List TimelineEvent) : ℤ :=
  page.foldl (fun c e => max c e.seq) cursor

structure Session where
  store : MemoryStore
  cursor : ℤ
  delivered : List TimelineEvent

def page (base : QueryOptions) (s : Session) : List TimelineEvent :=
  query s.store (pollOptions base s.cursor)

inductive Act where
  | append (event : TimelineEvent)
  | appendBatch (events : List TimelineEvent)
  | poll

def step (base : QueryOptions) (s : Session) : Act → Session
  | .append event => { s with store := appendLocked s.store event }
  | .appendBatch events => { s with store := appendBatch s.store events }
  | .poll => { s with
      cursor := nextCursor s.cursor (page base s)
      delivered := s.delivered++page base s }

/-- The session after a schedule, starting with an empty store and any cursor. -/
def session (base : QueryOptions) (maxSize cursor : ℤ) (acts : List Act) : Session :=
  acts.foldl (step base) ⟨newMemoryStore maxSize, cursor, []⟩

theorem page_eq (base : QueryOptions) {s : Session} (h : Inv s.store) :
    page base s = ((live s.store).filter
      (fun e => admits base e && decide (s.cursor < e.seq))).take (effectiveLimit base) := by
  rw [page, query_ascending h _ (by simp [deltaAscending, deltaPaging]), admitted]
  have hfilter : (fun e => matchesFilters e (pollOptions base s.cursor)
      (getOrCompileFilter (pollOptions base s.cursor).filterPreset)) =
      fun e => admits base e && decide (s.cursor < e.seq) :=
    funext (poll_filter base s.cursor)
  rw [hfilter]
  rfl

theorem mem_page (base : QueryOptions) {s : Session} (h : Inv s.store) {e : TimelineEvent}
    (he : e ∈ page base s) : e ∈ live s.store ∧ admits base e = true ∧ s.cursor < e.seq := by
  rw [page_eq base h] at he
  have := List.mem_filter.mp (List.mem_of_mem_take he)
  simpa using this

theorem next_cursor_le (cursor bound : ℤ) (rows : List TimelineEvent) (hc : cursor ≤ bound)
    (hr : ∀ e ∈ rows, (e.seq : ℤ) ≤ bound) : nextCursor cursor rows ≤ bound := by
  induction rows generalizing cursor with
  | nil => exact hc
  | cons r rs ih =>
    exact ih _ (max_le hc (hr r (by simp))) (fun e he => hr e (by simp [he]))

theorem le_next_cursor (cursor : ℤ) (rows : List TimelineEvent) :
    cursor ≤ nextCursor cursor rows := by
  induction rows generalizing cursor with
  | nil => exact le_refl _
  | cons r rs ih => exact le_trans (le_max_left _ _) (ih _)

/-- In an ascending list, what lies at or below the largest number of a prefix is in the prefix. -/
theorem sorted_take_complete {rows : List TimelineEvent} {n : ℕ} {cursor : ℤ}
    (hs : rows.Pairwise (fun a b => a.seq < b.seq)) {e : TimelineEvent} (he : e ∈ rows)
    (hc : cursor < e.seq) (hle : (e.seq : ℤ) ≤ nextCursor cursor (rows.take n)) :
    e ∈ rows.take n := by
  by_contra hout
  have hdrop : e ∈ rows.drop n := by
    rw [← List.take_append_drop n rows, List.mem_append] at he
    exact he.resolve_left hout
  have hlt : ∀ r ∈ rows.take n, r.seq < e.seq := by
    intro r hr
    rw [← List.take_append_drop n rows, List.pairwise_append] at hs
    exact hs.2.2 r hr e hdrop
  have hbound := next_cursor_le cursor (e.seq-1) (rows.take n) (by omega)
    (fun r hr => by have := hlt r hr; omega)
  omega

/-! ## The run -/

structure SessionInv (base : QueryOptions) (start : ℤ) (s : Session) : Prop where
  store : Inv s.store
  cursor_le : s.cursor ≤ max start s.store.lastSeq
  delivered : ∀ e ∈ live s.store, admits base e = true → start < e.seq → (e.seq : ℤ) ≤ s.cursor →
    e ∈ s.delivered

theorem append_session_inv (base : QueryOptions) (start : ℤ) {s : Session}
    (h : SessionInv base start s) (event : TimelineEvent) :
    SessionInv base start { s with store := appendLocked s.store event } where
  store := append_locked_inv h.store event
  cursor_le := by
    have hmono := append_locked_last_seq h.store event
    have := h.cursor_le
    simp only [le_max_iff] at *
    omega
  delivered := by
    intro e he hadm hstart hle
    rcases live_append_locked_old h.store he with hold | hnew
    · exact h.delivered e hold hadm hstart hle
    · have := h.cursor_le
      simp only [le_max_iff] at this
      exfalso
      simp only at hle
      omega

theorem append_batch_session_inv (base : QueryOptions) (start : ℤ) {s : Session}
    (h : SessionInv base start s) (events : List TimelineEvent) :
    SessionInv base start { s with store := appendBatch s.store events } := by
  induction events generalizing s with
  | nil => exact h
  | cons e es ih => exact ih (append_session_inv base start h e)

theorem page_complete (base : QueryOptions) {s : Session} (h : Inv s.store) {e : TimelineEvent}
    (he : e ∈ live s.store) (hadm : admits base e = true) (hc : s.cursor < e.seq)
    (hle : (e.seq : ℤ) ≤ nextCursor s.cursor (page base s)) : e ∈ page base s := by
  rw [page_eq base h] at hle ⊢
  exact sorted_take_complete ((live_sorted h).filter _)
    (List.mem_filter.mpr ⟨he, by simp [hadm, hc]⟩) hc hle

theorem poll_session_inv (base : QueryOptions) (start : ℤ) {s : Session}
    (h : SessionInv base start s) : SessionInv base start (step base s .poll) where
  store := h.store
  cursor_le := by
    apply next_cursor_le
    · exact h.cursor_le
    · intro e he
      have := live_seq_le h.store (mem_page base h.store he).1
      exact le_trans (by exact_mod_cast this) (le_max_right _ _)
  delivered := by
    intro e he hadm hstart hle
    simp only [step, List.mem_append] at *
    rcases lt_or_ge s.cursor (e.seq : ℤ) with hc | hc
    · exact Or.inr (page_complete base h.store he hadm hc hle)
    · exact Or.inl (h.delivered e he hadm hstart hc)

theorem step_session_inv (base : QueryOptions) (start : ℤ) {s : Session}
    (h : SessionInv base start s) (a : Act) : SessionInv base start (step base s a) := by
  cases a with
  | append event => exact append_session_inv base start h event
  | appendBatch events => exact append_batch_session_inv base start h events
  | poll => exact poll_session_inv base start h

theorem session_inv (base : QueryOptions) (maxSize start : ℤ) (acts : List Act) :
    SessionInv base start (session base maxSize start acts) := by
  have hstart : SessionInv base start ⟨newMemoryStore maxSize, start, []⟩ := by
    refine ⟨inv_new maxSize, le_max_left _ _, ?_⟩
    intro e _ _ hlt hle
    exact absurd hlt (not_lt.mpr hle)
  suffices hrun : ∀ s, SessionInv base start s → SessionInv base start (acts.foldl (step base) s) from
    hrun _ hstart
  induction acts with
  | nil => exact fun s hs => hs
  | cons a as ih => exact fun s hs => ih _ (step_session_inv base start hs a)

/-- Whatever writers and polls have happened before, the next page is ascending
and past the cursor, holds every live admitted row up to the new cursor, and
when short every live admitted row past the old one. No live row at or below
the cursor was ever skipped. -/
theorem delta_cursor_complete (base : QueryOptions) (maxSize start : ℤ) (acts : List Act) :
    let s := session base maxSize start acts
    (page base s).Pairwise (fun a b => a.seq < b.seq) ∧
    (∀ e ∈ page base s, e ∈ live s.store ∧ admits base e = true ∧ s.cursor < e.seq) ∧
    (∀ e ∈ live s.store, admits base e = true → s.cursor < e.seq →
      (e.seq : ℤ) ≤ nextCursor s.cursor (page base s) → e ∈ page base s) ∧
    ((page base s).length < effectiveLimit base →
      ∀ e ∈ live s.store, admits base e = true → s.cursor < e.seq → e ∈ page base s) ∧
    (∀ e ∈ live s.store, admits base e = true → start < e.seq → (e.seq : ℤ) ≤ s.cursor →
      e ∈ s.delivered) := by
  intro s
  have h := session_inv base maxSize start acts
  refine ⟨?_, fun e he => mem_page base h.store he, fun e he hadm hc hle =>
    page_complete base h.store he hadm hc hle, ?_, h.delivered⟩
  · rw [page_eq base h.store]
    exact ((live_sorted h.store).filter _).sublist (List.take_sublist _ _)
  · intro hshort e he hadm hc
    rw [page_eq base h.store] at hshort ⊢
    rw [List.length_take] at hshort
    rw [List.take_of_length_le (by omega)]
    exact List.mem_filter.mpr ⟨he, by simpa [hadm] using hc⟩

end Radar.DeltaCursor
