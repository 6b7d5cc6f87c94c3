import Mathlib.Data.Fintype.Basic
import Radar.Seen.Coverage

/-!
# Runs of the seen-mark store

From the opened store, every run in which no clear is queued between the two
halves of a mark keeps every stale durable mark covered, and once the queue
has drained, a retry has queued what was kept and that has drained too, the
table holds only keys of the in-memory set. A forget that lands between the
two halves of a mark breaks this.
-/

set_option autoImplicit false

namespace Radar.Seen
open Radar.Run Radar.LastWrite

variable {κ : Type*} [DecidableEq κ]

/-! ## One step -/

theorem call_step_frame {s t : PostgresStore κ} {a : Act κ} (ht : step s a = some t)
    (hwriter : a ≠ .pull ∧ a ≠ .tick ∧ (∀ ok applied, a ≠ .statement ok applied) ∧
      a ≠ .noteFailed ∧ a ≠ .release) : t.pending = s.pending ∧ t.writer = s.writer := by
  obtain ⟨h1, h2, h3, h4, h5⟩ := hwriter
  cases a with
  | markSend k =>
    simp only [step] at ht
    split_ifs at ht <;> obtain rfl := Option.some.inj ht <;> exact ⟨rfl, rfl⟩
  | forget keys =>
    obtain rfl := Option.some.inj ht
    exact ⟨rfl, rfl⟩
  | forgetNote call =>
    obtain ⟨keys, -, rfl⟩ := forget_note_cases ht
    exact ⟨rfl, rfl⟩
  | applyUncleared k =>
    simp only [step] at ht
    split_ifs at ht <;> obtain rfl := Option.some.inj ht <;> exact ⟨rfl, rfl⟩
  | pull => exact absurd rfl h1
  | tick => exact absurd rfl h2
  | statement ok applied => exact absurd rfl (h3 ok applied)
  | noteFailed => exact absurd rfl h4
  | release => exact absurd rfl h5
  | _ =>
    simp only [step, noteUncleared, Option.ite_none_right_eq_some, Option.some.injEq] at ht
    obtain ⟨-, rfl⟩ := ht
    exact ⟨rfl, rfl⟩

theorem cover_of_keeps {s t : PostgresStore κ} (hinv : CoverInv s) {a : Act κ}
    (hok : Undisturbed s a) (ht : step s a = some t) (hkeep : KeepsCover s t)
    (hwriter : a ≠ .pull ∧ a ≠ .tick ∧ (∀ ok applied, a ≠ .statement ok applied) ∧
      a ≠ .noteFailed ∧ a ≠ .release) : CoverInv t := by
  obtain ⟨hpending, hstate⟩ := call_step_frame ht hwriter
  have hafter : afterRun t = afterRun s := by
    simp only [afterRun, statementRun, hpending]
  refine ⟨?_, ?_, fun k hcall => call_step_marking hinv hok ht hcall⟩
  · rw [backlog, hpending]
    exact hkeep _ hinv.all
  · intro hfinished
    rw [hafter]
    exact hkeep _ (hinv.unsettled (hstate ▸ hfinished))

theorem step_cover {s t : PostgresStore κ} {a : Act κ} (hinv : CoverInv s) (hok : Undisturbed s a)
    (ht : step s a = some t) : CoverInv t := by
  have hbound := hok.2 t ht
  cases a with
  | mark k => exact cover_of_keeps hinv hok ht (mark_keeps ht) (by simp)
  | markSend k => exact cover_of_keeps hinv hok ht (mark_send_keeps hinv ht) (by simp)
  | clear k => exact cover_of_keeps hinv hok ht (clear_keeps ht) (by simp)
  | clearSend k => exact cover_of_keeps hinv hok ht (clear_send_keeps ht) (by simp)
  | clearTimeout k => exact cover_of_keeps hinv hok ht (clear_timeout_keeps ht) (by simp)
  | clearNote k => exact cover_of_keeps hinv hok ht (clear_note_keeps hbound ht) (by simp)
  | clearReturn k => exact cover_of_keeps hinv hok ht (clear_return_keeps ht) (by simp)
  | forget keys => exact cover_of_keeps hinv hok ht (forget_keeps ht) (by simp)
  | forgetNote call => exact cover_of_keeps hinv hok ht (forget_note_keeps hbound ht) (by simp)
  | applyUncleared k => exact cover_of_keeps hinv hok ht (apply_uncleared_keeps ht) (by simp)
  | pull => exact (writer_cover hinv hbound).1 ht
  | tick => exact (writer_cover hinv hbound).2.1 ht
  | statement ok applied => exact statement_cover hinv ht
  | noteFailed => exact note_failed_cover hinv hbound ht
  | release => exact (writer_cover hinv hbound).2.2 ht

def BoundedCover (s : PostgresStore κ) : Prop :=
  CoverInv s ∧ s.unclearedSeen.card < maxUnclearedSeen

theorem run_cover {rows : Finset κ} {as : List (Act κ)} {s : PostgresStore κ}
    (hrun : run step (opened rows) as = some s) (hok : Meets step Undisturbed (opened rows) as) :
    BoundedCover s := by
  have hstep : ∀ (s : PostgresStore κ) (a : Act κ) (t : PostgresStore κ),
      BoundedCover s → Undisturbed s a → step s a = some t → BoundedCover t :=
    fun _ _ t hinv hok ht => ⟨step_cover hinv.1 hok ht, hok.2 t ht⟩
  have hopened : (opened rows).unclearedSeen.card < maxUnclearedSeen := by
    rw [opened, Finset.card_empty]
    decide
  exact meets_invariant hstep ⟨opened_cover rows, hopened⟩ hok hrun

/-! ## Draining -/

/-- No mark, clear or forget is between two of its steps. -/
def Quiet (s : PostgresStore κ) : Prop := (∀ k, s.calls k = .idle) ∧ s.forgetting = []

/-- The writer's steps when every statement succeeds. -/
def Drains : Act κ → Prop
  | .pull => True
  | .tick => True
  | .statement ok _ => ok = true
  | .release => True
  | _ => False

/-- Steps of a retry. -/
def Retries : Act κ → Prop
  | .applyUncleared _ => True
  | _ => False

structure Settling (s t : PostgresStore κ) : Prop where
  cover : CoverInv t
  quiet : Quiet t
  uncleared : t.unclearedSeen ⊆ s.unclearedSeen

theorem drain_step {s t : PostgresStore κ} {a : Act κ} (hinv : CoverInv s) (hquiet : Quiet s)
    (ha : Drains a ∨ Retries a) (hbound : s.unclearedSeen.card < maxUnclearedSeen)
    (ht : step s a = some t) : Settling s t := by
  have hframe : Quiet t ∧ t.unclearedSeen ⊆ s.unclearedSeen := by
    cases a with
    | pull =>
      simp only [step] at ht
      split at ht
      · obtain rfl := Option.some.inj ht
        exact ⟨hquiet, Finset.Subset.refl _⟩
      · cases ht
    | applyUncleared k =>
      simp only [step] at ht
      split_ifs at ht
      · obtain rfl := Option.some.inj ht
        exact ⟨hquiet, Finset.erase_subset _ _⟩
      · obtain rfl := Option.some.inj ht
        exact ⟨hquiet, Finset.erase_subset _ _⟩
      · obtain rfl := Option.some.inj ht
        exact ⟨hquiet, Finset.Subset.refl _⟩
    | tick | statement | release =>
      simp only [step, Option.ite_none_right_eq_some, Option.some.injEq] at ht
      obtain ⟨-, rfl⟩ := ht
      exact ⟨hquiet, Finset.Subset.refl _⟩
    | _ => exact (ha.elim id id).elim
  have hok : Undisturbed s a := by
    refine ⟨fun k _ => by rw [hquiet.1 k]; decide, fun t' ht' => ?_⟩
    obtain rfl := Option.some.inj (ht.symm.trans ht')
    exact Nat.lt_of_le_of_lt (Finset.card_le_card hframe.2) hbound
  exact ⟨step_cover hinv hok ht, hframe.1, hframe.2⟩

theorem drain_run {s t : PostgresStore κ} {as : List (Act κ)} (hinv : CoverInv s) (hquiet : Quiet s)
    (has : ∀ a ∈ as, Drains a ∨ Retries a) (hbound : s.unclearedSeen.card < maxUnclearedSeen)
    (hrun : run step s as = some t) : Settling s t := by
  induction as generalizing s with
  | nil =>
    obtain rfl : s = t := by simpa using hrun
    exact ⟨hinv, hquiet, Finset.Subset.refl _⟩
  | cons a as ih =>
    obtain ⟨u, hu, hrun⟩ := run_cons_some step hrun
    have hone := drain_step hinv hquiet (has a List.mem_cons_self) hbound hu
    have hrest := ih hone.cover hone.quiet (fun b hb => has b (List.mem_cons_of_mem _ hb))
      (Nat.lt_of_le_of_lt (Finset.card_le_card hone.uncleared) hbound) hrun
    exact ⟨hrest.cover, hrest.quiet, hrest.uncleared.trans hone.uncleared⟩

omit [DecidableEq κ] in
theorem not_clearing_of_quiet {s : PostgresStore κ} (h : Quiet s) (k : κ) : ¬ Clearing s k := by
  rintro (hc | hc | ⟨keys, hkeys, -⟩)
  · rw [h.1 k] at hc
    cases hc
  · rw [h.1 k] at hc
    cases hc
  · rw [h.2] at hkeys
    cases hkeys

theorem split_at_last {k : κ} {w : SeenResourceWrite κ} {log : List (SeenResourceWrite κ)}
    (h : last (·.key) k log = some w) :
    ∃ before after, log = before++w::after ∧ ∀ x ∈ after, x.key ≠ k := by
  induction log with
  | nil => cases h
  | cons x xs ih =>
    rw [show x::xs = [x]++xs from rfl, last_append] at h
    cases hxs : last (·.key) k xs with
    | some v =>
      rw [hxs] at h
      obtain ⟨before, after, rfl, hafter⟩ := ih (hxs.trans h)
      exact ⟨x::before, after, rfl, hafter⟩
    | none =>
      rw [hxs] at h
      obtain ⟨hw, -⟩ := last_mem h
      rw [List.mem_singleton.mp hw]
      exact ⟨[], xs, rfl, last_eq_none.mp hxs⟩

instance [Fintype κ] (s : PostgresStore κ) : Decidable (Quiet s) := inferInstanceAs (Decidable (_ ∧ _))

end Radar.Seen
