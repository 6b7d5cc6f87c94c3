import Mathlib.Data.List.Basic
import Mathlib.Data.List.Range

/-!
# Numbered logs

An append-only log whose entries carry the numbers 1, 2, .. in order. A reader
that remembers the number of its last entry resumes where it stopped.
-/

set_option autoImplicit false

namespace Radar.Numbered

variable {α : Type*} (seq : α → ℕ)

/-- The entries are numbered from `k+1` on. -/
def From : ℕ → List α → Prop
  | _, [] => True
  | k, e::rest => seq e = k+1 ∧ From (k+1) rest

instance decidableFrom : ∀ (k : ℕ) (log : List α), Decidable (From seq k log)
  | _, [] => inferInstanceAs (Decidable True)
  | k, e::rest =>
    have : Decidable (From seq (k+1) rest) := decidableFrom (k+1) rest
    inferInstanceAs (Decidable (seq e = k+1 ∧ From seq (k+1) rest))

variable {seq}

theorem from_append {k : ℕ} {log more : List α} :
    From seq k (log++more) ↔ From seq k log ∧ From seq (k+log.length) more := by
  induction log generalizing k with
  | nil => simp [From]
  | cons e rest ih =>
    rw [List.cons_append, From, From, ih, List.length_cons, and_assoc]
    have hk : k+1+rest.length = k+(rest.length+1) := by omega
    rw [hk]

theorem from_seq {k : ℕ} {log : List α} (h : From seq k log) {i : ℕ} (hi : i < log.length) :
    seq log[i] = k+i+1 := by
  induction log generalizing k i with
  | nil => nomatch hi
  | cons e rest ih =>
    cases i with
    | zero => exact h.1
    | succ i =>
      rw [List.getElem_cons_succ, ih h.2 (by simpa using hi)]
      omega

/-- Every number lies above where the log starts. -/
theorem lt_seq {k : ℕ} {log : List α} (h : From seq k log) {e : α} (he : e ∈ log) :
    k < seq e := by
  obtain ⟨i,hi,rfl⟩ := List.getElem_of_mem he
  rw [from_seq h hi]
  omega

theorem seq_le {k : ℕ} {log : List α} (h : From seq k log) {e : α} (he : e ∈ log) :
    seq e ≤ k+log.length := by
  obtain ⟨i,hi,rfl⟩ := List.getElem_of_mem he
  rw [from_seq h hi]
  omega

/-- What comes after a number is what the log holds beyond that many entries. -/
theorem filter_after {j : ℕ} {log : List α} (h : From seq 0 log) (hj : j ≤ log.length) :
    log.filter (fun e => decide (j < seq e)) = log.drop j := by
  have hsplit := from_append.mp ((List.take_append_drop j log).symm ▸ h)
  have htake : (log.take j).filter (fun e => decide (j < seq e)) = [] := by
    apply List.filter_eq_nil_iff.mpr
    intro e he hlt
    have hle := seq_le hsplit.1 he
    rw [List.length_take] at hle
    have := of_decide_eq_true hlt
    omega
  have hdrop : (log.drop j).filter (fun e => decide (j < seq e)) = log.drop j := by
    apply List.filter_eq_self.mpr
    intro e he
    have hlt := lt_seq hsplit.2 he
    rw [List.length_take] at hlt
    exact decide_eq_true (by omega)
  calc log.filter (fun e => decide (j < seq e))
      = (log.take j++log.drop j).filter (fun e => decide (j < seq e)) := by
        rw [List.take_append_drop]
    _ = log.drop j := by rw [List.filter_append, htake, hdrop, List.nil_append]

/-- The number of the last entry is the length. -/
theorem last_seq {log : List α} (h : From seq 0 log) :
    (log.getLast?.map seq).getD 0 = log.length := by
  induction log using List.reverseRecOn with
  | nil => rfl
  | append_singleton log e _ =>
    have hseq := (from_append.mp h).2.1
    simp [hseq]

/-- A reader that has a prefix of the log and asks for what follows its last number gets the
rest. -/
theorem resume {got log : List α} (h : From seq 0 log) (hgot : got <+: log) :
    got++log.filter (fun e => decide ((got.getLast?.map seq).getD 0 < seq e)) = log := by
  obtain ⟨rest,rfl⟩ := hgot
  rw [last_seq (from_append.mp h).1, filter_after h (by simp), List.drop_left]

end Radar.Numbered
