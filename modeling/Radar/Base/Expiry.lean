import Mathlib.Data.List.AList
import Mathlib.Data.Nat.Notation
import Mathlib.Order.Lattice

/-!
# Tables whose entries expire

An entry is found until its time has come. A sweep drops the entries that can
no longer be found, and a write replaces the entry of its key only, so between
two tables nothing else is lost.
-/

set_option autoImplicit false

namespace Radar.Expiry

abbrev Table (K E : Type*) := AList fun _ : K => E

variable {K E T : Type*}

def size (m : Table K E) : ℕ := m.entries.length

variable [DecidableEq K] [LinearOrder T] (expires : E → T)

def live (m : Table K E) (now : T) (k : K) : Option E :=
  (m.lookup k).filter fun e => now < expires e

def sweep (m : Table K E) (now : T) : Table K E where
  entries := m.entries.filter fun p => now < expires p.2
  nodupKeys := m.nodupKeys.sublist List.filter_sublist

variable {expires}

theorem mem_live {m : Table K E} {now : T} {k : K} {e : E} :
    e ∈ live expires m now k ↔ e ∈ m.lookup k ∧ now < expires e := by
  rw [live, Option.mem_filter_iff, decide_eq_true_iff]

theorem mem_sweep {m : Table K E} {now : T} {k : K} {e : E} :
    e ∈ (sweep expires m now).lookup k ↔ e ∈ m.lookup k ∧ now < expires e := by
  rw [AList.mem_lookup_iff, AList.mem_lookup_iff, sweep, List.mem_filter, decide_eq_true_iff]

variable (expires) in
/-- From `m` to `m'` an entry is lost only if it had expired or its key was written. -/
def Kept (now : T) (written : Option K) (m m' : Table K E) : Prop :=
  ∀ k e, e ∈ m.lookup k → e ∈ m'.lookup k ∨ expires e ≤ now ∨ written = some k

theorem Kept.refl (now : T) (written : Option K) (m : Table K E) : Kept expires now written m m :=
  fun _ _ h => .inl h

theorem Kept.trans {now : T} {written : Option K} {m m' m'' : Table K E}
    (h : Kept expires now written m m') (h' : Kept expires now written m' m'') :
    Kept expires now written m m'' :=
  fun k e he => (h k e he).elim (h' k e) .inr

theorem sweep_kept (m : Table K E) {t now : T} (h : t ≤ now) (written : Option K) :
    Kept expires now written m (sweep expires m t) := by
  intro k e he
  by_cases ht : t < expires e
  · exact .inl (mem_sweep.mpr ⟨he,ht⟩)
  · exact .inr (.inl ((not_lt.mp ht).trans h))

theorem mem_insert {m : Table K E} {k k' : K} {e e' : E} (h : e' ∈ (m.insert k e).lookup k') :
    (k' = k ∧ e' = e) ∨ e' ∈ m.lookup k' := by
  by_cases hk : k' = k
  · subst hk
    rw [AList.lookup_insert, Option.mem_def, Option.some.injEq] at h
    exact .inl ⟨rfl,h.symm⟩
  · rw [AList.lookup_insert_ne hk] at h
    exact .inr h

theorem insert_kept (m : Table K E) (now : T) (k : K) (e : E) :
    Kept expires now (some k) m (m.insert k e) := by
  intro k' e' he
  by_cases hk : k' = k
  · exact .inr (.inr (congrArg some hk.symm))
  · exact .inl ((AList.lookup_insert_ne hk).symm ▸ he)

end Radar.Expiry
