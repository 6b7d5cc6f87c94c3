import Mathlib.Order.Defs.LinearOrder
import Radar.Issues.Dedupe

/-!
# What each de-duplication pass keeps

One membership lemma for each pass. A row that comes out of a pass is kin to
the row that went in: only its severity may have been raised and its timing
set.
-/

set_option autoImplicit false

namespace Radar.Issues

variable {X : Type}

/-- `v` is `r`, changed at most in severity, which is not lower, and in timing. -/
structure Kin (v r : Issue X) : Prop where
  same : v = { r with
    severity := v.severity, issueTiming := v.issueTiming, issueTimingBasis := v.issueTimingBasis }
  raised : r.severity.rank ≤ v.severity.rank

namespace Kin

variable {u v r : Issue X}

theorem refl (r : Issue X) : Kin r r := ⟨rfl,Nat.le_refl _⟩

theorem trans (h : Kin u v) (h' : Kin v r) : Kin u r := by
  refine ⟨?_,Nat.le_trans h'.raised h.raised⟩
  have hu := h.same
  rw [h'.same] at hu
  exact hu

theorem source (h : Kin v r) : v.source = r.source := by rw [h.same]
theorem category (h : Kin v r) : v.category = r.category := by rw [h.same]
theorem kind (h : Kin v r) : v.kind = r.kind := by rw [h.same]
theorem group (h : Kin v r) : v.group = r.group := by rw [h.same]
theorem reason (h : Kin v r) : v.reason = r.reason := by rw [h.same]
theorem owner (h : Kin v r) : v.owner = r.owner := by rw [h.same]
theorem resource (h : Kin v r) : v.resource = r.resource := by
  rw [h.same]
  rfl
theorem subjectRef (h : Kin v r) : v.subjectRef = r.subjectRef := by
  rw [h.same]
  rfl
theorem restartLoop (h : Kin v r) : v.restartLoop = r.restartLoop := by rw [h.same]

end Kin

section MaxRank

theorem Severity.rank_pos (s : Severity) : 0 < s.rank := by
  cases s <;> decide

theorem severityForRank_rank (s : Severity) : severityForRank s.rank = s := by
  cases s <;> rfl

/-- The largest rank reaches `n` when some row does. -/
theorem le_maxRank {n : ℕ} (hn : 0 < n) (rows : List (Issue X)) :
    n ≤ maxRank rows ↔ ∃ i ∈ rows, n ≤ i.severity.rank := by
  have hgen : ∀ m, n ≤ rows.foldl
      (fun m i => if i.severity.rank > m then i.severity.rank else m) m ↔
      n ≤ m ∨ ∃ i ∈ rows, n ≤ i.severity.rank := by
    induction rows with
    | nil => simp
    | cons i rows ih =>
      intro m
      rw [List.foldl_cons, ih]
      simp only [List.mem_cons, exists_eq_or_imp, ← or_assoc]
      apply or_congr_left
      split
      · omega
      · omega
  rw [maxRank, hgen 0]
  exact ⟨fun h => h.resolve_left (by omega),.inr⟩

theorem maxRank_attained {rows : List (Issue X)} (h : 0 < maxRank rows) :
    ∃ i ∈ rows, i.severity.rank = maxRank rows := by
  obtain ⟨i,hi,hle⟩ := (le_maxRank h rows).mp (Nat.le_refl _)
  have hge := (le_maxRank i.severity.rank_pos rows).mpr ⟨i,hi,Nat.le_refl _⟩
  exact ⟨i,hi,Nat.le_antisymm hge hle⟩

theorem atLeastAsSevere_iff {children : List (Issue X)} {i : Issue X} :
    atLeastAsSevere children i = true ↔
      ∃ c ∈ children, i.severity.rank ≤ c.severity.rank := by
  have hmax := le_maxRank i.severity.rank_pos children
  simp only [atLeastAsSevere, Bool.and_eq_true, Bool.not_eq_true', List.isEmpty_eq_false_iff,
    decide_eq_true_eq, ge_iff_le, hmax]
  refine ⟨And.right,fun h => ⟨?_,h⟩⟩
  obtain ⟨c,hc,-⟩ := h
  exact List.ne_nil_of_mem hc

end MaxRank

section Structural

variable {isRoot isSymptom : Issue X → Bool} {rows : List (Issue X)} {i v : Issue X}

/-- A symptom row of a resource that has a root row. -/
def Rooted (isRoot isSymptom : Issue X → Bool) (rows : List (Issue X)) (i : Issue X) : Prop :=
  isSymptom i = true ∧ ∃ q ∈ rows, isRoot q = true ∧ q.resource = i.resource

theorem mem_structuralRoot : v ∈ structuralRootOverSymptom isRoot isSymptom rows ↔
    ∃ i ∈ rows, ¬Rooted isRoot isSymptom rows i ∧ donateSeverity isRoot isSymptom rows i = v := by
  have hrooted : ∀ i, (!(isSymptom i && rootExists isRoot rows i.resource)) = true ↔
      ¬Rooted isRoot isSymptom rows i := by
    intro i
    rw [Bool.not_eq_true', ← Bool.not_eq_true, Bool.and_eq_true]
    simp [Rooted, rootExists]
  simp only [structuralRootOverSymptom, List.mem_map, List.mem_filter, hrooted, and_assoc]

theorem donateSeverity_kin : Kin (donateSeverity isRoot isSymptom rows i) i := by
  unfold donateSeverity
  generalize maxRank (foldedInto isRoot isSymptom rows i.resource) = r
  by_cases h : (isRoot i && decide (r > i.severity.rank)) = true
  · rw [if_pos h]
    refine ⟨rfl,?_⟩
    have hr : r > i.severity.rank := by simpa using (Bool.and_eq_true_iff.mp h).2
    show i.severity.rank ≤ (severityForRank r).rank
    revert hr
    unfold severityForRank
    cases i.severity <;> split <;> simp only [Severity.rank] <;> omega
  · rw [if_neg h]
    exact .refl i

theorem mem_foldedInto {resource : Ref} {x : Issue X} :
    x ∈ foldedInto isRoot isSymptom rows resource ↔
      x ∈ rows ∧ Rooted isRoot isSymptom rows x ∧ x.resource = resource := by
  simp [foldedInto, Rooted, rootExists, and_assoc]

/-- A root is at least as severe as the symptoms folded into it. -/
theorem donateSeverity_over {x : Issue X} (hi : i ∈ rows) (hroot : isRoot i = true) (hx : x ∈ rows)
    (hsymptom : isSymptom x = true) (hsame : i.resource = x.resource) :
    x.severity.rank ≤ (donateSeverity isRoot isSymptom rows i).severity.rank := by
  have hfolded : x ∈ foldedInto isRoot isSymptom rows i.resource :=
    mem_foldedInto.mpr ⟨hx,⟨hsymptom,i,hi,hroot,hsame⟩,hsame.symm⟩
  have hle := (le_maxRank x.severity.rank_pos _).mpr ⟨x,hfolded,Nat.le_refl _⟩
  unfold donateSeverity
  by_cases h : maxRank (foldedInto isRoot isSymptom rows i.resource) > i.severity.rank
  · obtain ⟨y,-,hy⟩ := maxRank_attained (Nat.lt_of_lt_of_le x.severity.rank_pos hle)
    rw [if_pos (by simp [hroot, h])]
    show x.severity.rank ≤ (severityForRank _).rank
    rwa [← hy, severityForRank_rank, hy]
  · rw [if_neg (by simp [h])]
    exact Nat.le_trans hle (Nat.not_lt.mp h)

/-- A raised row is a root, and as severe as a symptom folded into it. -/
theorem donateSeverity_raised
    (h : (donateSeverity isRoot isSymptom rows i).severity ≠ i.severity) :
    isRoot i = true ∧ ∃ x ∈ rows, isSymptom x = true ∧ x.resource = i.resource ∧
      x.severity = (donateSeverity isRoot isSymptom rows i).severity := by
  revert h
  unfold donateSeverity
  by_cases h : (isRoot i &&
      decide (maxRank (foldedInto isRoot isSymptom rows i.resource) > i.severity.rank)) = true
  · rw [if_pos h]
    rw [Bool.and_eq_true, decide_eq_true_eq] at h
    obtain ⟨y,hy,hrank⟩ := maxRank_attained (Nat.zero_lt_of_lt h.2)
    rw [mem_foldedInto] at hy
    intro _
    refine ⟨h.1,y,hy.1,hy.2.1.1,hy.2.2,?_⟩
    show y.severity = severityForRank _
    rw [← hrank, severityForRank_rank]
  · rw [if_neg h]
    exact fun hne => absurd rfl hne

end Structural

section Rollups

variable {rows out : List (Issue X)} {i v : Issue X}

theorem mem_cronPass : v ∈ dedupeRepeatedCronJobFailureOverChild rows ↔
    v ∈ rows ∧ ¬(isRepeatedCronFailure v = true ∧
      atLeastAsSevere (childrenOf rows v.subjectRef) v = true) := by
  rw [dedupeRepeatedCronJobFailureOverChild, List.mem_filter, Bool.not_eq_true',
    ← Bool.not_eq_true, Bool.and_eq_true]

theorem donateTiming_cases : donateTiming rows out i = i ∨ ∃ timing,
    donateTiming rows out i =
      { i with issueTiming := timing, issueTimingBasis := "owner_condition" } := by
  unfold donateTiming
  generalize suppressedIssueTiming rows i.subjectRef = timing
  dsimp only
  repeat' split
  · exact .inl rfl
  · exact .inl rfl
  · exact .inl rfl
  · exact .inr ⟨timing,rfl⟩

theorem donateTiming_severity : (donateTiming rows out i).severity = i.severity := by
  obtain h | ⟨timing,h⟩ := @donateTiming_cases X rows out i
  · rw [h]
  · rw [h]

theorem donateTiming_kin : Kin (donateTiming rows out i) i := by
  refine ⟨?_,donateTiming_severity ▸ Nat.le_refl _⟩
  obtain h | ⟨timing,h⟩ := @donateTiming_cases X rows out i
  · rw [h]
  · rw [h]

theorem mem_rollupPass : v ∈ dedupeWorkloadDegradedOverChild rows ↔
    ∃ i ∈ rows, isSuppressedParent rows i = false ∧
      donateTiming rows (rows.filter fun i => !isSuppressedParent rows i) i = v := by
  simp [dedupeWorkloadDegradedOverChild, and_assoc]

theorem mem_childrenOf {subject : Ref} {c : Issue X} : c ∈ childrenOf rows subject ↔
    c ∈ rows ∧ childCategories c.category = true ∧ c.subjectRef = subject := by
  simp [childrenOf]

end Rollups

end Radar.Issues
