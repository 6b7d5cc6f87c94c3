import Mathlib.Data.String.Basic
import Mathlib.Data.List.Lex
import Radar.Issues.Grouping

/-!
# What grouping takes from the order of the rows

Most fields of a grouped row are folded by symmetric rules. Two are not: the
reads are listed in the order the members come in, and of several members that
no other one is better than, the first is the representative.
-/

set_option autoImplicit false

namespace Radar.Issues

variable {X : Type}

section Keys

theorem lessAt_iff {cs rs : List String} (h : cs.length = rs.length) :
    lessAt cs rs = true ↔ cs < rs := by
  induction cs generalizing rs with
  | nil =>
    cases rs with
    | nil => simp [lessAt]
    | cons r rs => simp at h
  | cons c cs ih =>
    cases rs with
    | nil => simp at h
    | cons r rs =>
      have hrest : lessAt cs rs = true ↔ cs < rs := ih (by simpa using h)
      rw [lessAt, List.cons_lt_cons_iff]
      by_cases hne : c ≠ r
      · rw [if_pos hne, decide_eq_true_iff]
        exact ⟨.inl,fun hlt => hlt.resolve_right fun heq => hne heq.1⟩
      · rw [if_neg hne, hrest]
        have heq : c = r := not_not.mp hne
        exact ⟨fun hlt => .inr ⟨heq,hlt⟩,fun hlt => (hlt.resolve_left (heq ▸ lt_irrefl c)).2⟩

/-- Worst severity, then newest observation, then the smallest identity. -/
def repKey (i : Issue X) : ℕ ×ₗ ℤ ×ₗ (List String)ᵒᵈ :=
  toLex (i.severity.rank, toLex (i.lastSeen, OrderDual.toDual (identityFields i)))

theorem betterRepresentative_ranks :
    Ranking.Ranks (fun a b : Issue X => betterRepresentative b a) repKey := by
  intro cur cand
  unfold betterRepresentative repKey
  apply Ranking.then_less ne_comm Iff.rfl
  apply Ranking.then_less ne_comm Iff.rfl
  exact lessAt_iff rfl

/-- Severity, source and anchor descending, then namespace, name and ID. -/
def sortKey (i : Issue X) : ℕᵒᵈ ×ₗ ℕᵒᵈ ×ₗ Timeᵒᵈ ×ₗ String ×ₗ String ×ₗ String :=
  toLex (OrderDual.toDual i.severity.rank, toLex (OrderDual.toDual i.source.rank,
    toLex (OrderDual.toDual (issueSortAnchor i), toLex (i.ns, toLex (i.name, i.id)))))

theorem lessIssue_ranks : Ranking.Ranks (lessIssue (X := X)) sortKey := by
  intro a b
  unfold lessIssue sortKey
  have hsev : a.severity ≠ b.severity ↔
      OrderDual.toDual a.severity.rank ≠ OrderDual.toDual b.severity.rank :=
    not_congr Severity.rank_inj.symm
  have hsource : a.source.rank ≠ b.source.rank ↔
      OrderDual.toDual a.source.rank ≠ OrderDual.toDual b.source.rank := Iff.rfl
  have hanchor : issueSortAnchor a ≠ issueSortAnchor b ↔
      OrderDual.toDual (issueSortAnchor a) ≠ OrderDual.toDual (issueSortAnchor b) := Iff.rfl
  apply Ranking.then_less hsev OrderDual.toDual_lt_toDual.symm
  apply Ranking.then_less hsource OrderDual.toDual_lt_toDual.symm
  apply Ranking.then_less hanchor OrderDual.toDual_lt_toDual.symm
  apply Ranking.then_less Iff.rfl Iff.rfl
  apply Ranking.then_less Iff.rfl Iff.rfl
  exact decide_eq_true_iff

theorem sortKey_id {a b : Issue X} (h : sortKey a = sortKey b) : a.id = b.id := by
  simp only [sortKey, EmbeddingLike.apply_eq_iff_eq, Prod.mk.injEq] at h
  exact h.2.2.2.2.2

def refKey (r : Ref) : String ×ₗ String ×ₗ String ×ₗ String :=
  toLex (r.ns, toLex (r.name, toLex (r.kind, r.group)))

theorem lessRef_ranks : Ranking.Ranks lessRef refKey := by
  intro a b
  unfold lessRef refKey
  apply Ranking.then_less Iff.rfl Iff.rfl
  apply Ranking.then_less Iff.rfl Iff.rfl
  apply Ranking.then_less Iff.rfl Iff.rfl
  exact decide_eq_true_iff

theorem refKey_inj {a b : Ref} (h : refKey a = refKey b) : a = b := by
  simp only [refKey, EmbeddingLike.apply_eq_iff_eq, Prod.mk.injEq] at h
  cases a
  cases b
  simp_all

end Keys

section Folds

variable {members members' : List (Issue X)}

theorem earlier_comm (t a b : Time) : earlier (earlier t a) b = earlier (earlier t b) a := by
  unfold earlier
  grind

theorem Onset.add_comm (o : Onset) (a b : Issue X) : (o.add a).add b = (o.add b).add a := by
  simp only [Onset.add, earlier_comm, Onset.mk.injEq, and_true]
  exact ⟨Nat.add_right_comm _ _ _,Nat.add_right_comm _ _ _⟩

theorem foldIssueOnset_perm (h : members.Perm members') :
    foldIssueOnset members = foldIssueOnset members' :=
  h.foldl_eq' (fun a _ b _ o => Onset.add_comm o a b) _

theorem latest_perm (t : Time) (h : members.Perm members') : latest t members = latest t members' := by
  apply h.foldl_eq'
  intro a _ b _ t
  grind

theorem memberRefs_sorted (subject : Ref) (h : members.Perm members') :
    sortRefs (memberRefs subject members) = sortRefs (memberRefs subject members') :=
  Ranking.sorted_eq lessRef_ranks ((h.map _).filter _) fun _ _ _ _ => refKey_inj

variable [DecidableEq X]

theorem agreeWith_picked {picked d : Diagnosis X} (hp : hasDiagnosis picked = true)
    (ms : List (Issue X)) :
    agreeWith picked ms = some d ↔ picked = d ∧ ∀ m ∈ ms, m.diagnosis = d := by
  induction ms with
  | nil => simp [agreeWith]
  | cons m ms ih =>
    rw [agreeWith]
    by_cases hm : m.diagnosis = picked
    · simp only [hp, hm, Bool.true_eq_false, ne_eq, not_true_eq_false, if_false, ih,
        List.forall_mem_cons]
      exact ⟨fun h => ⟨h.1,h.1,h.2⟩,fun h => ⟨h.1,h.2.2⟩⟩
    · have hnone : ¬(picked = d ∧ ∀ m' ∈ m::ms, m'.diagnosis = d) := fun h =>
        hm ((h.2 m List.mem_cons_self).trans h.1.symm)
      rw [iff_false_intro hnone]
      simp [hp, hm]

/-- Agreed is what every member says. -/
theorem agreedDiagnosis_iff {d : Diagnosis X} : agreedDiagnosis members = some d ↔
    members ≠ [] ∧ hasDiagnosis d = true ∧ ∀ m ∈ members, m.diagnosis = d := by
  have hzero : hasDiagnosis ({} : Diagnosis X) = false := by simp [hasDiagnosis]
  cases members with
  | nil => simp [agreedDiagnosis]
  | cons m ms =>
    rw [agreedDiagnosis, if_neg (List.cons_ne_nil m ms), agreeWith]
    cases hm : hasDiagnosis m.diagnosis with
    | false =>
      rw [if_pos rfl]
      refine ⟨(by simp),fun h => ?_⟩
      rw [h.2.2 m List.mem_cons_self, h.2.1] at hm
      cases hm
    | true =>
      rw [if_neg (by simp), if_pos hzero, agreeWith_picked hm, List.forall_mem_cons]
      exact ⟨fun h => ⟨List.cons_ne_nil m ms,h.1 ▸ hm,h.1,h.2⟩,fun h => h.2.2⟩

theorem agreedDiagnosis_perm (h : members.Perm members') :
    agreedDiagnosis members = agreedDiagnosis members' := by
  apply Option.ext
  intro d
  rw [agreedDiagnosis_iff, agreedDiagnosis_iff, Ne, Ne, ← List.isEmpty_iff, ← List.isEmpty_iff,
    h.isEmpty_eq]
  simp only [h.mem_iff]

end Folds

section Timing

variable {members members' : List (Issue X)}

/-- What all rows of a list say, or nothing. -/
def agreed (f : Issue X → String) : List (Issue X) → String
  | [] => ""
  | m::ms => if ∀ m' ∈ ms, f m' = f m then f m else ""

theorem agreed_iff {f : Issue X → String} {v : String} (hv : v ≠ "") :
    agreed f members = v ↔ members ≠ [] ∧ ∀ m ∈ members, f m = v := by
  cases members with
  | nil => simp [agreed, hv.symm]
  | cons m ms =>
    rw [agreed, List.forall_mem_cons]
    by_cases hall : ∀ m' ∈ ms, f m' = f m
    · rw [if_pos hall]
      exact ⟨fun h => ⟨List.cons_ne_nil m ms,h,fun m' hm' => (hall m' hm').trans h⟩,
        fun h => h.2.1⟩
    · rw [if_neg hall]
      refine ⟨fun h => absurd h.symm hv,fun h => ?_⟩
      exact absurd (fun m' hm' => (h.2.2 m' hm').trans h.2.1.symm) hall

theorem agreed_perm (f : Issue X → String) (h : members.Perm members') :
    agreed f members = agreed f members' := by
  have hsame : ∀ v ≠ "", agreed f members = v ↔ agreed f members' = v := by
    intro v hv
    rw [agreed_iff hv, agreed_iff hv, Ne, Ne, ← List.isEmpty_iff, ← List.isEmpty_iff,
      h.isEmpty_eq]
    simp only [h.mem_iff]
  by_cases hnone : agreed f members = ""
  · by_cases hnone' : agreed f members' = ""
    · rw [hnone, hnone']
    · exact (hsame _ hnone').mpr rfl
  · exact ((hsame _ hnone).mp rfl).symm

def known (members : List (Issue X)) : List (Issue X) :=
  members.filter fun m => m.issueTiming ≠ ""

theorem timingScan_known (timing basis : String) (members : List (Issue X)) :
    timingScan timing basis members = timingScan timing basis (known members) := by
  induction members generalizing timing basis with
  | nil => rfl
  | cons m ms ih =>
    by_cases hm : m.issueTiming = ""
    · rw [timingScan, if_pos hm, known, List.filter_cons_of_neg (by simpa using hm)]
      exact ih timing basis
    · rw [known, List.filter_cons_of_pos (by simpa using hm), timingScan, if_neg hm, timingScan,
        if_neg hm]
      by_cases ht : timing = ""
      · rw [if_pos ht, if_pos ht]
        exact ih m.issueTiming m.issueTimingBasis
      · rw [if_neg ht, if_neg ht, ih]
        rfl

/-- From a timing that is set, the scan asks whether the rest says the same. -/
theorem timingScan_from {timing : String} (ht : timing ≠ "") (basis : String)
    (hknown : ∀ m ∈ members, m.issueTiming ≠ "") :
    timingScan timing basis members =
      if ∀ m ∈ members, m.issueTiming = timing then
        (timing, if ∀ m ∈ members, m.issueTimingBasis = basis then basis else "")
      else ("", "") := by
  induction members generalizing basis with
  | nil => simp [timingScan]
  | cons m ms ih =>
    have hrest := fun b => ih b fun m' hm' => hknown m' (List.mem_cons_of_mem m hm')
    rw [timingScan, if_neg (hknown m List.mem_cons_self), if_neg ht]
    simp only [List.forall_mem_cons]
    by_cases hm : timing = m.issueTiming
    · rw [if_neg (not_not.mpr hm), hrest]
      by_cases hb : basis = m.issueTimingBasis
      · simp [← hm, ← hb]
      · simp [← hm, hb, Ne.symm hb]
    · simp [hm, Ne.symm hm]

theorem timingScan_agreed (members : List (Issue X)) : timingScan "" "" members =
    if agreed Issue.issueTiming (known members) = "" then ("", "")
    else (agreed Issue.issueTiming (known members),
      agreed Issue.issueTimingBasis (known members)) := by
  have hset : ∀ m ∈ known members, m.issueTiming ≠ "" := fun m hm => by
    simpa using (List.mem_filter.mp hm).2
  rw [timingScan_known]
  cases hk : known members with
  | nil => rfl
  | cons m ms =>
    rw [hk, List.forall_mem_cons] at hset
    rw [timingScan, if_neg hset.1, if_pos rfl, timingScan_from hset.1 _ hset.2, agreed]
    by_cases hall : ∀ m' ∈ ms, m'.issueTiming = m.issueTiming
    · rw [if_pos hall, if_pos hall, if_neg hset.1]
      rfl
    · rw [if_neg hall, if_neg hall, if_pos rfl]

theorem groupTiming_perm (coverage : Option OnsetCoverage) (h : members.Perm members') :
    groupTiming coverage members = groupTiming coverage members' := by
  have hk : (known members).Perm (known members') := h.filter _
  have hscan : timingScan "" "" members = timingScan "" "" members' := by
    rw [timingScan_agreed, timingScan_agreed, agreed_perm _ hk, agreed_perm _ hk]
  unfold groupTiming
  rw [hscan]

end Timing

end Radar.Issues
