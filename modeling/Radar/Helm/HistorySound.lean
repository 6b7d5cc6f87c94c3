import Radar.Helm.History

/-!
# Every revision is told once

The walk tells each failed revision and each completed rollback by one
operation. Its operations keep the order of the revisions, so the sort by
descending revision has one result whatever order the revisions came in.
-/

set_option autoImplicit false

namespace Radar.HelmHistory

section Walk

variable {lib : Lib} {releaseName : String}

/-- The revision whose failure an operation tells. -/
def failureOf (op : Operation) : Option ℤ :=
  if op.status = .failed then some op.revision
  else if op.kind = .upgradeRolledBack then some op.failedRevision
  else none

/-- The revision whose rollback an operation tells. -/
def rollbackOf (op : Operation) : Option ℤ :=
  if op.kind = .rollback then some op.revision
  else if op.kind = .upgradeRolledBack then some op.rollbackRevision
  else none

theorem completedTarget_failed {rev : Revision} (h : isFailed lib rev = true) :
    completedTarget lib rev = none := by
  have hstatus : normalizeStatus lib rev.status = "failed" := of_decide_eq_true h
  rw [completedTarget, isCompletedRevisionStatus, hstatus, if_neg (by decide)]

theorem followedBy_some {rev next : Revision} {target : ℤ}
    (h : followedBy lib rev next = some target) :
    isFailed lib rev = true ∧ next.revision = rev.revision+1 ∧
      completedTarget lib next = some target := by
  unfold followedBy at h
  split at h
  · next hpair => exact ⟨hpair.1,hpair.2,h⟩
  · cases h

theorem failureOf_failed (rev : Revision) (source : Source) :
    failureOf (failedOperation lib releaseName rev source) = some rev.revision := rfl

theorem failureOf_rollback (rev : Revision) (target : ℤ) :
    failureOf (rollbackOperation rev target) = none := rfl

theorem failureOf_rolledBack (rev next : Revision) (target : ℤ) :
    failureOf (rolledBackOperation rev next target) = some rev.revision := rfl

theorem failed_kind (rev : Revision) (source : Source) :
    (failedOperation lib releaseName rev source).kind = .upgradeFailed ∨
      (failedOperation lib releaseName rev source).kind = .releaseFailed := by
  unfold failedOperation
  split
  · exact .inl rfl
  · exact .inr rfl

theorem rollbackOf_failed (rev : Revision) (source : Source) :
    rollbackOf (failedOperation lib releaseName rev source) = none := by
  unfold rollbackOf
  rcases failed_kind rev source with h | h <;> rw [h] <;> rfl

theorem rollbackOf_rollback (rev : Revision) (target : ℤ) :
    rollbackOf (rollbackOperation rev target) = some rev.revision := rfl

theorem rollbackOf_rolledBack (rev next : Revision) (target : ℤ) :
    rollbackOf (rolledBackOperation rev next target) = some next.revision := rfl

theorem operationOf_failures (rev : Revision) :
    (operationOf lib releaseName rev).toList.filterMap failureOf =
      ([rev].filter (isFailed lib)).map Revision.revision := by
  unfold operationOf
  by_cases h : isFailed lib rev = true
  · simp [h, failureOf_failed]
  · cases ht : completedTarget lib rev <;> simp [h, failureOf_rollback]

theorem operationOf_rollbacks (rev : Revision) :
    (operationOf lib releaseName rev).toList.filterMap rollbackOf =
      ([rev].filter fun rev => (completedTarget lib rev).isSome).map Revision.revision := by
  unfold operationOf
  by_cases h : isFailed lib rev = true
  · simp [h, rollbackOf_failed, completedTarget_failed h]
  · cases ht : completedTarget lib rev <;> simp [h, ht, rollbackOf_rollback]

theorem not_failed_of_target {rev : Revision} {target : ℤ}
    (h : completedTarget lib rev = some target) : isFailed lib rev = false := by
  by_contra hfailed
  rw [completedTarget_failed (Bool.not_eq_false _ ▸ hfailed)] at h
  cases h

/-- Every failed revision is told once. -/
theorem history_failures (l : List Revision) :
    (historyOperations lib releaseName l).filterMap failureOf =
      (l.filter (isFailed lib)).map Revision.revision := by
  induction l using historyOperations.induct lib with
  | case1 => rfl
  | case2 rev => exact operationOf_failures rev
  | case3 rev next rest target hpair ih =>
    obtain ⟨hfailed,-,htarget⟩ := followedBy_some hpair
    rw [historyOperations, hpair]
    simp only [List.filterMap_cons, failureOf_rolledBack, ih]
    rw [List.filter_cons_of_pos hfailed,
      List.filter_cons_of_neg (by simp [not_failed_of_target htarget]), List.map_cons]
  | case4 rev next rest hpair ih =>
    rw [historyOperations, hpair]
    simp only
    rw [List.filterMap_append, ih, operationOf_failures, ← List.map_append, ← List.filter_append]
    rfl

/-- And so is every completed rollback. -/
theorem history_rollbacks (l : List Revision) :
    (historyOperations lib releaseName l).filterMap rollbackOf =
      (l.filter fun rev => (completedTarget lib rev).isSome).map Revision.revision := by
  induction l using historyOperations.induct lib with
  | case1 => rfl
  | case2 rev => exact operationOf_rollbacks rev
  | case3 rev next rest target hpair ih =>
    obtain ⟨hfailed,-,htarget⟩ := followedBy_some hpair
    rw [historyOperations, hpair]
    simp only [List.filterMap_cons, rollbackOf_rolledBack, ih]
    rw [List.filter_cons_of_neg (by simp [completedTarget_failed hfailed]),
      List.filter_cons_of_pos (by simp [htarget]), List.map_cons]
  | case4 rev next rest hpair ih =>
    rw [historyOperations, hpair]
    simp only
    rw [List.filterMap_append, ih, operationOf_rollbacks, ← List.map_append, ← List.filter_append]
    rfl

/-- Where an operation of the walk comes from. -/
inductive Told (lib : Lib) (releaseName : String) (l : List Revision) : Operation → Prop where
  | failed (rev : Revision) (hrev : rev ∈ l) :
    Told lib releaseName l (failedOperation lib releaseName rev .helmHistory)
  | rollback (rev : Revision) (target : ℤ) (hrev : rev ∈ l) :
    Told lib releaseName l (rollbackOperation rev target)
  | rolledBack (rev next : Revision) (target : ℤ) (hrev : rev ∈ l) (hnext : next ∈ l)
      (hpair : followedBy lib rev next = some target) :
    Told lib releaseName l (rolledBackOperation rev next target)

theorem Told.mono {l m : List Revision} {op : Operation} (h : Told lib releaseName l op)
    (hlm : l ⊆ m) : Told lib releaseName m op := by
  cases h with
  | failed rev hrev => exact .failed rev (hlm hrev)
  | rollback rev target hrev => exact .rollback rev target (hlm hrev)
  | rolledBack rev next target hrev hnext hpair =>
    exact .rolledBack rev next target (hlm hrev) (hlm hnext) hpair

theorem operationOf_told {l : List Revision} {rev : Revision} (hrev : rev ∈ l) {op : Operation}
    (h : op ∈ (operationOf lib releaseName rev).toList) : Told lib releaseName l op := by
  rw [Option.mem_toList, operationOf] at h
  split at h
  · cases h
    exact .failed rev hrev
  · obtain ⟨target,-,rfl⟩ := Option.map_eq_some_iff.mp h
    exact .rollback rev target hrev

theorem history_told {l : List Revision} {op : Operation}
    (h : op ∈ historyOperations lib releaseName l) : Told lib releaseName l op := by
  induction l using historyOperations.induct lib with
  | case1 => nomatch h
  | case2 rev => exact operationOf_told List.mem_cons_self h
  | case3 rev next rest target hpair ih =>
    rw [historyOperations, hpair] at h
    obtain rfl | h := List.mem_cons.mp h
    · exact .rolledBack rev next target (by simp) (by simp) hpair
    · apply (ih h).mono
      intro x hx
      simp [hx]
  | case4 rev next rest hpair ih =>
    rw [historyOperations, hpair] at h
    obtain h | h := List.mem_append.mp h
    · exact operationOf_told List.mem_cons_self h
    · exact (ih h).mono (List.subset_cons_self rev _)

/-- The operations come in the order of the revisions they are about. -/
theorem history_revisions {l : List Revision} (hpos : ∀ rev ∈ l, 0 < rev.revision) :
    ((historyOperations lib releaseName l).map operationRevision).Sublist
      (l.map Revision.revision) := by
  have halone : ∀ rev : Revision, 0 < rev.revision →
      ((operationOf lib releaseName rev).toList.map operationRevision).Sublist [rev.revision] := by
    intro rev hrev
    unfold operationOf
    split
    · simp [operationRevision, failedOperation, hrev]
    · cases completedTarget lib rev with
      | none => simp
      | some target => simp [operationRevision, rollbackOperation, hrev]
  induction l using historyOperations.induct lib with
  | case1 => exact List.Sublist.slnil
  | case2 rev => exact halone rev (hpos rev List.mem_cons_self)
  | case3 rev next rest target hpair ih =>
    have hnext := hpos next (by simp)
    rw [historyOperations, hpair]
    simp only [List.map_cons]
    have hrevision : operationRevision (rolledBackOperation rev next target) = next.revision := by
      simp [operationRevision, rolledBackOperation, hnext]
    rw [hrevision]
    apply List.Sublist.cons
    exact (ih fun r hr => hpos r (by simp [hr])).cons_cons _
  | case4 rev next rest hpair ih =>
    rw [historyOperations, hpair]
    simp only
    rw [List.map_append, List.map_cons]
    exact (halone rev (hpos rev List.mem_cons_self)).append
      (ih fun r hr => hpos r (List.mem_cons_of_mem rev hr))

end Walk

section Count

variable {lib : Lib} {releaseName : String}

def failedOn (r : ℤ) (op : Operation) : Bool := op.status = .failed ∧ op.revision = r

def rolledBackFrom (r : ℤ) (op : Operation) : Bool :=
  op.kind = .upgradeRolledBack ∧ op.failedRevision = r

def rolledBackBy (r : ℤ) (op : Operation) : Bool :=
  (op.kind = .rollback ∧ op.revision = r) ∨ (op.kind = .upgradeRolledBack ∧ op.rollbackRevision = r)

/-- A failed operation tells no rolled back upgrade. -/
def Plain (ops : List Operation) : Prop :=
  ∀ op ∈ ops, op.kind = .upgradeRolledBack → op.status ≠ .failed

theorem told_plain {l : List Revision} {op : Operation} (h : Told lib releaseName l op)
    (hkind : op.kind = .upgradeRolledBack) : op.status ≠ .failed := by
  cases h with
  | failed rev hrev =>
    rcases failed_kind rev .helmHistory with h | h <;> cases h.symm.trans hkind
  | rollback rev target hrev => cases hkind
  | rolledBack rev next target hrev hnext hpair => nofun

theorem told_rollback {l : List Revision} {op : Operation} (h : Told lib releaseName l op)
    (hkind : op.kind = .rollback) : op.status ≠ .failed := by
  cases h with
  | failed rev hrev =>
    rcases failed_kind rev .helmHistory with h | h <;> cases h.symm.trans hkind
  | rollback rev target hrev => nofun
  | rolledBack rev next target hrev hnext hpair => nofun

theorem count_failures {ops : List Operation} (h : Plain ops) (r : ℤ) :
    ops.countP (failedOn r)+ops.countP (rolledBackFrom r) = (ops.filterMap failureOf).count r := by
  induction ops with
  | nil => rfl
  | cons op ops ih =>
    have ih := ih fun o ho => h o (List.mem_cons_of_mem op ho)
    have hop := h op List.mem_cons_self
    rw [List.countP_cons, List.countP_cons, List.filterMap_cons]
    by_cases hfailed : op.status = .failed
    · have hkind : op.kind ≠ .upgradeRolledBack := fun hk => hop hk hfailed
      by_cases hr : op.revision = r
      · simp [failureOf, failedOn, rolledBackFrom, hfailed, hkind, hr]
        omega
      · simp [failureOf, failedOn, rolledBackFrom, hfailed, hkind, hr]
        omega
    · by_cases hkind : op.kind = .upgradeRolledBack
      · by_cases hr : op.failedRevision = r
        · simp [failureOf, failedOn, rolledBackFrom, hfailed, hkind, hr]
          omega
        · simp [failureOf, failedOn, rolledBackFrom, hfailed, hkind, hr]
          omega
      · simp [failureOf, failedOn, rolledBackFrom, hfailed, hkind]
        omega

theorem count_rollbacks (ops : List Operation) (r : ℤ) :
    ops.countP (rolledBackBy r) = (ops.filterMap rollbackOf).count r := by
  induction ops with
  | nil => rfl
  | cons op ops ih =>
    rw [List.countP_cons, List.filterMap_cons, ih]
    by_cases hback : op.kind = .rollback
    · by_cases hr : op.revision = r <;> simp [rollbackOf, rolledBackBy, hback, hr]
    · by_cases hkind : op.kind = .upgradeRolledBack
      · by_cases hr : op.rollbackRevision = r <;> simp [rollbackOf, rolledBackBy, hkind, hr]
      · simp [rollbackOf, rolledBackBy, hback, hkind]

theorem count_one {l : List Revision} (hnodup : (l.map Revision.revision).Nodup)
    {p : Revision → Bool} {rev : Revision} (hrev : rev ∈ l) (hp : p rev = true) :
    ((l.filter p).map Revision.revision).count rev.revision = 1 := by
  apply List.count_eq_one_of_mem
  · exact hnodup.sublist ((List.filter_sublist).map _)
  · exact List.mem_map_of_mem (List.mem_filter.mpr ⟨hrev,hp⟩)

end Count

section Live

variable {lib : Lib} {releaseName : String} {live : Operation} {found : List Operation}

/-- The last operation is the live failure of the revision, whose own operation was taken out. -/
def removedLive (found : List Operation) (last : Option Operation) (r : ℤ) : Bool :=
  (last.any fun op => op.source = .helmStatus && failedOn r op) && found.any (failedOn r)

theorem liveOperation_source {current : Revision} {now : Time} {after : ℤ}
    (h : liveOperation lib releaseName current now after = some live) :
    live.source = .helmStatus := by
  unfold liveOperation at h
  by_cases hfailed : normalizeStatus lib current.status = "failed"
  · simp only [if_pos hfailed] at h
    rw [← Option.some.inj h]
    rfl
  · simp only [if_neg hfailed] at h
    obtain ⟨-,h⟩ := Option.ite_none_right_eq_some.mp h
    rw [← Option.some.inj h]
    rfl

theorem keptOf_sublist (found : List Operation) (live : Option Operation) :
    (keptOf found live).Sublist found := by
  unfold keptOf
  split
  · exact List.filter_sublist
  · exact List.Sublist.refl _

/-- Only the failed operation of the live failure's revision is taken out. -/
theorem count_kept {live : Option Operation} {p : Operation → Bool}
    (hp : ∀ l, live.filter (·.status = .failed) = some l → ∀ op ∈ found, p op = true →
      ¬(op.status = .failed ∧ op.revision = l.revision)) :
    (keptOf found live).countP p = found.countP p := by
  unfold keptOf
  split
  · next l hl =>
    rw [withoutDuplicateLiveFailure, List.countP_filter]
    apply List.countP_congr
    intro op hop
    constructor
    · intro hboth
      exact (Bool.and_eq_true_iff.mp hboth).1
    · intro hpo
      rw [hpo, decide_eq_false (hp l hl op hop hpo)]
      rfl
  · rfl

/-- A failure is told by an operation, or by the live one in its place. -/
theorem failures_kept (h : Plain found) (hsource : ∀ op ∈ found, op.source = .helmHistory)
    {live rest : Option Operation} (hlive : ∀ op, live = some op → op.source = .helmStatus)
    (hrest : ∀ op, rest = some op → op ∈ found) {r : ℤ}
    (hone : found.countP (failedOn r)+found.countP (rolledBackFrom r) = 1) :
    (keptOf found live).countP (failedOn r)+(keptOf found live).countP (rolledBackFrom r)+
      (removedLive found (live.or rest) r).toNat = 1 := by
  have hback : (keptOf found live).countP (rolledBackFrom r) = found.countP (rolledBackFrom r) := by
    apply count_kept
    intro l _ op hop hfrom hout
    exact h op hop (of_decide_eq_true hfrom).1 hout.1
  rw [hback]
  cases hlf : live.filter (·.status = .failed) with
  | none =>
    have hkept : keptOf found live = found := by rw [keptOf, hlf]
    have hremoved : removedLive found (live.or rest) r = false := by
      cases live with
      | none =>
        cases rest with
        | none => rfl
        | some op => simp [removedLive, hsource op (hrest op rfl)]
      | some op =>
        have hstatus : op.status ≠ .failed := by simpa using Option.filter_eq_none_iff.mp hlf
        simp [removedLive, failedOn, hstatus]
    rw [hkept, hremoved]
    exact hone
  | some op =>
    obtain ⟨rfl,hfailed⟩ := Option.filter_eq_some_iff.mp hlf
    have hfailed : op.status = .failed := of_decide_eq_true hfailed
    by_cases hr : op.revision = r
    · have hgone : (keptOf found (some op)).countP (failedOn r) = 0 := by
        rw [List.countP_eq_zero]
        intro o ho hf
        rw [keptOf, hlf] at ho
        have hout := (List.mem_filter.mp ho).2
        rw [hr, decide_eq_true (of_decide_eq_true hf)] at hout
        nomatch hout
      have hremoved : removedLive found ((some op).or rest) r = found.any (failedOn r) := by
        simp [removedLive, failedOn, hlive op rfl, hfailed, hr]
      rw [hgone, hremoved]
      by_cases hany : found.any (failedOn r) = true
      · have hpos : 0 < found.countP (failedOn r) := by
          rw [List.countP_pos_iff]
          exact List.any_eq_true.mp hany
        rw [hany, Bool.toNat_true]
        omega
      · have hzero : found.countP (failedOn r) = 0 := by
          rw [List.countP_eq_zero]
          intro o ho hf
          exact hany (List.any_eq_true.mpr ⟨o,ho,hf⟩)
        rw [Bool.eq_false_iff.mpr hany, Bool.toNat_false]
        omega
    · have hsame : (keptOf found (some op)).countP (failedOn r) = found.countP (failedOn r) := by
        apply count_kept
        intro l hl o _ ho hout
        rw [hlf] at hl
        obtain rfl := Option.some.inj hl
        exact hr (hout.2.symm.trans (of_decide_eq_true ho).2)
      have hremoved : removedLive found ((some op).or rest) r = false := by
        simp [removedLive, failedOn, hr]
      rw [hsame, hremoved]
      exact hone

end Live

section Analysis

variable {lib : Lib} {sorts : Sorts} {releaseName : String}

/-- Every failure and every rollback is told once, and the operations are in descending order. -/
structure Accounts (lib : Lib) (found : List Operation) (revisions : List Revision) (a : Analysis) :
    Prop where
  failures : ∀ rev ∈ revisions, isFailed lib rev = true →
    a.operations.countP (failedOn rev.revision)+a.operations.countP (rolledBackFrom rev.revision)+
      (removedLive found a.lastOperation rev.revision).toNat = 1
  rollbacks : ∀ rev ∈ revisions, (completedTarget lib rev).isSome →
    a.operations.countP (rolledBackBy rev.revision) = 1
  pairs : ∀ op ∈ a.operations, op.kind = .upgradeRolledBack → ∃ rev ∈ revisions, ∃ next ∈ revisions,
    isFailed lib rev = true ∧ (completedTarget lib next).isSome ∧
      next.revision = rev.revision+1 ∧ op.failedRevision = rev.revision ∧
        op.rollbackRevision = next.revision
  descending : a.operations.Pairwise fun a b => operationRevision b < operationRevision a

theorem currentLive_source {ordered : List Revision} {clock : Time} {currentRevision : ℤ}
    {opts : Options} {op : Operation}
    (h : currentLive lib releaseName ordered clock currentRevision opts = some op) :
    op.source = .helmStatus := by
  obtain ⟨rev,-,hrev⟩ := Option.bind_eq_some_iff.mp h
  exact liveOperation_source hrev

theorem ordered_unique {sorts sorts' : Sorts} {revisions revisions' : List Revision}
    (hnodup : (revisions.map Revision.revision).Nodup) (hperm : revisions.Perm revisions') :
    sorts.revisions.run revisions = sorts'.revisions.run revisions' := by
  apply SortFunc.run_eq _ _ hperm
  intro a ha b hb hcmp
  exact List.inj_on_of_nodup_map hnodup ha hb (Std.LawfulEqCmp.eq_of_compare hcmp)

theorem kept_revisions {l : List Revision} (hpos : ∀ rev ∈ l, 0 < rev.revision)
    (hnodup : (l.map Revision.revision).Nodup) (live : Option Operation) :
    ((keptOf (historyOperations lib releaseName l) live).map operationRevision).Nodup :=
  hnodup.sublist (((keptOf_sublist _ live).map _).trans (history_revisions hpos))

theorem kept_unique {sorts' : Sorts} {l : List Revision} (hpos : ∀ rev ∈ l, 0 < rev.revision)
    (hnodup : (l.map Revision.revision).Nodup) (live : Option Operation) :
    sorts.operations.run (keptOf (historyOperations lib releaseName l) live) =
      sorts'.operations.run (keptOf (historyOperations lib releaseName l) live) := by
  apply SortFunc.run_eq _ _ (List.Perm.refl _)
  intro a ha b hb hcmp
  have hcompare : compare (operationRevision b) (operationRevision a) = .eq := hcmp
  exact List.inj_on_of_nodup_map (kept_revisions hpos hnodup live) ha hb
    (Std.LawfulEqCmp.eq_of_compare hcompare).symm

theorem pairs_told {l : List Revision} {op : Operation} (h : Told lib releaseName l op)
    (hkind : op.kind = .upgradeRolledBack) : ∃ rev ∈ l, ∃ next ∈ l,
      isFailed lib rev = true ∧ (completedTarget lib next).isSome ∧
        next.revision = rev.revision+1 ∧ op.failedRevision = rev.revision ∧
          op.rollbackRevision = next.revision := by
  cases h with
  | failed rev hrev =>
    rcases failed_kind rev .helmHistory with h | h <;> cases h.symm.trans hkind
  | rollback rev target hrev => cases hkind
  | rolledBack rev next target hrev hnext hpair =>
    obtain ⟨hfailed,hnumber,htarget⟩ := followedBy_some hpair
    exact ⟨rev,hrev,next,hnext,hfailed,by rw [htarget]; rfl,hnumber,rfl,rfl⟩

theorem empty_accounts (found : List Operation) : Accounts lib found [] {} where
  failures := fun _ hrev => nomatch hrev
  rollbacks := fun _ hrev => nomatch hrev
  pairs := fun _ hop => nomatch hop
  descending := List.Pairwise.nil

/-- What the analysis of a history that is not cut says. -/
theorem run_accounts {clock : Time} {currentRevision : ℤ} {revisions : List Revision}
    {opts : Options} (hpos : ∀ rev ∈ revisions, 0 < rev.revision)
    (hnodup : (revisions.map Revision.revision).Nodup) (hmax : opts.maxOperations = 0) :
    Accounts lib (historyOperations lib releaseName (sorts.revisions.run revisions)) revisions
      (analyze lib sorts releaseName clock currentRevision revisions opts) := by
  by_cases hne : revisions = []
  · subst hne
    exact empty_accounts _
  rw [analyze, if_neg hne]
  simp only [cut, hmax, gt_iff_lt, Int.lt_irrefl, if_false]
  have hl := sorts.revisions.perm revisions
  generalize sorts.revisions.run revisions = l at hl
  have hposl : ∀ rev ∈ l, 0 < rev.revision := fun rev hrev => hpos rev (hl.mem_iff.mp hrev)
  have hnodupl : (l.map Revision.revision).Nodup := (hl.map _).nodup_iff.mpr hnodup
  have hlive : ∀ op, currentLive lib releaseName l clock currentRevision opts = some op →
      op.source = .helmStatus := fun op => currentLive_source
  generalize currentLive lib releaseName l clock currentRevision opts = live at hlive
  have htold : ∀ op ∈ historyOperations lib releaseName l, Told lib releaseName l op :=
    fun op => history_told
  have hrevs : ((keptOf (historyOperations lib releaseName l) live).map operationRevision).Nodup :=
    kept_revisions hposl hnodupl live
  have hfailures : (historyOperations lib releaseName l).filterMap failureOf = _ := history_failures l
  have hrollbacks : (historyOperations lib releaseName l).filterMap rollbackOf = _ :=
    history_rollbacks l
  generalize historyOperations lib releaseName l = found at htold hrevs hfailures hrollbacks
  have hplain : Plain found := fun op hop => told_plain (htold op hop)
  have hsource : ∀ op ∈ found, op.source = .helmHistory := by
    intro op hop
    cases htold op hop <;> rfl
  have hsort := sorts.operations.perm (keptOf found live)
  have hsub : ∀ op ∈ sorts.operations.run (keptOf found live), op ∈ found :=
    fun op hop => (keptOf_sublist found live).subset (hsort.mem_iff.mp hop)
  constructor
  · intro rev hrev hfailed
    rw [hsort.countP_eq, hsort.countP_eq]
    apply failures_kept hplain hsource hlive
    · intro op hop
      exact hsub op (List.mem_of_find?_eq_some hop)
    · rw [count_failures hplain, hfailures]
      exact count_one hnodupl (hl.mem_iff.mpr hrev) hfailed
  · intro rev hrev htarget
    rw [hsort.countP_eq, count_kept, count_rollbacks, hrollbacks]
    · exact count_one hnodupl (hl.mem_iff.mpr hrev) htarget
    · intro live' _ op hop hby hout
      obtain ⟨hkind,-⟩ | ⟨hkind,-⟩ := of_decide_eq_true hby
      · exact absurd hout.1 (told_rollback (htold op hop) hkind)
      · exact hplain op hop hkind hout.1
  · intro op hop hkind
    obtain ⟨rev,hrev,next,hnext,h⟩ := pairs_told (htold op (hsub op hop)) hkind
    exact ⟨rev,hl.mem_iff.mp hrev,next,hl.mem_iff.mp hnext,h⟩
  · have hnodups := (hsort.map operationRevision).nodup_iff.mpr hrevs
    rw [List.Nodup, List.pairwise_map] at hnodups
    apply ((sorts.operations.sorted _).and hnodups).imp
    rintro a b ⟨hle,hne⟩
    have hcompare : compare (operationRevision b) (operationRevision a) ≠ .gt := hle
    rw [ne_eq, Int.compare_eq_gt] at hcompare
    omega

/-- Each revision is told once, in whatever order the revisions come. -/
theorem analyze_accounts (lib : Lib) (sorts : Sorts) (releaseName : String) (clock : Time)
    (currentRevision : ℤ) (revisions : List Revision) (opts : Options)
    (hpos : ∀ rev ∈ revisions, 0 < rev.revision)
    (hnodup : (revisions.map Revision.revision).Nodup) (hmax : opts.maxOperations = 0) :
    (∀ (sorts' : Sorts) (revisions' : List Revision), revisions'.Perm revisions →
      analyze lib sorts' releaseName clock currentRevision revisions' opts =
        analyze lib sorts releaseName clock currentRevision revisions opts) ∧
    Accounts lib (historyOperations lib releaseName (sorts.revisions.run revisions)) revisions
      (analyze lib sorts releaseName clock currentRevision revisions opts) := by
  have hperm := sorts.revisions.perm revisions
  have hpos' : ∀ rev ∈ sorts.revisions.run revisions, 0 < rev.revision :=
    fun rev hrev => hpos rev (hperm.mem_iff.mp hrev)
  have hnodup' : ((sorts.revisions.run revisions).map Revision.revision).Nodup :=
    (hperm.map _).nodup_iff.mpr hnodup
  constructor
  · intro sorts' revisions' hp
    have hordered : sorts'.revisions.run revisions' = sorts.revisions.run revisions :=
      (ordered_unique hnodup hp.symm).symm
    by_cases hne : revisions = []
    · subst hne
      rw [List.perm_nil.mp hp]
      rfl
    · have hne' : revisions' ≠ [] := fun h => hne (List.nil_perm.mp (h ▸ hp))
      rw [analyze, if_neg hne', analyze, if_neg hne, hordered]
      simp only
      rw [kept_unique hpos' hnodup']
  · exact run_accounts hpos hnodup hmax


end Analysis

section Examples

def plainLib : Lib where
  toLower := fun s => String.ofList (s.toList.map Char.toLower)
  quote := fun s => s
  formatAgeShort := fun _ => ""

def stableSorts : Sorts where
  revisions := SortFunc.stable _
  operations := SortFunc.stable _

/-- A failed upgrade that was rolled back, and a failed one after it. -/
def twoFailures : List Revision := [
  { revision := 4, status := "failed", description := "Upgrade failed: timed out" },
  { revision := 2, status := "failed", description := "Upgrade failed: no such image" },
  { revision := 1, status := "superseded", description := "Install complete" },
  { revision := 3, status := "superseded", description := "Rollback to 1" }]

theorem analyze_accounts_twice :
    (∀ (sorts' : Sorts) (revisions' : List Revision), revisions'.Perm twoFailures →
      analyze plainLib sorts' "web" 0 4 revisions' {} =
        analyze plainLib stableSorts "web" 0 4 twoFailures {}) ∧
    Accounts plainLib (historyOperations plainLib "web" (stableSorts.revisions.run twoFailures))
      twoFailures (analyze plainLib stableSorts "web" 0 4 twoFailures {}) :=
  analyze_accounts plainLib stableSorts "web" 0 4 twoFailures {} (by decide) (by decide) rfl

end Examples

end Radar.HelmHistory
