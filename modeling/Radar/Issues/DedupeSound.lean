import Radar.Issues.DedupePasses

/-!
# When de-duplication hides no incident

The rows are followed through the passes in both directions: what becomes of
a row that goes in, and where a row that comes out is from. A severity is
lost where one of the passes that look at no severity takes the row, or where
a rollup is folded under a child that such a pass takes afterwards.
-/

set_option autoImplicit false

namespace Radar.Issues

variable {X : Type}

/-- Flat rows: one owner for each resource, missing references classified by `Classify`. -/
structure FlatRows (rows : List (Issue X)) : Prop where
  owners : ∀ a ∈ rows, ∀ b ∈ rows, a.resource = b.resource → a.owner = b.owner
  classified : ∀ r ∈ rows, r.source = .missingRef → r.category = classifyMissingRef r.reason

/-- `r` was folded as a workload_degraded row of a subject with a restart-loop child. -/
def FoldedUnderLoop (rows : List (Issue X)) (r : Issue X) : Prop :=
  r ∈ beforeRollups rows ∧ r.category = .workloadDegraded ∧
    loopChild (beforeRollups rows) r.subjectRef = true

/-- What the passes leave of the rows. -/
structure HidesNothing (rows : List (Issue X)) : Prop where
  subjects : ∀ r ∈ rows, ∃ v ∈ dedupe rows, v.subjectRef = r.subjectRef
  severities : ∀ r ∈ rows, (∃ v ∈ dedupe rows, v.subjectRef = r.subjectRef ∧
    r.severity.rank ≤ v.severity.rank) ∨ FoldedUnderLoop rows r
  survivors : ∀ v ∈ dedupe rows, ∃ r ∈ rows, Kin v r

section Condition

variable (rows : List (Issue X)) (i : Issue X)

/-- A problem row of a Pod that has a scheduling row. -/
def Rescheduled : Prop :=
  i.source = .problem ∧ i.kind = "Pod" ∧
    ∃ q ∈ rows, q.source = .scheduling ∧ q.kind = "Pod" ∧ q.ns = i.ns ∧ q.name = i.name

/-- A condition that echoes, or a pending PVC with, a missing reference. -/
def Echoed : Prop :=
  (i.source = .condition ∧ isMissingRefEchoCondition i = true ∨
    i.source = .problem ∧ isPendingPVC i = true) ∧
    ∃ m ∈ rows, m.source = .missingRef ∧ m.resource = i.resource ∧ m.category = i.category

/-- A child symptom of the subject of `i` that the rollup passes get to see. -/
structure ChildRow (c : Issue X) : Prop where
  mem : c ∈ rows
  subject : c.subjectRef = i.subjectRef
  child : childCategories c.category = true
  kept : ¬Rescheduled rows c

/-- A workload_degraded row whose subject has a child in a restart loop. -/
def LoopFolds : Prop :=
  i.category = .workloadDegraded ∧
    ∃ c, ChildRow rows i c ∧ c.restartLoop.isSome ∧ ¬Rooted isMissingConfigRoot isConfigWaiting rows c

/-- A child row that explains `i` and is at least as severe. -/
def Explained : Prop :=
  ∃ c, ChildRow rows i c ∧ i.severity.rank ≤ c.severity.rank ∧
    (parentRollupCategories i.category = true → i.reason = "ReplicaFailure" →
      isCreationChild c = true)

/-- A rollup row that the rollup passes fold. -/
def Covered : Prop :=
  isRepeatedCronFailure i = true ∧ Explained rows i ∨
    parentRollupCategories i.category = true ∧ (LoopFolds rows i ∨ Explained rows i)

/-- Neither taken by a pass that looks at no severity nor folded as a rollup. -/
structure Safe : Prop where
  kept : ¬Rescheduled rows i
  alone : ¬Echoed rows i
  uncovered : ¬Covered rows i

end Condition

section Categories

theorem classifyMissingRef_plain (reason : String) :
    parentRollupCategories (classifyMissingRef reason) = false ∧
      classifyMissingRef reason ≠ .cronJobFailed ∧
      classifyMissingRef reason ≠ .hpaLimitedOrFailed ∧
      classifyMissingRef reason ≠ .workloadDegraded := by
  unfold classifyMissingRef
  repeat' split
  all_goals decide

theorem child_plain {c : Category} (h : childCategories c = true) :
    parentRollupCategories c = false ∧ c ≠ .cronJobFailed ∧ c ≠ .hpaLimitedOrFailed := by
  revert h
  cases c <;> decide

theorem creation_child {c : Issue X} (h : isCreationChild c = true) :
    c.source = .scheduling := by
  have hand := Bool.and_eq_true_iff.mp h
  exact of_decide_eq_true hand.1

end Categories

section Stages

variable {rows : List (Issue X)}

def afterScheduling (rows : List (Issue X)) : List (Issue X) := dedupePodSchedulingOverProblem rows

def afterConfigRefs (rows : List (Issue X)) : List (Issue X) :=
  dedupeContainerWaitingOverMissingRef (afterScheduling rows)

def afterTargets (rows : List (Issue X)) : List (Issue X) :=
  dedupeHPAOverMissingTarget (afterConfigRefs rows)

theorem mem_afterScheduling {i : Issue X} :
    i ∈ afterScheduling rows ↔ i ∈ rows ∧ ¬Rescheduled rows i := by
  have hdrop : (i.source = .problem && i.kind = "Pod" && schedPods rows i.ns i.name) = true ↔
      Rescheduled rows i := by
    simp [Rescheduled, schedPods, and_assoc]
  rw [afterScheduling, dedupePodSchedulingOverProblem, List.mem_filter, Bool.not_eq_true',
    ← Bool.not_eq_true, hdrop]

theorem mem_afterConfigRefs {v : Issue X} : v ∈ afterConfigRefs rows ↔
    ∃ i ∈ afterScheduling rows,
      ¬Rooted isMissingConfigRoot isConfigWaiting (afterScheduling rows) i ∧
      donateSeverity isMissingConfigRoot isConfigWaiting (afterScheduling rows) i = v :=
  mem_structuralRoot

theorem mem_afterTargets {v : Issue X} : v ∈ afterTargets rows ↔
    ∃ i ∈ afterConfigRefs rows,
      ¬Rooted isMissingTargetRoot isLimitedAutoscaler (afterConfigRefs rows) i ∧
      donateSeverity isMissingTargetRoot isLimitedAutoscaler (afterConfigRefs rows) i = v :=
  mem_structuralRoot

theorem mem_beforeRollups {v : Issue X} : v ∈ beforeRollups rows ↔
    v ∈ afterTargets rows ∧ ¬(isRepeatedCronFailure v = true ∧
      atLeastAsSevere (childrenOf (afterTargets rows) v.subjectRef) v = true) :=
  mem_cronPass

/-- Where a row that reaches the rollup passes is from. -/
theorem afterTargets_origin {v : Issue X} (h : v ∈ afterTargets rows) :
    ∃ u ∈ afterConfigRefs rows, ∃ i ∈ rows, Kin v u ∧ Kin u i ∧ ¬Rescheduled rows i ∧
      ¬Rooted isMissingConfigRoot isConfigWaiting (afterScheduling rows) i := by
  obtain ⟨u,hu,-,rfl⟩ := mem_afterTargets.mp h
  obtain ⟨i,hi,hnot,rfl⟩ := mem_afterConfigRefs.mp hu
  obtain ⟨hrow,hkept⟩ := mem_afterScheduling.mp hi
  exact ⟨_,hu,i,hrow,donateSeverity_kin,donateSeverity_kin,hkept,hnot⟩

theorem isMissingConfigRoot_fields {i : Issue X} (h : isMissingConfigRoot i = true) :
    i.source = .missingRef ∧ i.kind = "Pod" ∧ i.category = .missingConfigRef := by
  simp only [isMissingConfigRoot, Bool.and_eq_true, decide_eq_true_eq] at h
  exact ⟨h.1.1.1,h.1.1.2,h.1.2⟩

theorem isConfigWaiting_fields {i : Issue X} (h : isConfigWaiting i = true) :
    i.source = .problem ∧ i.kind = "Pod" ∧ i.category = .containerWaiting := by
  simp only [isConfigWaiting, Bool.and_eq_true, decide_eq_true_eq] at h
  exact ⟨h.1.1.1,h.1.1.2,h.1.2⟩

theorem isMissingTargetRoot_fields {i : Issue X} (h : isMissingTargetRoot i = true) :
    i.source = .missingRef ∧ isAutoscaler i.kind = true := by
  simp only [isMissingTargetRoot, Bool.and_eq_true, decide_eq_true_eq] at h
  exact h.1

theorem isLimitedAutoscaler_fields {i : Issue X} (h : isLimitedAutoscaler i = true) :
    i.category = .hpaLimitedOrFailed ∧ isAutoscaler i.kind = true := by
  simp only [isLimitedAutoscaler, Bool.and_eq_true, decide_eq_true_eq] at h
  exact h

/-- Scheduling takes problem rows only, so a root is there before and after. -/
theorem rooted_afterScheduling {i : Issue X} :
    Rooted isMissingConfigRoot isConfigWaiting (afterScheduling rows) i ↔
      Rooted isMissingConfigRoot isConfigWaiting rows i := by
  apply and_congr_right
  intro _
  constructor
  · intro h
    obtain ⟨q,hq,hroot⟩ := h
    exact ⟨q,(mem_afterScheduling.mp hq).1,hroot⟩
  · intro h
    obtain ⟨q,hq,hroot⟩ := h
    refine ⟨q,mem_afterScheduling.mpr ⟨hq,fun hr => ?_⟩,hroot⟩
    have hsource := hr.1
    rw [(isMissingConfigRoot_fields hroot.1).1] at hsource
    cases hsource

/-- A row that was raised on the way to the rollup passes is a missing reference. -/
theorem raised_missingRef {v u i : Issue X}
    (hu : donateSeverity isMissingConfigRoot isConfigWaiting (afterScheduling rows) i = u)
    (hv : donateSeverity isMissingTargetRoot isLimitedAutoscaler (afterConfigRefs rows) u = v)
    (hne : v.severity ≠ i.severity) : v.source = .missingRef := by
  subst hu
  subst hv
  by_cases h : (donateSeverity isMissingConfigRoot isConfigWaiting (afterScheduling rows) i).severity
      = i.severity
  · rw [← h] at hne
    have hroot := (donateSeverity_raised hne).1
    rw [donateSeverity_kin.source]
    exact (isMissingTargetRoot_fields hroot).1
  · have hroot := (donateSeverity_raised h).1
    rw [donateSeverity_kin.source, donateSeverity_kin.source]
    exact (isMissingConfigRoot_fields hroot).1

/-- A row that no root replaces reaches the rollup passes. -/
theorem reaches_targets {i : Issue X} (hi : i ∈ rows) (hkept : ¬Rescheduled rows i)
    (hroot : ¬Rooted isMissingConfigRoot isConfigWaiting rows i)
    (hcategory : i.category ≠ .hpaLimitedOrFailed) : ∃ v ∈ afterTargets rows, Kin v i := by
  have hu := mem_afterConfigRefs.mpr
    ⟨i,mem_afterScheduling.mpr ⟨hi,hkept⟩,mt rooted_afterScheduling.mp hroot,rfl⟩
  refine ⟨_,mem_afterTargets.mpr ⟨_,hu,fun h => ?_,rfl⟩,donateSeverity_kin.trans donateSeverity_kin⟩
  have hlimited := (isLimitedAutoscaler_fields h.1).1
  rw [donateSeverity_kin.category] at hlimited
  exact hcategory hlimited

/-- The root that replaces a waiting container is at least as severe. -/
theorem waiting_replaced {i : Issue X} (hi : i ∈ rows) (hkept : ¬Rescheduled rows i)
    (hroot : Rooted isMissingConfigRoot isConfigWaiting rows i) :
    ∃ v ∈ afterTargets rows, ∃ q ∈ rows, Kin v q ∧ q.source = .missingRef ∧
      q.category = .missingConfigRef ∧ q.resource = i.resource ∧
      i.severity.rank ≤ v.severity.rank := by
  obtain ⟨hsymptom,q,hq,hqroot,hsame⟩ := hroot
  obtain ⟨hsource,-,hcategory⟩ := isMissingConfigRoot_fields hqroot
  have hqkept : ¬Rescheduled rows q := fun h => by
    rw [h.1] at hsource
    cases hsource
  have hqin := mem_afterScheduling.mpr ⟨hq,hqkept⟩
  have hu := mem_afterConfigRefs.mpr ⟨q,hqin,fun h => ?_,rfl⟩
  · have hover := donateSeverity_over hqin hqroot (mem_afterScheduling.mpr ⟨hi,hkept⟩)
      hsymptom hsame
    refine ⟨_,mem_afterTargets.mpr ⟨_,hu,fun h => ?_,rfl⟩,q,hq,
      donateSeverity_kin.trans donateSeverity_kin,hsource,hcategory,hsame,
      Nat.le_trans hover donateSeverity_kin.raised⟩
    have hlimited := (isLimitedAutoscaler_fields h.1).1
    rw [donateSeverity_kin.category, hcategory] at hlimited
    cases hlimited
  · have hproblem := (isConfigWaiting_fields h.1).1
    rw [hsource] at hproblem
    cases hproblem

end Stages

section Survival

variable {rows : List (Issue X)}

def afterRollups (rows : List (Issue X)) : List (Issue X) :=
  dedupeWorkloadDegradedOverChild (beforeRollups rows)

theorem unsuppressed_reaches {v : Issue X} (hv : v ∈ beforeRollups rows)
    (h : isSuppressedParent (beforeRollups rows) v = false) :
    ∃ w ∈ afterRollups rows, Kin w v :=
  ⟨_,mem_rollupPass.mpr ⟨v,hv,h,rfl⟩,donateTiming_kin⟩

/-- A row that is no rollup passes the rollup passes. -/
theorem reaches_rollups {v : Issue X} (hv : v ∈ afterTargets rows)
    (hcron : v.category ≠ .cronJobFailed) (hparent : parentRollupCategories v.category = false) :
    ∃ w ∈ afterRollups rows, Kin w v := by
  have hbefore : v ∈ beforeRollups rows := by
    refine mem_beforeRollups.mpr ⟨hv,fun h => ?_⟩
    have hand := Bool.and_eq_true_iff.mp h.1
    exact hcron (of_decide_eq_true hand.1)
  apply unsuppressed_reaches hbefore
  rw [isSuppressedParent, hparent, Bool.false_and]

theorem afterRollups_origin {v : Issue X} (h : v ∈ afterRollups rows) :
    ∃ t ∈ beforeRollups rows, isSuppressedParent (beforeRollups rows) t = false ∧ Kin v t ∧
      v.severity = t.severity := by
  obtain ⟨t,ht,hnot,rfl⟩ := mem_rollupPass.mp h
  exact ⟨t,ht,hnot,donateTiming_kin,donateTiming_severity⟩

theorem afterRollups_kin {v : Issue X} (h : v ∈ afterRollups rows) : ∃ r ∈ rows, Kin v r := by
  obtain ⟨t,ht,-,hvt,-⟩ := afterRollups_origin h
  obtain ⟨u,-,i,hi,htu,hui,-⟩ := afterTargets_origin (mem_beforeRollups.mp ht).1
  exact ⟨i,hi,hvt.trans (htu.trans hui)⟩

/-- Missing references are never dropped. -/
theorem missingRef_reaches (hf : FlatRows rows) {m : Issue X} (hm : m ∈ rows)
    (hsource : m.source = .missingRef) : ∃ w ∈ afterRollups rows, Kin w m := by
  have hplain := classifyMissingRef_plain m.reason
  rw [← hf.classified m hm hsource] at hplain
  have hkept : ¬Rescheduled rows m := fun h => by
    rw [h.1] at hsource
    cases hsource
  have hroot : ¬Rooted isMissingConfigRoot isConfigWaiting rows m := fun h => by
    rw [(isConfigWaiting_fields h.1).1] at hsource
    cases hsource
  obtain ⟨v,hv,hvm⟩ := reaches_targets hm hkept hroot hplain.2.2.1
  obtain ⟨w,hw,hwv⟩ := reaches_rollups hv (hvm.category ▸ hplain.2.1) (hvm.category ▸ hplain.1)
  exact ⟨w,hw,hwv.trans hvm⟩

theorem structural_iff {l : List (Issue X)} {p : Issue X → Bool} {i : Issue X}
    (hback : ∀ m ∈ l, ∃ r ∈ rows, Kin m r)
    (hforth : ∀ r ∈ rows, r.source = .missingRef → ∃ m ∈ l, Kin m r)
    (hp : ∀ m : Issue X, m.resource = i.resource → m.category = i.category → p m = true) :
    structural p l i = true ↔
      ∃ m ∈ rows, m.source = .missingRef ∧ m.resource = i.resource ∧ m.category = i.category := by
  simp only [structural, List.any_eq_true, Bool.and_eq_true, decide_eq_true_eq, and_assoc]
  constructor
  · intro h
    obtain ⟨m,hm,hsource,-,hresource,hcategory⟩ := h
    obtain ⟨r,hr,hkin⟩ := hback m hm
    rw [hkin.source] at hsource
    rw [hkin.resource] at hresource
    rw [hkin.category] at hcategory
    exact ⟨r,hr,hsource,hresource,hcategory⟩
  · intro h
    obtain ⟨r,hr,hsource,hresource,hcategory⟩ := h
    obtain ⟨m,hm,hkin⟩ := hforth r hr hsource
    rw [← hkin.source] at hsource
    rw [← hkin.resource] at hresource
    rw [← hkin.category] at hcategory
    exact ⟨m,hm,hsource,hp m hresource hcategory,hresource,hcategory⟩

theorem isPendingPVC_alike {m i : Issue X} (h : isPendingPVC i = true)
    (hresource : m.resource = i.resource) (hcategory : m.category = i.category) :
    isPendingPVC m = true := by
  have hkind : m.kind = i.kind := congrArg Ref.kind hresource
  rw [isPendingPVC, hkind, hcategory]
  exact h

/-- The last two passes take exactly the echoed rows. -/
theorem mem_dedupe (hf : FlatRows rows) {v : Issue X} :
    v ∈ dedupe rows ↔ v ∈ afterRollups rows ∧ ¬Echoed rows v := by
  have hecho : structural (fun _ => true) (afterRollups rows) v = true ↔
      ∃ m ∈ rows, m.source = .missingRef ∧ m.resource = v.resource ∧ m.category = v.category :=
    structural_iff (fun m => afterRollups_kin) (fun r => missingRef_reaches hf) fun _ _ _ => rfl
  have hconditions : ∀ {w : Issue X}, w ∈ dedupeConditionOverMissingRef (afterRollups rows) ↔
      w ∈ afterRollups rows ∧ ¬(w.source = .condition ∧
        structural (fun _ => true) (afterRollups rows) w = true ∧
        isMissingRefEchoCondition w = true) := by
    intro w
    rw [dedupeConditionOverMissingRef, List.mem_filter, Bool.not_eq_true', ← Bool.not_eq_true,
      Bool.and_eq_true, Bool.and_eq_true, decide_eq_true_eq, and_assoc]
  have hpending : isPendingPVC v = true →
      (structural isPendingPVC (dedupeConditionOverMissingRef (afterRollups rows)) v = true ↔
      ∃ m ∈ rows, m.source = .missingRef ∧ m.resource = v.resource ∧ m.category = v.category) := by
    intro hp
    apply structural_iff
    · intro m hm
      exact afterRollups_kin (hconditions.mp hm).1
    · intro r hr hsource
      obtain ⟨m,hm,hkin⟩ := missingRef_reaches hf hr hsource
      refine ⟨m,hconditions.mpr ⟨hm,fun h => ?_⟩,hkin⟩
      rw [hkin.source, hsource] at h
      cases h.1
    · intro m
      exact isPendingPVC_alike hp
  show v ∈ dedupePVCPendingOverMissingRef (dedupeConditionOverMissingRef (afterRollups rows)) ↔ _
  rw [dedupePVCPendingOverMissingRef, List.mem_filter, hconditions, Bool.not_eq_true',
    ← Bool.not_eq_true, Bool.and_eq_true, Bool.and_eq_true, decide_eq_true_eq, and_assoc, hecho,
    ← not_or]
  apply and_congr_right
  intro _
  apply not_congr
  constructor
  · intro h
    cases h with
    | inl h => exact ⟨.inl ⟨h.1,h.2.2⟩,h.2.1⟩
    | inr h => exact ⟨.inr h.1,(hpending h.1.2).mp h.2⟩
  · intro h
    cases h.1 with
    | inl hc => exact .inl ⟨hc.1,h.2,hc.2⟩
    | inr hp => exact .inr ⟨hp,(hpending hp.2).mpr h.2⟩

theorem echoed_kin {v r : Issue X} (h : Kin v r) : Echoed rows v ↔ Echoed rows r := by
  have hcondition : isMissingRefEchoCondition v = isMissingRefEchoCondition r := by
    rw [isMissingRefEchoCondition, h.group, h.kind, h.reason]
    rfl
  have hpending : isPendingPVC v = isPendingPVC r := by
    rw [isPendingPVC, h.kind, h.category]
    rfl
  rw [Echoed, Echoed, h.source, h.resource, h.category, hcondition, hpending]

theorem missingRef_not_echoed {i : Issue X} (h : i.source = .missingRef) : ¬Echoed rows i := by
  intro he
  cases he.1 with
  | inl hc =>
    rw [h] at hc
    cases hc.1
  | inr hp =>
    rw [h] at hp
    cases hp.1

theorem missingRef_stays (hf : FlatRows rows) {v : Issue X} (hv : v ∈ afterTargets rows)
    (hsource : v.source = .missingRef) : ∃ w ∈ dedupe rows, Kin w v := by
  obtain ⟨u,-,i,hi,hvu,hui,-⟩ := afterTargets_origin hv
  have hvi := hvu.trans hui
  have hplain := classifyMissingRef_plain i.reason
  rw [← hf.classified i hi (hvi.source ▸ hsource), ← hvi.category] at hplain
  obtain ⟨w,hw,hwv⟩ := reaches_rollups hv hplain.2.1 hplain.1
  have halone : ¬Echoed rows _ := missingRef_not_echoed hsource
  exact ⟨w,(mem_dedupe hf).mpr ⟨hw,mt (echoed_kin hwv).mp halone⟩,hwv⟩

theorem subject_eq (hf : FlatRows rows) {a b : Issue X} (ha : a ∈ rows) (hb : b ∈ rows)
    (h : a.resource = b.resource) : a.subjectRef = b.subjectRef := by
  rw [Issue.subjectRef, Issue.subjectRef, hf.owners a ha b hb h, h]

/-- A row at the rollup passes is a missing reference or as severe as the row it is from. -/
theorem severity_origin {v : Issue X} (hv : v ∈ afterTargets rows) :
    v.source = .missingRef ∨ ∃ i ∈ rows, Kin v i ∧ v.severity = i.severity ∧
      ¬Rescheduled rows i ∧ ¬Rooted isMissingConfigRoot isConfigWaiting rows i := by
  obtain ⟨u,hu,-,hvu⟩ := mem_afterTargets.mp hv
  obtain ⟨i,hi,hnot,hui⟩ := mem_afterConfigRefs.mp hu
  obtain ⟨hrow,hkept⟩ := mem_afterScheduling.mp hi
  by_cases hsame : v.severity = i.severity
  · have hkin : Kin v i := hvu ▸ hui ▸ donateSeverity_kin.trans donateSeverity_kin
    exact .inr ⟨i,hrow,hkin,hsame,hkept,mt rooted_afterScheduling.mpr hnot⟩
  · exact .inl (raised_missingRef hui hvu hsame)

/-- A child that folds a rollup row at the rollup passes stays or explains the row. -/
theorem folding_child (hf : FlatRows rows) {v r : Issue X} (hvr : Kin v r) {c : Issue X}
    (hc : c ∈ afterTargets rows) (hchild : childCategories c.category = true)
    (hsubject : c.subjectRef = v.subjectRef) (hrank : v.severity.rank ≤ c.severity.rank)
    (hcreation : parentRollupCategories r.category = true → r.reason = "ReplicaFailure" →
      isCreationChild c = true) :
    (∃ w ∈ dedupe rows, w.subjectRef = r.subjectRef ∧ r.severity.rank ≤ w.severity.rank) ∨
      Explained rows r := by
  have hover := Nat.le_trans hvr.raised hrank
  have hsub := hsubject.trans hvr.subjectRef
  cases severity_origin hc with
  | inl hsource =>
    obtain ⟨w,hw,hwc⟩ := missingRef_stays hf hc hsource
    exact .inl ⟨w,hw,hwc.subjectRef.trans hsub,Nat.le_trans hover hwc.raised⟩
  | inr horigin =>
    obtain ⟨i,hi,hci,hsev,hkept,-⟩ := horigin
    refine .inr ⟨i,⟨hi,hci.subjectRef.symm.trans hsub,hci.category ▸ hchild,hkept⟩,
      hsev ▸ hover,fun hp hr => ?_⟩
    have hcc := hcreation hp hr
    rw [isCreationChild, hci.source, hci.category] at hcc
    exact hcc

/-- The missing target is there for the conditions of its autoscaler. -/
theorem target_replaced (hf : FlatRows rows) {u r : Issue X} (hr : r ∈ rows)
    (hu : u ∈ afterConfigRefs rows) (hkin : Kin u r)
    (h : Rooted isMissingTargetRoot isLimitedAutoscaler (afterConfigRefs rows) u) :
    ∃ w ∈ dedupe rows, w.subjectRef = r.subjectRef ∧ r.severity.rank ≤ w.severity.rank := by
  obtain ⟨hsymptom,q,hq,hqroot,hsame⟩ := h
  have hover := donateSeverity_over hq hqroot hu hsymptom hsame
  have hqsource := (isMissingTargetRoot_fields hqroot).1
  obtain ⟨q₀,hq₀,hqq⟩ : ∃ q₀ ∈ rows, Kin q q₀ := by
    obtain ⟨q₀,hq₀,-,rfl⟩ := mem_afterConfigRefs.mp hq
    exact ⟨q₀,(mem_afterScheduling.mp hq₀).1,donateSeverity_kin⟩
  have hplain := classifyMissingRef_plain q₀.reason
  rw [← hf.classified q₀ hq₀ (hqq.source ▸ hqsource), ← hqq.category] at hplain
  have hv := mem_afterTargets.mpr
    ⟨q,hq,fun h => hplain.2.2.1 (isLimitedAutoscaler_fields h.1).1,rfl⟩
  obtain ⟨w,hw,hwv⟩ := missingRef_stays hf hv (donateSeverity_kin.source.trans hqsource)
  refine ⟨w,hw,?_,Nat.le_trans (Nat.le_trans hkin.raised hover) hwv.raised⟩
  rw [hwv.subjectRef, donateSeverity_kin.subjectRef, hqq.subjectRef]
  exact subject_eq hf hq₀ hr (hqq.resource.symm.trans (hsame.trans hkin.resource))

theorem cron_folded (hf : FlatRows rows) {v r : Issue X} (hvr : Kin v r)
    (h : isRepeatedCronFailure v = true ∧
      atLeastAsSevere (childrenOf (afterTargets rows) v.subjectRef) v = true) :
    (∃ w ∈ dedupe rows, w.subjectRef = r.subjectRef ∧ r.severity.rank ≤ w.severity.rank) ∨
      Covered rows r := by
  obtain ⟨c,hc,hrank⟩ := atLeastAsSevere_iff.mp h.2
  obtain ⟨hcin,hchild,hsubject⟩ := mem_childrenOf.mp hc
  have hcron : isRepeatedCronFailure r = true := by
    have hv := h.1
    rwa [isRepeatedCronFailure, hvr.category, hvr.reason] at hv
  have hnoparent : parentRollupCategories r.category = true → r.reason = "ReplicaFailure" →
      isCreationChild c = true := by
    intro hp
    rw [of_decide_eq_true (Bool.and_eq_true_iff.mp hcron).1] at hp
    nomatch hp
  exact (folding_child hf hvr hcin hchild hsubject hrank hnoparent).imp_right fun he =>
    .inl ⟨hcron,he⟩

/-- A restart loop at the rollup passes is from a row that no root replaces. -/
theorem loop_origin {v r : Issue X} (hvr : Kin v r)
    (h : loopChild (beforeRollups rows) v.subjectRef = true) :
    ∃ c, ChildRow rows r c ∧ c.restartLoop.isSome ∧
      ¬Rooted isMissingConfigRoot isConfigWaiting rows c := by
  obtain ⟨c,hc,hcl⟩ := List.any_eq_true.mp h
  obtain ⟨hcin,hchild,hsubject⟩ := mem_childrenOf.mp hc
  obtain ⟨y,-,i,hi,hcy,hyi,hkept,hnot⟩ := afterTargets_origin (mem_beforeRollups.mp hcin).1
  have hci := hcy.trans hyi
  refine ⟨i,⟨hi,?_,hci.category ▸ hchild,hkept⟩,hci.restartLoop ▸ hcl,
    mt rooted_afterScheduling.mpr hnot⟩
  rw [← hci.subjectRef, hsubject, hvr.subjectRef]

theorem parent_folded (hf : FlatRows rows) {v r : Issue X} (hvr : Kin v r)
    (h : isSuppressedParent (beforeRollups rows) v = true) :
    (∃ w ∈ dedupe rows, w.subjectRef = r.subjectRef ∧ r.severity.rank ≤ w.severity.rank) ∨
      Covered rows r := by
  rw [isSuppressedParent, Bool.and_eq_true, Bool.or_eq_true, Bool.and_eq_true,
    decide_eq_true_eq] at h
  have hparent : parentRollupCategories r.category = true := hvr.category ▸ h.1
  cases h.2 with
  | inl hloop =>
    exact .inr (.inr ⟨hparent,.inl ⟨hvr.category ▸ hloop.1,loop_origin hvr hloop.2⟩⟩)
  | inr hover =>
    obtain ⟨c,hc,hrank⟩ := atLeastAsSevere_iff.mp hover
    have hcc : c ∈ childrenOf (beforeRollups rows) v.subjectRef ∧
        (r.reason = "ReplicaFailure" → isCreationChild c = true) := by
      unfold explainedBy at hc
      rw [hvr.reason] at hc
      by_cases hreason : r.reason = "ReplicaFailure"
      · rw [if_pos hreason, List.mem_filter] at hc
        exact ⟨hc.1,fun _ => hc.2⟩
      · rw [if_neg hreason] at hc
        exact ⟨hc,fun h => absurd h hreason⟩
    obtain ⟨hcin,hchild,hsubject⟩ := mem_childrenOf.mp hcc.1
    exact (folding_child hf hvr (mem_beforeRollups.mp hcin).1 hchild hsubject hrank
      fun _ => hcc.2).imp_right fun he => .inr ⟨hparent,.inr he⟩

/-- A safe row leaves a row of its subject that is at least as severe. -/
theorem safe_stays (hf : FlatRows rows) {r : Issue X} (hr : r ∈ rows) (hs : Safe rows r) :
    ∃ w ∈ dedupe rows, w.subjectRef = r.subjectRef ∧ r.severity.rank ≤ w.severity.rank := by
  by_cases hroot : Rooted isMissingConfigRoot isConfigWaiting rows r
  · obtain ⟨v,hv,q,hq,hvq,hsource,-,hsame,hrank⟩ := waiting_replaced hr hs.kept hroot
    obtain ⟨w,hw,hwv⟩ := missingRef_stays hf hv (hvq.source.trans hsource)
    refine ⟨w,hw,?_,Nat.le_trans hrank hwv.raised⟩
    rw [hwv.subjectRef, hvq.subjectRef, subject_eq hf hq hr hsame]
  obtain ⟨u,hu,hkin⟩ : ∃ u ∈ afterConfigRefs rows, Kin u r :=
    ⟨_,mem_afterConfigRefs.mpr
      ⟨r,mem_afterScheduling.mpr ⟨hr,hs.kept⟩,mt rooted_afterScheduling.mp hroot,rfl⟩,
      donateSeverity_kin⟩
  by_cases htarget : Rooted isMissingTargetRoot isLimitedAutoscaler (afterConfigRefs rows) u
  · exact target_replaced hf hr hu hkin htarget
  obtain ⟨v,hv,hvu⟩ : ∃ v ∈ afterTargets rows, Kin v u :=
    ⟨_,mem_afterTargets.mpr ⟨u,hu,htarget,rfl⟩,donateSeverity_kin⟩
  have hvr := hvu.trans hkin
  by_cases hcron : isRepeatedCronFailure v = true ∧
      atLeastAsSevere (childrenOf (afterTargets rows) v.subjectRef) v = true
  · exact (cron_folded hf hvr hcron).resolve_right hs.uncovered
  cases hparent : isSuppressedParent (beforeRollups rows) v with
  | true => exact (parent_folded hf hvr hparent).resolve_right hs.uncovered
  | false =>
    obtain ⟨w,hw,hwv⟩ := unsuppressed_reaches (mem_beforeRollups.mpr ⟨hv,hcron⟩) hparent
    have hwr := hwv.trans hvr
    exact ⟨w,(mem_dedupe hf).mpr ⟨hw,mt (echoed_kin hwr).mp hs.alone⟩,hwr.subjectRef,hwr.raised⟩

end Survival

section Origins

variable {rows : List (Issue X)}

theorem waiting_safe {x : Issue X} (hkept : ¬Rescheduled rows x) (h : isConfigWaiting x = true) :
    Safe rows x := by
  obtain ⟨hsource,hkind,hcategory⟩ := isConfigWaiting_fields h
  constructor
  · exact hkept
  · intro he
    cases he.1 with
    | inl hc =>
      rw [hsource] at hc
      nomatch hc.1
    | inr hp =>
      have hpending := hp.2
      rw [isPendingPVC, hkind] at hpending
      nomatch hpending
  · intro hc
    cases hc with
    | inl hcron =>
      have hfold := hcron.1
      rw [isRepeatedCronFailure, hcategory] at hfold
      nomatch hfold
    | inr hparent =>
      have hfold := hparent.1
      rw [hcategory] at hfold
      nomatch hfold

theorem limited_safe {x : Issue X} (hkept : ¬Rescheduled rows x)
    (h : isLimitedAutoscaler x = true) : Safe rows x := by
  obtain ⟨hcategory,hkind⟩ := isLimitedAutoscaler_fields h
  simp only [isAutoscaler, Bool.or_eq_true, decide_eq_true_eq] at hkind
  constructor
  · exact hkept
  · intro he
    cases he.1 with
    | inl hc =>
      have hroute := hc.2
      simp only [isMissingRefEchoCondition, Bool.and_eq_true] at hroute
      have hkinds := hroute.1.2
      cases hkind with
      | inl hk =>
        rw [hk] at hkinds
        exact absurd hkinds (by decide)
      | inr hk =>
        rw [hk] at hkinds
        exact absurd hkinds (by decide)
    | inr hp =>
      have hpending := hp.2
      rw [isPendingPVC, hcategory] at hpending
      simp at hpending
  · intro hc
    cases hc with
    | inl hcron =>
      have hfold := hcron.1
      rw [isRepeatedCronFailure, hcategory] at hfold
      nomatch hfold
    | inr hparent =>
      have hfold := hparent.1
      rw [hcategory] at hfold
      nomatch hfold

/-- The severity of a row at the rollup passes is that of a safe symptom or of the row it is
from. -/
theorem severity_from (hf : FlatRows rows) {t : Issue X} (ht : t ∈ afterTargets rows) :
    (∃ x ∈ rows, Safe rows x ∧ x.subjectRef = t.subjectRef ∧ x.severity = t.severity) ∨
      ∃ i ∈ rows, Kin t i ∧ t.severity = i.severity ∧ ¬Rescheduled rows i := by
  obtain ⟨u,hu,-,hut⟩ := mem_afterTargets.mp ht
  obtain ⟨i,hi,-,hiu⟩ := mem_afterConfigRefs.mp hu
  obtain ⟨hrow,hkept⟩ := mem_afterScheduling.mp hi
  have htu : Kin t u := hut ▸ donateSeverity_kin
  have hui : Kin u i := hiu ▸ donateSeverity_kin
  by_cases hraised : t.severity = u.severity
  · by_cases hraised' : u.severity = i.severity
    · exact .inr ⟨i,hrow,htu.trans hui,hraised.trans hraised',hkept⟩
    · rw [← hiu] at hraised'
      obtain ⟨-,x,hx,hsymptom,hsame,hsev⟩ := donateSeverity_raised hraised'
      obtain ⟨hxrow,hxkept⟩ := mem_afterScheduling.mp hx
      refine .inl ⟨x,hxrow,waiting_safe hxkept hsymptom,?_,hsev.trans (hiu ▸ hraised.symm)⟩
      rw [subject_eq hf hxrow hrow hsame, htu.subjectRef, hui.subjectRef]
  · rw [← hut] at hraised
    obtain ⟨-,x,hx,hsymptom,hsame,hsev⟩ := donateSeverity_raised hraised
    obtain ⟨y,hy,-,hyx⟩ := mem_afterConfigRefs.mp hx
    obtain ⟨hyrow,hykept⟩ := mem_afterScheduling.mp hy
    have hxy : Kin x y := hyx ▸ donateSeverity_kin
    -- an autoscaler is no Pod, so its row was not raised by the pass before
    have hunraised : x.severity = y.severity := by
      by_contra hne
      rw [← hyx] at hne
      have hpod := (isMissingConfigRoot_fields (donateSeverity_raised hne).1).2.1
      have hscaler := (isLimitedAutoscaler_fields hsymptom).2
      rw [hxy.kind, hpod] at hscaler
      exact absurd hscaler (by decide)
    have hlimited : isLimitedAutoscaler y = true := by
      rw [isLimitedAutoscaler, hxy.category, hxy.kind] at hsymptom
      exact hsymptom
    refine .inl ⟨y,hyrow,limited_safe hykept hlimited,?_,hunraised ▸ hut ▸ hsev⟩
    rw [htu.subjectRef, hui.subjectRef]
    apply subject_eq hf hyrow hrow
    rw [← hxy.resource, hsame, hui.resource]

/-- A child row has a row at the rollup passes that folds what it explains. -/
theorem child_reaches (hf : FlatRows rows) {r c : Issue X} (h : ChildRow rows r c) :
    ∃ v ∈ beforeRollups rows, childCategories v.category = true ∧ v.subjectRef = r.subjectRef ∧
      c.severity.rank ≤ v.severity.rank ∧ (isCreationChild c = true → isCreationChild v = true) ∧
      (¬Rooted isMissingConfigRoot isConfigWaiting rows c → v.restartLoop = c.restartLoop) := by
  have hbefore : ∀ {v : Issue X}, v ∈ afterTargets rows → childCategories v.category = true →
      v ∈ beforeRollups rows := by
    intro v hv hchild
    refine mem_beforeRollups.mpr ⟨hv,fun hcron => ?_⟩
    have hand := Bool.and_eq_true_iff.mp hcron.1
    exact (child_plain hchild).2.1 (of_decide_eq_true hand.1)
  by_cases hroot : Rooted isMissingConfigRoot isConfigWaiting rows c
  · obtain ⟨v,hv,q,hq,hvq,-,hcategory,hsame,hrank⟩ := waiting_replaced h.mem h.kept hroot
    have hchild : childCategories v.category = true := by
      rw [hvq.category, hcategory]
      rfl
    refine ⟨v,hbefore hv hchild,hchild,?_,hrank,fun hcreation => ?_,fun hn => absurd hroot hn⟩
    · rw [hvq.subjectRef, subject_eq hf hq h.mem hsame, h.subject]
    · have hproblem := (isConfigWaiting_fields hroot.1).1
      rw [creation_child hcreation] at hproblem
      nomatch hproblem
  · obtain ⟨v,hv,hvc⟩ := reaches_targets h.mem h.kept hroot (child_plain h.child).2.2
    have hchild : childCategories v.category = true := hvc.category ▸ h.child
    refine ⟨v,hbefore hv hchild,hchild,hvc.subjectRef.trans h.subject,hvc.raised,
      fun hcreation => ?_,fun _ => hvc.restartLoop⟩
    rw [isCreationChild, hvc.source, hvc.category]
    exact hcreation

/-- The rollup passes take a covered row that was not raised. -/
theorem covered_folds (hf : FlatRows rows) {v r : Issue X} (hv : v ∈ beforeRollups rows)
    (hvr : Kin v r) (hsev : v.severity = r.severity) (h : Covered rows r) :
    isSuppressedParent (beforeRollups rows) v = true := by
  obtain ⟨hin,hnot⟩ := mem_beforeRollups.mp hv
  cases h with
  | inl hcron =>
    obtain ⟨hrepeated,c,hc,hrank,-⟩ := hcron
    obtain ⟨w,hw,hchild,hsubject,hover,-⟩ := child_reaches hf hc
    refine absurd ⟨?_,atLeastAsSevere_iff.mpr ⟨w,?_,?_⟩⟩ hnot
    · rwa [isRepeatedCronFailure, hvr.category, hvr.reason]
    · exact mem_childrenOf.mpr
        ⟨(mem_beforeRollups.mp hw).1,hchild,hsubject.trans hvr.subjectRef.symm⟩
    · rw [hsev]
      exact Nat.le_trans hrank hover
  | inr hparent =>
    obtain ⟨hcategory,hfold⟩ := hparent
    rw [isSuppressedParent, hvr.category, hcategory, Bool.true_and, Bool.or_eq_true]
    cases hfold with
    | inl hloop =>
      obtain ⟨hdegraded,c,hc,hrestart,hroot⟩ := hloop
      obtain ⟨w,hw,hchild,hsubject,-,-,hsame⟩ := child_reaches hf hc
      left
      rw [Bool.and_eq_true, decide_eq_true_eq]
      refine ⟨hdegraded,List.any_eq_true.mpr ⟨w,?_,?_⟩⟩
      · exact mem_childrenOf.mpr ⟨hw,hchild,hsubject.trans hvr.subjectRef.symm⟩
      · rw [hsame hroot]
        exact hrestart
    | inr hexplained =>
      obtain ⟨c,hc,hrank,hcreation⟩ := hexplained
      obtain ⟨w,hw,hchild,hsubject,hover,hsame,-⟩ := child_reaches hf hc
      have hin := mem_childrenOf.mpr ⟨hw,hchild,hsubject.trans hvr.subjectRef.symm⟩
      right
      refine atLeastAsSevere_iff.mpr ⟨w,?_,hsev ▸ Nat.le_trans hrank hover⟩
      unfold explainedBy
      rw [hvr.reason]
      by_cases hreason : r.reason = "ReplicaFailure"
      · rw [if_pos hreason]
        exact List.mem_filter.mpr ⟨hin,hsame (hcreation hcategory hreason)⟩
      · rw [if_neg hreason]
        exact hin

/-- A row that comes out has a safe row of its subject that is as severe. -/
theorem stays_safe (hf : FlatRows rows) {v : Issue X} (hv : v ∈ dedupe rows) :
    ∃ r ∈ rows, Safe rows r ∧ r.subjectRef = v.subjectRef ∧ r.severity = v.severity := by
  obtain ⟨hroll,halone⟩ := (mem_dedupe hf).mp hv
  obtain ⟨t,ht,hnot,hvt,hsev⟩ := afterRollups_origin hroll
  cases severity_from hf (mem_beforeRollups.mp ht).1 with
  | inl hsafe =>
    obtain ⟨x,hx,hs,hsubject,hxsev⟩ := hsafe
    exact ⟨x,hx,hs,hsubject.trans hvt.subjectRef.symm,hxsev.trans hsev.symm⟩
  | inr horigin =>
    obtain ⟨i,hi,hti,htsev,hkept⟩ := horigin
    have hvi := hvt.trans hti
    refine ⟨i,hi,⟨hkept,mt (echoed_kin hvi).mpr halone,fun hc => ?_⟩,hvi.subjectRef.symm,
      (hsev.trans htsev).symm⟩
    rw [covered_folds hf ht hti htsev hc] at hnot
    cases hnot

end Origins

section Exempt

variable {rows : List (Issue X)}

theorem rescheduled_kin {v r : Issue X} (h : Kin v r) : Rescheduled rows v ↔ Rescheduled rows r := by
  have hns : v.ns = r.ns := congrArg Ref.ns h.resource
  have hname : v.name = r.name := congrArg Ref.name h.resource
  rw [Rescheduled, Rescheduled, h.source, h.kind, hns, hname]

theorem donateSeverity_other {isRoot isSymptom : Issue X → Bool} {i : Issue X}
    (h : isRoot i = false) : donateSeverity isRoot isSymptom rows i = i := by
  rw [donateSeverity, h]
  rfl

/-- A workload_degraded row is neither a symptom nor a root of the passes before. -/
theorem degraded_reaches (hf : FlatRows rows) {r : Issue X} (hr : r ∈ rows)
    (hkept : ¬Rescheduled rows r) (hcategory : r.category = .workloadDegraded) :
    r ∈ beforeRollups rows := by
  have hconfig : isMissingConfigRoot r = false := by
    rw [← Bool.not_eq_true]
    intro h
    have hroot := (isMissingConfigRoot_fields h).2.2
    rw [hcategory] at hroot
    nomatch hroot
  have htarget : isMissingTargetRoot r = false := by
    rw [← Bool.not_eq_true]
    intro h
    have hclass := hf.classified r hr (isMissingTargetRoot_fields h).1
    exact (classifyMissingRef_plain r.reason).2.2.2 (hclass.symm.trans hcategory)
  have hu : r ∈ afterConfigRefs rows := by
    refine mem_afterConfigRefs.mpr
      ⟨r,mem_afterScheduling.mpr ⟨hr,hkept⟩,fun h => ?_,donateSeverity_other hconfig⟩
    have hwaiting := (isConfigWaiting_fields h.1).2.2
    rw [hcategory] at hwaiting
    nomatch hwaiting
  have hv : r ∈ afterTargets rows := by
    refine mem_afterTargets.mpr ⟨r,hu,fun h => ?_,donateSeverity_other htarget⟩
    have hlimited := (isLimitedAutoscaler_fields h.1).1
    rw [hcategory] at hlimited
    nomatch hlimited
  refine mem_beforeRollups.mpr ⟨hv,fun h => ?_⟩
  have hcron := h.1
  rw [isRepeatedCronFailure, hcategory] at hcron
  nomatch hcron

theorem foldedUnderLoop_iff (hf : FlatRows rows) {r : Issue X} (hr : r ∈ rows) :
    FoldedUnderLoop rows r ↔ ¬Rescheduled rows r ∧ LoopFolds rows r := by
  constructor
  · intro h
    obtain ⟨hin,hcategory,hloop⟩ := h
    obtain ⟨u,-,i,-,hru,hui,hkept,-⟩ := afterTargets_origin (mem_beforeRollups.mp hin).1
    exact ⟨mt (rescheduled_kin (hru.trans hui)).mp hkept,hcategory,loop_origin (.refl r) hloop⟩
  · intro h
    obtain ⟨hkept,hcategory,c,hc,hrestart,hroot⟩ := h
    obtain ⟨w,hw,hchild,hsubject,-,-,hsame⟩ := child_reaches hf hc
    refine ⟨degraded_reaches hf hr hkept hcategory,hcategory,List.any_eq_true.mpr ⟨w,?_,?_⟩⟩
    · exact mem_childrenOf.mpr ⟨hw,hchild,hsubject⟩
    · rw [hsame hroot]
      exact hrestart

/-- The subject of a child row has a row that comes out. -/
theorem child_subject_stays (hf : FlatRows rows) {r c : Issue X} (h : ChildRow rows r c) :
    ∃ w ∈ dedupe rows, w.subjectRef = r.subjectRef := by
  by_cases hecho : Echoed rows c
  · obtain ⟨-,m,hm,hsource,hresource,-⟩ := hecho
    obtain ⟨w,hw,hwm⟩ := missingRef_reaches hf hm hsource
    have halone : ¬Echoed rows _ := missingRef_not_echoed hsource
    refine ⟨w,(mem_dedupe hf).mpr ⟨hw,mt (echoed_kin hwm).mp halone⟩,?_⟩
    rw [hwm.subjectRef, subject_eq hf hm h.mem hresource, h.subject]
  · have hplain := child_plain h.child
    have hsafe : Safe rows c := by
      refine ⟨h.kept,hecho,fun hc => ?_⟩
      cases hc with
      | inl hcron =>
        have hand := Bool.and_eq_true_iff.mp hcron.1
        exact hplain.2.1 (of_decide_eq_true hand.1)
      | inr hparent =>
        rw [hplain.1] at hparent
        cases hparent.1
    obtain ⟨w,hw,hsubject,-⟩ := safe_stays hf h.mem hsafe
    exact ⟨w,hw,hsubject.trans h.subject⟩

end Exempt

/-- De-duplication hides nothing exactly when every row has a safe row of its subject that is at
least as severe, or is folded under a restart loop. -/
theorem dedupe_hides_nothing (rows : List (Issue X)) (hf : FlatRows rows) :
    HidesNothing rows ↔ ∀ r ∈ rows,
      (∃ s ∈ rows, Safe rows s ∧ s.subjectRef = r.subjectRef ∧
        r.severity.rank ≤ s.severity.rank) ∨
      ¬Rescheduled rows r ∧ LoopFolds rows r := by
  constructor
  · intro h r hr
    cases h.severities r hr with
    | inl hstays =>
      obtain ⟨v,hv,hsubject,hrank⟩ := hstays
      obtain ⟨s,hs,hsafe,hsame,hsev⟩ := stays_safe hf hv
      exact .inl ⟨s,hs,hsafe,hsame.trans hsubject,hsev ▸ hrank⟩
    | inr hloop => exact .inr ((foldedUnderLoop_iff hf hr).mp hloop)
  · intro h
    have hstays : ∀ r ∈ rows, (∃ v ∈ dedupe rows, v.subjectRef = r.subjectRef ∧
        r.severity.rank ≤ v.severity.rank) ∨ ¬Rescheduled rows r ∧ LoopFolds rows r := by
      intro r hr
      refine (h r hr).imp_left fun hsafe => ?_
      obtain ⟨s,hs,hsafe,hsubject,hrank⟩ := hsafe
      obtain ⟨w,hw,hws,hover⟩ := safe_stays hf hs hsafe
      exact ⟨w,hw,hws.trans hsubject,Nat.le_trans hrank hover⟩
    constructor
    · intro r hr
      cases hstays r hr with
      | inl hrow =>
        obtain ⟨v,hv,hsubject,-⟩ := hrow
        exact ⟨v,hv,hsubject⟩
      | inr hloop =>
        obtain ⟨-,-,c,hc,-⟩ := hloop
        exact child_subject_stays hf hc
    · intro r hr
      exact (hstays r hr).imp_right (foldedUnderLoop_iff hf hr).mpr
    · intro v hv
      exact afterRollups_kin ((mem_dedupe hf).mp hv).1

/-! A Pending Pod with a recent failed mount and an init container that keeps crashing. -/

def mountRow : Issue Empty :=
  { severity := .warning, source := .scheduling, category := .volumeMountFailed
    id := "shop/web-1/volume_mount_failed", kind := "Pod", ns := "shop", name := "web-1"
    reason := "VolumeMount" }

def crashRow (severity : Severity) : Issue Empty :=
  { severity := severity, source := .problem, category := .crashLoop
    id := "shop/web-1/crashloop", kind := "Pod", ns := "shop", name := "web-1"
    reason := "CrashLoopBackOff" }

def pairRows (severity : Severity) : List (Issue Empty) := [mountRow, crashRow severity]

theorem pairRows_flat (severity : Severity) : FlatRows (pairRows severity) := by
  cases severity with
  | critical => exact ⟨by decide +kernel,by decide +kernel⟩
  | warning => exact ⟨by decide +kernel,by decide +kernel⟩

/-- A problem row no more severe than the scheduling row is folded without a loss. -/
theorem dedupe_hides_nothing_warning : HidesNothing (pairRows .warning) := by
  apply (dedupe_hides_nothing (pairRows .warning) (pairRows_flat .warning)).mpr
  have hsafe : Safe (pairRows .warning) mountRow := by
    constructor
    · exact fun h => nomatch h.1
    · intro h
      cases h.1 with
      | inl hc => nomatch hc.1
      | inr hp => nomatch hp.1
    · intro h
      cases h with
      | inl hc => nomatch hc.1
      | inr hp => nomatch hp.1
  intro r hr
  refine .inl ⟨mountRow,by decide +kernel,hsafe,?_⟩
  revert r
  decide +kernel

/-- The critical row is dropped and a warning is what the Pod is left with. -/
theorem dedupe_hides_crash : ¬∀ rows : List (Issue Empty), FlatRows rows → HidesNothing rows := by
  intro h
  have hcrash := (h (pairRows .critical) (pairRows_flat .critical)).severities (crashRow .critical)
    (by decide +kernel)
  cases hcrash with
  | inl hstays =>
    revert hstays
    decide +kernel
  | inr hloop => nomatch hloop.2.1

end Radar.Issues
