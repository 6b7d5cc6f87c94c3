import Mathlib.Data.List.Induction
import Radar.Base.Join
import Radar.NodeDrain.Evictions

/-!
# What a drain reports

Every goroutine records its pod once, the wait drops a pod only when a list of
the node did not show it, and the outcome is read off what was recorded.
-/

set_option autoImplicit false

namespace Radar.NodeDrain
open Radar.Run

variable {nodeName : Text} {opts : DrainOptions} {s t : Drain}

section Recorded

/-- At some moment nothing was stored under the pod's name. -/
def Gone (past : List (List Pod)) (pod : Pod) : Prop :=
  ∃ pods ∈ past, ∀ q ∈ pods, keyOf q ≠ keyOf pod

/-- The eviction of the pod was admitted, or it was gone. -/
def Accepted (s : Drain) (pod : Pod) : Prop :=
  (∃ victim, (pod,victim) ∈ s.admitted) ∨ Gone s.past pod

def drainedOf (pod : Pod) : DrainedPod := ⟨pod.ns,pod.name,pod.uid⟩

/-- The `i`-th goroutine, which is for `pod`, ended with `err`. -/
def Ended (s : Drain) (i : ℕ) (pod : Pod) (err : Option Text) : Prop :=
  s.toEvict[i]? = some pod ∧ s.workers i = .finished err

def errorOf (pod : Pod) (err : Text) : Text := podName pod.ns pod.name++": ".toList++err

/-- The outcomes of the goroutines are those that were recorded. -/
structure Records (s : Drain) : Prop where
  evicted : ∀ d, d ∈ s.evicted ↔ ∃ i pod, Ended s i pod none ∧ d = drainedOf pod
  names : s.result.evictedPods = s.evicted.map fun d => podName d.ns d.name
  errors : ∀ e, e ∈ s.result.errors ↔ ∃ i pod err, Ended s i pod (some err) ∧ e = errorOf pod err
  accepted : ∀ i pod, Ended s i pod none → Accepted s pod

theorem records_frame (h : Records s) (hended : ∀ i pod err, Ended t i pod err ↔ Ended s i pod err)
    (hevicted : t.evicted = s.evicted) (hnames : t.result.evictedPods = s.result.evictedPods)
    (herrors : t.result.errors = s.result.errors) (hadmitted : ∀ e ∈ s.admitted, e ∈ t.admitted)
    (hpast : ∀ pods ∈ s.past, pods ∈ t.past) : Records t := by
  constructor
  · intro d
    rw [hevicted, h.evicted]
    simp only [hended]
  · rw [hnames, hevicted, h.names]
  · intro e
    rw [herrors, h.errors]
    simp only [hended]
  · intro i pod hend
    rcases h.accepted i pod ((hended i pod none).mp hend) with ⟨victim,hv⟩ | ⟨pods,hpods,hgone⟩
    · exact .inl ⟨victim,hadmitted _ hv⟩
    · exact .inr ⟨pods,hpast pods hpods,hgone⟩

variable {i : ℕ} {pod : Pod}

theorem records_worker (h : Records s) (hworking : ∀ err, s.workers i ≠ .finished err) {w : Worker}
    (hw : ∀ err, w ≠ .finished err) : Records (setWorker s i w) := by
  refine records_frame h ?_ rfl rfl rfl (fun _ he => he) (fun _ hp => hp)
  intro j q err
  by_cases hj : j = i
  · subst hj
    simp [Ended, setWorker, hw err, hworking err]
  · simp [Ended, setWorker, hj]

theorem ended_record (hpod : s.toEvict[i]? = some pod) (hworking : ∀ err, s.workers i ≠ .finished err)
    (err : Option Text) (j : ℕ) (q : Pod) (e : Option Text) :
    Ended (record s i pod err) j q e ↔ Ended s j q e ∨ (j = i ∧ q = pod ∧ e = err) := by
  have hworkers : (record s i pod err).workers = Function.update s.workers i (.finished err) := by
    cases err with
    | none => rfl
    | some err => rfl
  have hchosen : (record s i pod err).toEvict = s.toEvict := by
    cases err with
    | none => rfl
    | some err => rfl
  rw [Ended, Ended, hworkers, hchosen]
  by_cases hj : j = i
  · subst hj
    have hnot := hworking e
    simp only [Function.update_self, Worker.finished.injEq, hpod, Option.some.injEq, hnot, and_false,
      true_and, false_or]
    exact ⟨fun h => ⟨h.1.symm,h.2.symm⟩,fun h => ⟨h.1.symm,h.2.symm⟩⟩
  · simp [hj]

theorem records_record (h : Records s) (hpod : s.toEvict[i]? = some pod)
    (hworking : ∀ err, s.workers i ≠ .finished err) {err : Option Text}
    (haccepted : err = none → Accepted s pod) : Records (record s i pod err) := by
  have hended := ended_record hpod hworking err
  cases err with
  | none =>
    constructor
    · intro d
      simp only [hended]
      show d ∈ s.evicted++[drainedOf pod] ↔ _
      rw [List.mem_append, List.mem_singleton, h.evicted]
      constructor
      · rintro (⟨j,q,hend,heq⟩ | heq)
        · exact ⟨j,q,.inl hend,heq⟩
        · exact ⟨i,pod,.inr ⟨rfl,rfl,trivial⟩,heq⟩
      · rintro ⟨j,q,hend | ⟨rfl,rfl,-⟩,heq⟩
        · exact .inl ⟨j,q,hend,heq⟩
        · exact .inr heq
    · show s.result.evictedPods++[_] = (s.evicted++[_]).map _
      rw [List.map_append, h.names]
      rfl
    · intro e
      simp only [hended]
      show e ∈ s.result.errors ↔ _
      rw [h.errors]
      simp
    · intro j q hend
      rcases (hended j q none).mp hend with hend | ⟨rfl,rfl,-⟩
      · exact h.accepted j q hend
      · exact haccepted rfl
  | some err =>
    constructor
    · intro d
      simp only [hended]
      show d ∈ s.evicted ↔ _
      rw [h.evicted]
      simp
    · exact h.names
    · intro e
      simp only [hended]
      show e ∈ s.result.errors++[errorOf pod err] ↔ _
      rw [List.mem_append, List.mem_singleton, h.errors]
      constructor
      · rintro (⟨j,q,err',hend,heq⟩ | heq)
        · exact ⟨j,q,err',.inl hend,heq⟩
        · exact ⟨i,pod,err,.inr ⟨rfl,rfl,rfl⟩,heq⟩
      · rintro ⟨j,q,err',hend | ⟨rfl,rfl,herr⟩,heq⟩
        · exact .inl ⟨j,q,err',hend,heq⟩
        · exact .inr (Option.some.inj herr ▸ heq)
    · intro j q hend
      rcases (hended j q none).mp hend with hend | ⟨-,-,hno⟩
      · exact h.accepted j q hend
      · cases hno

theorem records_worked (h : Records s) (hcurrent : s.pods ∈ s.past) (hpod : s.toEvict[i]? = some pod)
    (hworking : ∀ err, s.workers i ≠ .finished err) (hw : Worked s i pod t) : Records t := by
  cases hw with
  | moved w hw => exact records_worker h hworking hw
  | failed err => exact records_record h hpod hworking fun hno => by cases hno
  | admitted victim stamp err hmem hkey =>
    let u : Drain :=
      { s with pods := deletePod s.pods victim stamp, admitted := (pod,victim)::s.admitted }
    have hframe : Records u := records_frame h (fun _ _ _ => Iff.rfl) rfl rfl rfl
      (fun _ he => List.mem_cons_of_mem _ he) (fun _ hp => hp)
    exact records_record hframe hpod hworking fun _ => .inl ⟨victim,List.mem_cons_self⟩
  | missing hfree => exact records_record h hpod hworking fun _ => .inr ⟨s.pods,hcurrent,hfree⟩

end Recorded

section Placed

/-- At some moment the pod was not on the node. -/
def Absent (nodeName : Text) (past : List (List Pod)) (uid : Text) : Prop :=
  ∃ pods ∈ past, ∀ q ∈ podsOn nodeName pods, q.uid ≠ uid

def AllEnded (s : Drain) : Prop := ∀ i pod, s.toEvict[i]? = some pod → ∃ err, Ended s i pod err

/-- Nothing of the wait is in the result yet. -/
structure Unwaited (r : DrainResult) : Prop where
  pending : r.pendingPods = []
  unconfirmed : r.unconfirmedPods = []
  error : r.verificationError = []

variable (nodeName opts)

/-- The wait looks for evicted pods, and those it does not look for any more were absent. -/
structure Waiting (s : Drain) (remaining : List DrainedPod) : Prop where
  ended : AllEnded s
  asked : opts.waitForDeletion = true
  waited : s.result.waitedForDeletion = true
  clean : Unwaited s.result
  left : ∀ d ∈ remaining, d ∈ s.evicted
  gone : ∀ d ∈ s.evicted, (∀ p ∈ remaining, p.uid ≠ d.uid) → Absent nodeName s.past d.uid

/-- How a drain can end, by what it adds to the recorded result. -/
inductive Outcome (s : Drain) : DrainResult → Prop where
  | unwaited (hended : AllEnded s) (hclean : Unwaited s.result)
      (hwaited : s.result.waitedForDeletion = false)
      (hasked : opts.waitForDeletion = false ∨ s.evicted = []) : Outcome s s.result.concluded
  | verified (remaining : List DrainedPod) (hwaiting : Waiting nodeName opts s remaining)
      (hseen : ∃ l, s.lists.head? = some l ∧ ∀ p ∈ remaining, ∃ q ∈ l, q.uid = p.uid) :
      Outcome s { s.result with pendingPods := pendingPodNames remaining }.concluded
  | unverified (remaining : List DrainedPod) (err : Text)
      (hwaiting : Waiting nodeName opts s remaining) (hne : remaining ≠ [])
      (hwhy : s.callerErr = some err ∨ s.finalFailed = true) :
      Outcome s { s.result with
        unconfirmedPods := pendingPodNames remaining, verificationError := err }.concluded

/-- What holds where the call stands. -/
def Placed (s : Drain) : Prop :=
  match s.place with
  | .cordoning | .listing =>
    (∀ i, s.workers i = .ready false) ∧ s.evicted = [] ∧ s.result = {} ∧ s.toEvict = []
  | .evicting => s.result.waitedForDeletion = false ∧ Unwaited s.result
  | .returned (.error _) => True
  | .returned (.ok r) => Outcome nodeName opts s r
  | .waiting remaining | .polling remaining | .unsettled remaining | .checking remaining =>
    Waiting nodeName opts s remaining ∧ remaining ≠ []

variable {nodeName opts}

theorem placed_remaining {remaining : List DrainedPod} (h : s.place.remaining = some remaining) :
    Placed nodeName opts s ↔ Waiting nodeName opts s remaining ∧ remaining ≠ [] := by
  unfold Placed
  cases hplace : s.place with
  | cordoning => cases (hplace ▸ h : Place.cordoning.remaining = some remaining)
  | listing => cases (hplace ▸ h : Place.listing.remaining = some remaining)
  | evicting => cases (hplace ▸ h : Place.evicting.remaining = some remaining)
  | returned out => cases (hplace ▸ h : (Place.returned out).remaining = some remaining)
  | _ r =>
    rw [hplace] at h
    obtain rfl := Option.some.inj h
    rfl

theorem waiting_prune {remaining : List DrainedPod} (h : Waiting nodeName opts s remaining)
    (hcurrent : s.pods ∈ s.past) :
    Waiting nodeName opts s (pruneDepartedPods (podsOn nodeName s.pods) remaining) where
  ended := h.ended
  asked := h.asked
  waited := h.waited
  clean := h.clean
  left := fun d hd => h.left d (List.mem_filter.mp hd).1
  gone := by
    intro d hd hno
    by_cases hleft : ∀ p ∈ remaining, p.uid ≠ d.uid
    · exact h.gone d hd hleft
    · push Not at hleft
      obtain ⟨p,hp,huid⟩ := hleft
      refine ⟨s.pods,hcurrent,fun q hq heq => ?_⟩
      apply hno p _ huid
      rw [pruneDepartedPods, List.mem_filter]
      exact ⟨hp,List.any_eq_true.mpr ⟨q,hq,decide_eq_true (heq.trans huid.symm)⟩⟩

theorem waiting_frame {remaining : List DrainedPod} (h : Waiting nodeName opts s remaining)
    (hchosen : t.toEvict = s.toEvict) (hworkers : t.workers = s.workers)
    (hevicted : t.evicted = s.evicted) (hresult : t.result = s.result)
    (hpast : ∀ pods ∈ s.past, pods ∈ t.past) : Waiting nodeName opts t remaining where
  ended := by
    intro i pod hpod
    obtain ⟨err,hend⟩ := h.ended i pod (hchosen ▸ hpod)
    exact ⟨err,hpod,hworkers ▸ hend.2⟩
  asked := h.asked
  waited := hresult ▸ h.waited
  clean := hresult ▸ h.clean
  left := hevicted ▸ h.left
  gone := by
    rw [hevicted]
    intro d hd hno
    obtain ⟨pods,hpods,habsent⟩ := h.gone d hd hno
    exact ⟨pods,hpast pods hpods,habsent⟩

theorem placed_frame (h : Placed nodeName opts s) (hopen : ∀ out, s.place ≠ .returned out)
    (hplace : t.place = s.place) (hchosen : t.toEvict = s.toEvict) (hworkers : t.workers = s.workers)
    (hevicted : t.evicted = s.evicted) (hresult : t.result = s.result)
    (hpast : ∀ pods ∈ s.past, pods ∈ t.past) : Placed nodeName opts t := by
  unfold Placed at h ⊢
  rw [hplace]
  cases hs : s.place with
  | cordoning =>
    rw [hs] at h
    rwa [hchosen, hworkers, hevicted, hresult]
  | listing =>
    rw [hs] at h
    rwa [hchosen, hworkers, hevicted, hresult]
  | evicting =>
    rw [hs] at h
    rwa [hresult]
  | returned out => exact absurd hs (hopen out)
  | _ r =>
    rw [hs] at h
    exact ⟨waiting_frame h.1 hchosen hworkers hevicted hresult hpast,h.2⟩

/-- More is remembered. -/
theorem placed_past (h : Placed nodeName opts s) {past : List (List Pod)}
    (hpast : ∀ pods ∈ s.past, pods ∈ past) : Placed nodeName opts { s with past := past } := by
  unfold Placed at h ⊢
  cases hs : s.place with
  | cordoning => rwa [hs] at h
  | listing => rwa [hs] at h
  | evicting => rwa [hs] at h
  | returned out =>
    rw [hs] at h
    cases out with
    | error => trivial
    | ok r =>
      cases h with
      | unwaited hended hclean hwaited hasked => exact .unwaited hended hclean hwaited hasked
      | verified remaining hw hseen => exact .verified remaining (waiting_frame hw rfl rfl rfl rfl hpast) hseen
      | unverified remaining err hw hne hwhy =>
        exact .unverified remaining err (waiting_frame hw rfl rfl rfl rfl hpast) hne hwhy
  | _ r =>
    rw [hs] at h
    exact ⟨waiting_frame h.1 rfl rfl rfl rfl hpast,h.2⟩

theorem placed_waited {remaining : List DrainedPod} (h : Waiting nodeName opts s remaining)
    (hne : remaining ≠ []) (hcurrent : s.pods ∈ s.past) (hw : Waited nodeName s remaining t) :
    Placed nodeName opts t := by
  have hprune := waiting_prune h hcurrent
  cases hw with
  | moved place hplace =>
    exact (placed_remaining hplace).mpr
      ⟨waiting_frame h rfl rfl rfl rfl fun _ hp => hp,hne⟩
  | pruned hleft =>
    exact (placed_remaining rfl).mpr ⟨waiting_frame hprune rfl rfl rfl rfl fun _ hp => hp,hleft⟩
  | verified =>
    refine Outcome.verified _ (waiting_frame hprune rfl rfl rfl rfl fun _ hp => hp) ⟨_,rfl,?_⟩
    intro p hp
    obtain ⟨q,hq,huid⟩ := List.any_eq_true.mp (List.mem_filter.mp hp).2
    exact ⟨q,hq,of_decide_eq_true huid⟩
  | cancelled err herr =>
    exact Outcome.unverified remaining err (waiting_frame h rfl rfl rfl rfl fun _ hp => hp) hne
      (.inl herr)
  | failed err =>
    exact Outcome.unverified remaining err (waiting_frame h rfl rfl rfl rfl fun _ hp => hp) hne
      (.inr rfl)

end Placed

section Calls

theorem remaining_mem (evicted : List DrainedPod) :
    (∀ p ∈ remainingOf evicted, p ∈ evicted) ∧ ∀ d ∈ evicted, ∃ p ∈ remainingOf evicted, p.uid = d.uid := by
  induction evicted using List.reverseRecOn with
  | nil => exact ⟨fun _ h => h,fun _ h => by cases h⟩
  | append_singleton evicted last ih =>
    have hlast : remainingOf (evicted++[last]) =
        (remainingOf evicted).filter (fun q => decide (q.uid ≠ last.uid))++[last] := by
      rw [remainingOf, List.foldl_append]
      rfl
    rw [hlast]
    constructor
    · intro p hp
      rcases List.mem_append.mp hp with hp | hp
      · exact List.mem_append_left _ (ih.1 p (List.mem_filter.mp hp).1)
      · exact List.mem_append_right _ hp
    · intro d hd
      by_cases huid : d.uid = last.uid
      · exact ⟨last,List.mem_append_right _ List.mem_cons_self,huid.symm⟩
      · rcases List.mem_append.mp hd with hd | hd
        · obtain ⟨p,hp,heq⟩ := ih.2 d hd
          refine ⟨p,List.mem_append_left _ (List.mem_filter.mpr ⟨hp,?_⟩),heq⟩
          exact decide_eq_true (heq ▸ huid)
        · exact absurd (congrArg (·.uid) (List.mem_singleton.mp hd)) huid

theorem all_ended (h : allFinished s = true) : AllEnded s := by
  intro i pod hpod
  obtain ⟨hi,-⟩ := List.getElem?_eq_some_iff.mp hpod
  have hfinished := List.all_eq_true.mp h i (List.mem_range.mpr hi)
  split at hfinished
  · next err herr => exact ⟨err,hpod,herr⟩
  · cases hfinished

theorem placed_join (h : s.result.waitedForDeletion = false ∧ Unwaited s.result)
    (hdone : allFinished s = true) :
    Placed nodeName opts (if opts.waitForDeletion ∧ s.evicted ≠ [] then
      { s with
        place := .waiting (remainingOf s.evicted)
        result := { s.result with waitedForDeletion := true } }
    else { s with place := .returned (.ok s.result.concluded) }) := by
  have hended := all_ended hdone
  split_ifs with hwait
  · obtain ⟨hsub,hcover⟩ := remaining_mem s.evicted
    have hne : remainingOf s.evicted ≠ [] := by
      intro hnil
      obtain ⟨d,hd⟩ := List.exists_mem_of_ne_nil _ hwait.2
      obtain ⟨p,hp,-⟩ := hcover d hd
      rw [hnil] at hp
      cases hp
    refine ⟨⟨hended,hwait.1,rfl,⟨h.2.pending,h.2.unconfirmed,h.2.error⟩,hsub,?_⟩,hne⟩
    intro d hd hno
    obtain ⟨p,hp,huid⟩ := hcover d hd
    exact absurd huid (hno p hp)
  · have hasked : opts.waitForDeletion = false ∨ s.evicted = [] := by
      by_cases hasked : opts.waitForDeletion = true
      · exact .inr (not_not.mp fun hne => hwait ⟨hasked,hne⟩)
      · exact .inl (Bool.not_eq_true _ ▸ hasked)
    exact Outcome.unwaited hended h.2 h.1 hasked

theorem records_result (h : Records s) (hnames : t.result.evictedPods = s.result.evictedPods)
    (herrors : t.result.errors = s.result.errors) (hchosen : t.toEvict = s.toEvict)
    (hworkers : t.workers = s.workers) (hevicted : t.evicted = s.evicted)
    (hadmitted : t.admitted = s.admitted) (hpast : ∀ pods ∈ s.past, pods ∈ t.past) : Records t := by
  refine records_frame h ?_ hevicted hnames herrors (fun e he => hadmitted ▸ he) hpast
  intro i pod err
  rw [Ended, Ended, hchosen, hworkers]

/-- What holds in every state of a run. -/
structure Reports (nodeName : Text) (opts : DrainOptions) (s : Drain) : Prop where
  tracks : Tracks nodeName opts s
  current : s.pods ∈ s.past
  records : Records s
  placed : Placed nodeName opts s

theorem reports_start (p : Population) : Reports nodeName opts (start p) where
  tracks := tracks_start p
  current := List.mem_cons_self
  records := by
    have hno : ∀ i pod err, ¬Ended (start p) i pod err := fun i pod err h => nomatch h.1
    constructor
    · intro d
      simp only [hno, false_and, exists_false, iff_false]
      exact List.not_mem_nil
    · rfl
    · intro e
      simp only [hno, false_and, exists_false, iff_false]
      exact List.not_mem_nil
    · exact fun i pod h => absurd h (hno i pod none)
  placed := ⟨fun _ => rfl,rfl,rfl,rfl⟩

theorem listed_reports (hplace : s.place = .listing) (hp : Placed nodeName opts s) :
    Records (listPods nodeName opts s) ∧ Placed nodeName opts (listPods nodeName opts s) := by
  unfold Placed at hp
  rw [hplace] at hp
  obtain ⟨hready,hevicted,hresult,-⟩ := hp
  have hworkers : (listPods nodeName opts s).workers = s.workers := by
    rw [listPods]
    split_ifs
    · rfl
    · rfl
  have hnone : (listPods nodeName opts s).evicted = [] := by
    rw [listPods]
    split_ifs
    · exact hevicted
    · exact hevicted
  have hrecorded : (listPods nodeName opts s).result.evictedPods = [] ∧
      (listPods nodeName opts s).result.errors = [] := by
    rw [listPods]
    split_ifs
    · exact ⟨congrArg (·.evictedPods) hresult,congrArg (·.errors) hresult⟩
    · exact ⟨congrArg (·.evictedPods) hresult,congrArg (·.errors) hresult⟩
  have hno : ∀ i pod err, ¬Ended (listPods nodeName opts s) i pod err := by
    rintro i pod err ⟨-,hend⟩
    rw [hworkers, hready i] at hend
    cases hend
  constructor
  · constructor
    · intro d
      simp only [hno, false_and, exists_false, iff_false, hnone]
      exact List.not_mem_nil
    · rw [hrecorded.1, hnone]
      rfl
    · intro e
      simp only [hno, false_and, exists_false, iff_false, hrecorded.2]
      exact List.not_mem_nil
    · exact fun i pod h => absurd h (hno i pod none)
  · rw [listPods]
    split_ifs with hempty
    · refine Outcome.unwaited ?_ ?_ (congrArg (·.waitedForDeletion) hresult) (.inr hevicted)
      · intro i pod hpod
        have hpod : (chosen opts (podsOn nodeName s.pods))[i]? = some pod := hpod
        rw [show chosen opts (podsOn nodeName s.pods) = [] from hempty] at hpod
        cases hpod
      · exact ⟨congrArg (·.pendingPods) hresult,congrArg (·.unconfirmedPods) hresult,
          congrArg (·.verificationError) hresult⟩
    · exact ⟨congrArg (·.waitedForDeletion) hresult,congrArg (·.pendingPods) hresult,
        congrArg (·.unconfirmedPods) hresult,congrArg (·.verificationError) hresult⟩

theorem worked_unwaited {i : ℕ} {pod : Pod} (hw : Worked s i pod t) (hplace : s.place = .evicting)
    (h : s.result.waitedForDeletion = false ∧ Unwaited s.result) : Placed nodeName opts t := by
  have hrecord : ∀ (u : Drain) (err : Option Text), u.place = .evicting →
      u.result.waitedForDeletion = false ∧ Unwaited u.result →
        Placed nodeName opts (record u i pod err) := by
    intro u err hu hclean
    unfold Placed
    cases err with
    | none =>
      rw [show (record u i pod none).place = .evicting from hu]
      exact ⟨hclean.1,hclean.2.pending,hclean.2.unconfirmed,hclean.2.error⟩
    | some err =>
      rw [show (record u i pod (some err)).place = .evicting from hu]
      exact ⟨hclean.1,hclean.2.pending,hclean.2.unconfirmed,hclean.2.error⟩
  cases hw with
  | moved w =>
    unfold Placed
    rw [show (setWorker s i w).place = .evicting from hplace]
    exact h
  | failed err => exact hrecord s _ hplace h
  | admitted victim stamp err => exact hrecord _ err hplace h
  | missing => exact hrecord s none hplace h

theorem call_reports {a : Act} (h : Reports nodeName opts s)
    (hcall : stepCall nodeName opts s a = some t) : Records t ∧ Placed nodeName opts t := by
  have hkeep : ∀ pods ∈ s.past, pods ∈ s.past := fun _ hp => hp
  have hp := h.placed
  cases a with
  | cordon err =>
    simp only [stepCall] at hcall
    split at hcall
    · obtain rfl := Option.some.inj hcall
      exact ⟨records_result h.records rfl rfl rfl rfl rfl rfl hkeep,trivial⟩
    · next hplace =>
      obtain rfl := Option.some.inj hcall
      unfold Placed at hp
      rw [hplace] at hp
      exact ⟨records_result h.records rfl rfl rfl rfl rfl rfl hkeep,hp⟩
    · cases hcall
  | list err =>
    simp only [stepCall] at hcall
    split at hcall
    · obtain rfl := Option.some.inj hcall
      exact ⟨records_result h.records rfl rfl rfl rfl rfl rfl hkeep,trivial⟩
    · next hplace =>
      obtain rfl := Option.some.inj hcall
      exact listed_reports hplace hp
    · cases hcall
  | work i move =>
    simp only [stepCall] at hcall
    split at hcall
    · next hplace hpod =>
      obtain ⟨hworking,hworked⟩ := work_cases hcall
      unfold Placed at hp
      rw [hplace] at hp
      exact ⟨records_worked h.records h.current hpod hworking hworked,
        worked_unwaited hworked hplace hp⟩
    · cases hcall
  | join =>
    simp only [stepCall] at hcall
    split at hcall
    · next hplace =>
      split_ifs at hcall with hdone hwait
      all_goals
        obtain rfl := Option.some.inj hcall
        unfold Placed at hp
        rw [hplace] at hp
        have hjoin := @placed_join nodeName opts s hp hdone
      · rw [if_pos hwait] at hjoin
        exact ⟨records_result h.records rfl rfl rfl rfl rfl rfl hkeep,hjoin⟩
      · rw [if_neg hwait] at hjoin
        exact ⟨records_result h.records rfl rfl rfl rfl rfl rfl hkeep,hjoin⟩
    · cases hcall
  | _ => cases hcall

theorem around_fields {a : Act} (h : stepAround s a = some t) :
    t.place = s.place ∧ t.workers = s.workers ∧ t.evicted = s.evicted ∧ t.result = s.result ∧
      t.toEvict = s.toEvict ∧ t.admitted = s.admitted ∧ t.past = s.past := by
  cases a with
  | remove uid =>
    obtain rfl := Option.some.inj h
    exact ⟨rfl,rfl,rfl,rfl,rfl,rfl,rfl⟩
  | alter pod =>
    obtain rfl := Option.some.inj h
    exact ⟨rfl,rfl,rfl,rfl,rfl,rfl,rfl⟩
  | create pod =>
    simp only [stepAround] at h
    split_ifs at h
    obtain rfl := Option.some.inj h
    exact ⟨rfl,rfl,rfl,rfl,rfl,rfl,rfl⟩
  | cancel err =>
    simp only [stepAround] at h
    split_ifs at h
    obtain rfl := Option.some.inj h
    exact ⟨rfl,rfl,rfl,rfl,rfl,rfl,rfl⟩
  | deadline =>
    simp only [stepAround] at h
    split_ifs at h
    obtain rfl := Option.some.inj h
    exact ⟨rfl,rfl,rfl,rfl,rfl,rfl,rfl⟩
  | _ => cases h

theorem waited_records {remaining : List DrainedPod} (h : Records s)
    (hw : Waited nodeName s remaining t) : Records t := by
  have hkeep : ∀ pods ∈ s.past, pods ∈ s.past := fun _ hp => hp
  cases hw with
  | moved place => exact records_result h rfl rfl rfl rfl rfl rfl hkeep
  | pruned => exact records_result h rfl rfl rfl rfl rfl rfl hkeep
  | verified => exact records_result h rfl rfl rfl rfl rfl rfl hkeep
  | cancelled => exact records_result h rfl rfl rfl rfl rfl rfl hkeep
  | failed => exact records_result h rfl rfl rfl rfl rfl rfl hkeep

theorem reports_step {a : Act} (h : Reports nodeName opts s)
    (hstep : step nodeName opts s a = some t) : Reports nodeName opts t := by
  have htracks := tracks_step h.tracks hstep
  obtain ⟨u,hu,rfl,hopen⟩ := step_parts hstep
  have hboth : Records u ∧ Placed nodeName opts u := by
    rcases hu with hu | hu | hu
    · obtain ⟨hplace,hworkers,hevicted,hresult,hchosen,hadmitted,hpast⟩ := around_fields hu
      have hkeep : ∀ pods ∈ s.past, pods ∈ u.past := fun _ hp => hpast ▸ hp
      exact ⟨records_result h.records (by rw [hresult]) (by rw [hresult]) hchosen hworkers hevicted
        hadmitted hkeep,placed_frame h.placed hopen hplace hchosen hworkers hevicted hresult hkeep⟩
    · exact call_reports h hu
    · obtain ⟨remaining,hremaining,hwaited⟩ := wait_cases hu
      obtain ⟨hwaiting,hne⟩ := (placed_remaining hremaining).mp h.placed
      exact ⟨waited_records h.records hwaited,placed_waited hwaiting hne h.current hwaited⟩
  have hmore : ∀ pods ∈ u.past, pods ∈ u.pods::u.past := fun _ hp => List.mem_cons_of_mem _ hp
  exact ⟨htracks,List.mem_cons_self,records_result hboth.1 rfl rfl rfl rfl rfl rfl hmore,
    placed_past hboth.2 hmore⟩

theorem reports_run {p : Population} {as : List Act}
    (h : run (step nodeName opts) (start p) as = some s) : Reports nodeName opts s :=
  run_invariant (fun _ _ _ hs hstep => reports_step hs hstep) (reports_start p) h

end Calls

section Truthful

def nameOf (pod : Pod) : Text := podName pod.ns pod.name

def InSkipped (r : DrainResult) (pod : Pod) : Prop :=
  ∃ d ∈ r.skippedPods, d.ns = pod.ns ∧ d.name = pod.name

def InEvicted (r : DrainResult) (pod : Pod) : Prop := nameOf pod ∈ r.evictedPods

def InErrors (r : DrainResult) (pod : Pod) : Prop := ∃ err, errorOf pod err ∈ r.errors

def ExpectedSkip (opts : DrainOptions) (pod : Pod) : Prop :=
  (ClassifyPodForDrain pod opts none).outcome = .skip ∧
    (ClassifyPodForDrain pod opts none).expectedSkip = true

theorem podName_inj {ns ns' name name' : Name} (h : podName ns name = podName ns' name') :
    ns = ns' ∧ name = name' := by
  obtain ⟨hns,hname⟩ := Join.append_sep_inj ns.2.1 ns'.2.1 h
  exact ⟨Subtype.ext hns,Subtype.ext hname⟩

theorem colon_free (ns name : Name) : ':' ∉ podName ns name := by
  rw [podName, List.mem_append, List.mem_cons, not_or, not_or]
  exact ⟨ns.2.2,by decide,name.2.2⟩

theorem errorOf_inj {p q : Pod} {e e' : Text} (h : errorOf p e = errorOf q e') :
    keyOf p = keyOf q := by
  have hcut : podName p.ns p.name++ ':'::( ' '::e) = podName q.ns q.name++ ':'::( ' '::e') := by
    rw [errorOf, errorOf, List.append_assoc, List.append_assoc] at h
    exact h
  obtain ⟨hname,-⟩ := Join.append_sep_inj (colon_free _ _) (colon_free _ _) hcut
  obtain ⟨hns,hname⟩ := podName_inj hname
  exact Prod.ext hns hname

/-- What `DrainNode` says of the listed pods is so. -/
structure Truthful (nodeName : Text) (opts : DrainOptions) (s : Drain) (r : DrainResult) : Prop where
  split : ∀ pod ∈ s.listed,
    (InSkipped r pod ∧ ¬InEvicted r pod ∧ ¬InErrors r pod) ∨
    (¬InSkipped r pod ∧ InEvicted r pod ∧ ¬InErrors r pod) ∨
    (¬InSkipped r pod ∧ ¬InEvicted r pod ∧ InErrors r pod)
  apart : r.waitedForDeletion = true → ∀ name ∈ r.evictedPods,
    ¬(name ∈ r.pendingPods ∧ name ∈ r.unconfirmedPods)
  departed : r.waitedForDeletion = true → ∀ pod ∈ s.listed, InEvicted r pod →
    nameOf pod ∉ r.pendingPods → nameOf pod ∉ r.unconfirmedPods → Absent nodeName s.past pod.uid
  seen : ∀ name ∈ r.pendingPods, ∃ pod ∈ s.listed, nameOf pod = name ∧
    ∃ l, s.lists.head? = some l ∧ ∃ q ∈ l, q.uid = pod.uid
  complete : r.outcome = some .complete →
    ∀ pod ∈ s.listed, ExpectedSkip opts pod ∨ Absent nodeName s.past pod.uid
  accepted : r.outcome = some .unconfirmed ∨ r.outcome = some .started →
    ∀ pod ∈ s.listed, ExpectedSkip opts pod ∨ Accepted s pod
  started : r.outcome = some .started → opts.waitForDeletion = false
  unconfirmed : r.outcome = some .unconfirmed → s.finalFailed = true ∨ s.callerErr.isSome = true

theorem mem_pending {remaining : List DrainedPod} {name : Text} :
    name ∈ pendingPodNames remaining ↔ ∃ p ∈ remaining, podName p.ns p.name = name := by
  rw [pendingPodNames, List.mem_insertionSort, List.mem_map]

section Listed

variable (h : Reports nodeName opts s) {pod q : Pod}
include h

theorem listed_key (hp : pod ∈ s.listed) (hq : q ∈ s.listed) (hkey : keyOf q = keyOf pod) : q = pod :=
  List.inj_on_of_nodup_map h.tracks.atNames (h.tracks.listed q hq).1 (h.tracks.listed pod hp).1 hkey

theorem listed_uid (hp : pod ∈ s.listed) (hq : q ∈ s.listed) (huid : q.uid = pod.uid) : q = pod :=
  List.inj_on_of_nodup_map h.tracks.atUids (h.tracks.listed q hq).1 (h.tracks.listed pod hp).1 huid

theorem ended_listed {i : ℕ} {err : Option Text} (hend : Ended s i q err) :
    q ∈ s.listed ∧ (ClassifyPodForDrain q opts none).outcome ≠ .skip :=
  h.tracks.toEvict q (List.mem_of_getElem? hend.1)

theorem ended_once {i j : ℕ} {err err' : Option Text} (hi : Ended s i pod err)
    (hj : Ended s j pod err') : err = err' := by
  have hnodup : s.toEvict.Nodup := by
    rw [h.tracks.split.2, h.tracks.view]
    have hat : s.atList.Nodup := List.Nodup.of_map keyOf h.tracks.atNames
    exact (hat.filter _).filter _
  obtain ⟨hlt,-⟩ := List.getElem?_eq_some_iff.mp hi.1
  obtain rfl := (List.getElem?_inj hlt hnodup).mp (hi.1.trans hj.1.symm)
  have hsame := hi.2.symm.trans hj.2
  rwa [Worker.finished.injEq] at hsame

theorem evicted_ended (hpod : pod ∈ s.listed) (hin : nameOf pod ∈ s.result.evictedPods) :
    ∃ i, Ended s i pod none := by
  rw [h.records.names, List.mem_map] at hin
  obtain ⟨d,hd,hname⟩ := hin
  obtain ⟨i,q,hend,rfl⟩ := (h.records.evicted d).mp hd
  obtain ⟨hns,hname⟩ := podName_inj hname
  obtain rfl := listed_key h hpod (ended_listed h hend).1 (Prod.ext hns hname)
  exact ⟨i,hend⟩

theorem errors_ended (hpod : pod ∈ s.listed) {err : Text} (hin : errorOf pod err ∈ s.result.errors) :
    ∃ i err', Ended s i pod (some err') := by
  obtain ⟨i,q,err',hend,heq⟩ := (h.records.errors _).mp hin
  obtain rfl := listed_key h hpod (ended_listed h hend).1 (errorOf_inj heq).symm
  exact ⟨i,err',hend⟩

theorem skipped_outcome (hpod : pod ∈ s.listed) {d : PodDrainDecision}
    (hd : d ∈ s.result.skippedPods) (hns : d.ns = pod.ns) (hname : d.name = pod.name) :
    d = ClassifyPodForDrain pod opts none ∧ (ClassifyPodForDrain pod opts none).outcome = .skip := by
  rw [h.tracks.split.1] at hd
  obtain ⟨hd,hskip⟩ := List.mem_filter.mp hd
  obtain ⟨q,hq,rfl⟩ := List.mem_map.mp hd
  obtain ⟨hqns,hqname⟩ := classify_names q opts none
  obtain rfl := listed_key h hpod hq (Prod.ext (hqns.symm.trans hns) (hqname.symm.trans hname))
  exact ⟨rfl,of_decide_eq_true hskip⟩

/-- Every listed pod is in one of the three lists that were recorded. -/
theorem listed_split (hended : AllEnded s) (hpod : pod ∈ s.listed) :
    (InSkipped s.result pod ∧ ¬InEvicted s.result pod ∧ ¬InErrors s.result pod) ∨
    (¬InSkipped s.result pod ∧ InEvicted s.result pod ∧ ¬InErrors s.result pod) ∨
    (¬InSkipped s.result pod ∧ ¬InEvicted s.result pod ∧ InErrors s.result pod) := by
  have hskipped : InSkipped s.result pod → (ClassifyPodForDrain pod opts none).outcome = .skip := by
    rintro ⟨d,hd,hns,hname⟩
    exact (skipped_outcome h hpod hd hns hname).2
  by_cases hskip : (ClassifyPodForDrain pod opts none).outcome = .skip
  · left
    refine ⟨⟨ClassifyPodForDrain pod opts none,?_,classify_names pod opts none⟩,?_,?_⟩
    · rw [h.tracks.split.1, skipped, List.mem_filter]
      exact ⟨List.mem_map_of_mem hpod,decide_eq_true hskip⟩
    · intro hin
      obtain ⟨i,hend⟩ := evicted_ended h hpod hin
      exact (ended_listed h hend).2 hskip
    · rintro ⟨err,hin⟩
      obtain ⟨i,err',hend⟩ := errors_ended h hpod hin
      exact (ended_listed h hend).2 hskip
  · right
    have hchosen : pod ∈ s.toEvict := by
      rw [h.tracks.split.2, chosen, List.mem_filter]
      exact ⟨hpod,decide_eq_true hskip⟩
    obtain ⟨i,hi⟩ := List.mem_iff_getElem?.mp hchosen
    obtain ⟨err,hend⟩ := hended i pod hi
    cases err with
    | none =>
      left
      refine ⟨fun hin => hskip (hskipped hin),?_,?_⟩
      · rw [InEvicted, h.records.names]
        exact List.mem_map.mpr
          ⟨drainedOf pod,(h.records.evicted _).mpr ⟨i,pod,hend,rfl⟩,rfl⟩
      · rintro ⟨err,hin⟩
        obtain ⟨j,err',hend'⟩ := errors_ended h hpod hin
        cases ended_once h hend hend'
    | some err =>
      right
      refine ⟨fun hin => hskip (hskipped hin),?_,err,(h.records.errors _).mpr ⟨i,pod,err,hend,rfl⟩⟩
      intro hin
      obtain ⟨j,hend'⟩ := evicted_ended h hpod hin
      cases ended_once h hend hend'

/-- Without errors and blocking skips every listed pod is an expected skip or was evicted. -/
theorem listed_settled (hended : AllEnded s) (herrors : s.result.errors = [])
    (hskips : s.result.skippedPods.any (·.blocksDrain) = false) (hpod : pod ∈ s.listed) :
    ExpectedSkip opts pod ∨ InEvicted s.result pod := by
  rcases listed_split h hended hpod with ⟨⟨d,hd,hns,hname⟩,-⟩ | ⟨-,hin,-⟩ | ⟨-,-,err,hin⟩
  · left
    have hpass := List.any_eq_false.mp hskips d hd
    obtain ⟨rfl,hskip⟩ := skipped_outcome h hpod hd hns hname
    rw [PodDrainDecision.blocksDrain, decide_eq_true hskip] at hpass
    exact ⟨hskip,by simpa using hpass⟩
  · exact .inr hin
  · rw [herrors] at hin
    nomatch hin

variable {remaining : List DrainedPod}

theorem remaining_listed (hwaiting : Waiting nodeName opts s remaining) {p : DrainedPod}
    (hp : p ∈ remaining) : ∃ q ∈ s.listed, p = drainedOf q := by
  obtain ⟨i,q,hend,rfl⟩ := (h.records.evicted p).mp (hwaiting.left p hp)
  exact ⟨q,(ended_listed h hend).1,rfl⟩

theorem departed_absent (hwaiting : Waiting nodeName opts s remaining) (hpod : pod ∈ s.listed)
    (hin : InEvicted s.result pod) (hnot : nameOf pod ∉ pendingPodNames remaining) :
    Absent nodeName s.past pod.uid := by
  obtain ⟨i,hend⟩ := evicted_ended h hpod hin
  apply hwaiting.gone (drainedOf pod) ((h.records.evicted _).mpr ⟨i,pod,hend,rfl⟩)
  intro p hp huid
  obtain ⟨q,hq,rfl⟩ := remaining_listed h hwaiting hp
  obtain rfl := listed_uid h hpod hq huid
  exact hnot (mem_pending.mpr ⟨drainedOf q,hp,rfl⟩)

end Listed

section Outcomes

variable {r : DrainResult}

theorem not_incomplete (h : r.completionOutcome ≠ .incomplete) :
    r.errors = [] ∧ r.pendingPods = [] ∧ r.skippedPods.any (·.blocksDrain) = false := by
  rw [DrainResult.completionOutcome] at h
  by_cases hlists : r.errors ≠ [] ∨ r.pendingPods ≠ []
  · rw [if_pos hlists] at h
    exact absurd rfl h
  · rw [if_neg hlists] at h
    by_cases hskips : r.skippedPods.any (·.blocksDrain) = true
    · rw [if_pos hskips] at h
      exact absurd rfl h
    · rw [not_or, not_not, not_not] at hlists
      exact ⟨hlists.1,hlists.2,Bool.not_eq_true _ ▸ hskips⟩

theorem complete_facts (h : r.completionOutcome = .complete) :
    r.unconfirmedPods = [] ∧ (r.evictedPods ≠ [] → r.waitedForDeletion = true) := by
  unfold DrainResult.completionOutcome at h
  split_ifs at h with _ _ hunconfirmed hstarted
  rw [not_or, not_not] at hunconfirmed
  refine ⟨hunconfirmed.1,fun hne => ?_⟩
  by_contra hwaited
  exact hstarted ⟨hne,by simpa using hwaited⟩

theorem started_facts (h : r.completionOutcome = .started) :
    r.unconfirmedPods = [] ∧ r.evictedPods ≠ [] ∧ r.waitedForDeletion = false := by
  unfold DrainResult.completionOutcome at h
  split_ifs at h with _ _ hunconfirmed hstarted
  rw [not_or, not_not] at hunconfirmed
  exact ⟨hunconfirmed.1,hstarted.1,by simpa using hstarted.2⟩

theorem unconfirmed_facts (h : r.completionOutcome = .unconfirmed) :
    r.unconfirmedPods ≠ [] ∨ r.verificationError ≠ [] := by
  unfold DrainResult.completionOutcome at h
  split_ifs at h with _ _ hunconfirmed
  exact hunconfirmed

theorem result_settled (h : r.concluded.outcome = some .unconfirmed ∨
    r.concluded.outcome = some .started) : r.completionOutcome ≠ .incomplete := by
  rcases h with h | h
  · rw [Option.some.inj h]
    exact nofun
  · rw [Option.some.inj h]
    exact nofun

theorem accepted_pods (h : Reports nodeName opts s) (hended : AllEnded s)
    (herrors : s.result.errors = []) (hskips : s.result.skippedPods.any (·.blocksDrain) = false) :
    ∀ pod ∈ s.listed, ExpectedSkip opts pod ∨ Accepted s pod := by
  intro pod hpod
  rcases listed_settled h hended herrors hskips hpod with hskip | hin
  · exact .inl hskip
  · obtain ⟨i,hend⟩ := evicted_ended h hpod hin
    exact .inr (h.records.accepted i pod hend)

theorem outcome_truthful (h : Reports nodeName opts s) (hout : Outcome nodeName opts s r) :
    Truthful nodeName opts s r := by
  cases hout with
  | unwaited hended hclean hwaited hasked =>
    constructor
    · exact fun pod hpod => listed_split h hended hpod
    · exact fun hyes => absurd (hwaited.symm.trans hyes) Bool.false_ne_true
    · exact fun hyes => absurd (hwaited.symm.trans hyes) Bool.false_ne_true
    · intro name hname
      have hname : name ∈ s.result.pendingPods := hname
      rw [hclean.pending] at hname
      nomatch hname
    · intro hcomplete pod hpod
      have hcomplete := Option.some.inj hcomplete
      obtain ⟨herrors,-,hskips⟩ := not_incomplete (by rw [hcomplete]; exact nofun)
      obtain ⟨-,hwaits⟩ := complete_facts hcomplete
      rcases listed_settled h hended herrors hskips hpod with hskip | hin
      · exact .inl hskip
      · exact absurd (hwaited.symm.trans (hwaits (List.ne_nil_of_mem hin))) Bool.false_ne_true
    · intro hresult
      obtain ⟨herrors,-,hskips⟩ := not_incomplete (result_settled hresult)
      exact accepted_pods h hended herrors hskips
    · intro hstarted
      obtain ⟨-,hne,-⟩ := started_facts (Option.some.inj hstarted)
      rcases hasked with hasked | hnone
      · exact hasked
      · have hnames : s.result.evictedPods ≠ [] := hne
        rw [h.records.names, hnone] at hnames
        exact absurd rfl hnames
    · intro hunconfirmed
      rcases unconfirmed_facts (Option.some.inj hunconfirmed) with hne | hne
      · exact absurd hclean.unconfirmed hne
      · exact absurd hclean.error hne
  | verified remaining hwaiting hseen =>
    constructor
    · exact fun pod hpod => listed_split h hwaiting.ended hpod
    · rintro - name - ⟨-,hunconfirmed⟩
      have hunconfirmed : name ∈ s.result.unconfirmedPods := hunconfirmed
      rw [hwaiting.clean.unconfirmed] at hunconfirmed
      nomatch hunconfirmed
    · exact fun _ pod hpod hin hnot _ => departed_absent h hwaiting hpod hin hnot
    · intro name hname
      obtain ⟨l,hl,hall⟩ := hseen
      obtain ⟨p,hp,hname⟩ := mem_pending.mp hname
      obtain ⟨q,hq,rfl⟩ := remaining_listed h hwaiting hp
      exact ⟨q,hq,hname,l,hl,hall _ hp⟩
    · intro hcomplete pod hpod
      have hcomplete := Option.some.inj hcomplete
      obtain ⟨herrors,hpending,hskips⟩ := not_incomplete (by rw [hcomplete]; exact nofun)
      have hpending : pendingPodNames remaining = [] := hpending
      rcases listed_settled h hwaiting.ended herrors hskips hpod with hskip | hin
      · exact .inl hskip
      · apply Or.inr
        apply departed_absent h hwaiting hpod hin
        rw [hpending]
        exact List.not_mem_nil
    · intro hresult
      obtain ⟨herrors,-,hskips⟩ := not_incomplete (result_settled hresult)
      exact accepted_pods h hwaiting.ended herrors hskips
    · intro hstarted
      obtain ⟨-,-,hnot⟩ := started_facts (Option.some.inj hstarted)
      exact absurd (hwaiting.waited.symm.trans hnot) (Ne.symm Bool.false_ne_true)
    · intro hunconfirmed
      rcases unconfirmed_facts (Option.some.inj hunconfirmed) with hne | hne
      · exact absurd hwaiting.clean.unconfirmed hne
      · exact absurd hwaiting.clean.error hne
  | unverified remaining err hwaiting hne hwhy =>
    have hnames : pendingPodNames remaining ≠ [] := by
      obtain ⟨p,hp⟩ := List.exists_mem_of_ne_nil remaining hne
      exact List.ne_nil_of_mem (mem_pending.mpr ⟨p,hp,rfl⟩)
    constructor
    · exact fun pod hpod => listed_split h hwaiting.ended hpod
    · rintro - name - ⟨hpending,-⟩
      have hpending : name ∈ s.result.pendingPods := hpending
      rw [hwaiting.clean.pending] at hpending
      nomatch hpending
    · exact fun _ pod hpod hin _ hnot => departed_absent h hwaiting hpod hin hnot
    · intro name hname
      have hname : name ∈ s.result.pendingPods := hname
      rw [hwaiting.clean.pending] at hname
      nomatch hname
    · intro hcomplete
      exact absurd (complete_facts (Option.some.inj hcomplete)).1 hnames
    · intro hresult
      obtain ⟨herrors,-,hskips⟩ := not_incomplete (result_settled hresult)
      exact accepted_pods h hwaiting.ended herrors hskips
    · intro hstarted
      exact absurd (started_facts (Option.some.inj hstarted)).1 hnames
    · intro _
      rcases hwhy with hcaller | hfailed
      · exact .inr (by rw [show s.callerErr = some err from hcaller]; rfl)
      · exact .inl hfailed

/-- The pod is evicted and seen to be gone. -/
def awaited : Option Drain :=
  run (step "worker-1".toList { waitForDeletion := true }) (start onlyWeb0)
    (evictWeb0 []++[Act.look,.poll none])

def reported (s : Drain) : DrainResult :=
  match s.place with
  | .returned (.ok r) => r
  | _ => {}

end Outcomes

end Truthful

end Radar.NodeDrain
