import Radar.NodeDrain.Drain

/-!
# Which pods a drain evicts

An eviction names a pod and meets whatever is stored under the name. It meets
the pod it was meant for unless that pod was replaced after the list.
-/

set_option autoImplicit false

namespace Radar.NodeDrain
open Radar.Run

variable {nodeName : Text} {opts : DrainOptions} {s t : Drain}

section Identity

def ident (pod : Pod) : Name × Name × Text := (pod.ns,pod.name,pod.uid)

def keyOf (pod : Pod) : Name × Name := (pod.ns,pod.name)

theorem sameKey_iff {ns name : Name} {pod : Pod} :
    sameKey ns name pod = true ↔ pod.ns = ns ∧ pod.name = name := decide_eq_true_iff

theorem alter_ident (pods : List Pod) (pod : Pod) :
    (alterPod pods pod).map ident = pods.map ident := by
  rw [alterPod, List.map_map]
  apply List.map_congr_left
  intro q _
  rw [Function.comp_apply]
  split_ifs with hsame
  · obtain ⟨huid,hns,hname⟩ := hsame
    rw [ident, ident, huid, hns, hname]
  · rfl

theorem delete_ident (pods : List Pod) (victim : Pod) (stamp : Option ℤ) :
    ((deletePod pods victim stamp).map ident).Sublist (pods.map ident) := by
  cases stamp with
  | none => exact List.filter_sublist.map ident
  | some stamp =>
    rw [deletePod, alter_ident]

end Identity

section Steps

/-- Nothing was listed yet. -/
def Early : Place → Prop
  | .cordoning | .listing => True
  | _ => False

/-- A step that creates no pod and does not list: pods may go, and one stored under the name of a
chosen pod may be evicted for it. -/
structure Keeps (s t : Drain) : Prop where
  pods : (t.pods.map ident).Sublist (s.pods.map ident)
  used : t.used = s.used
  atList : t.atList = s.atList
  listed : t.listed = s.listed
  toEvict : t.toEvict = s.toEvict
  admitted : t.admitted = s.admitted ∨ ∃ pod ∈ s.toEvict, ∃ victim ∈ s.pods,
    keyOf victim = keyOf pod ∧ t.admitted = (pod,victim)::s.admitted
  skipped : t.result.skippedPods = s.result.skippedPods
  early : Early t.place → Early s.place

theorem keeps_of_same (hpods : t.pods = s.pods) (hused : t.used = s.used)
    (hat : t.atList = s.atList) (hlisted : t.listed = s.listed) (hchosen : t.toEvict = s.toEvict)
    (hadmitted : t.admitted = s.admitted) (hskipped : t.result.skippedPods = s.result.skippedPods)
    (hearly : Early t.place → Early s.place) : Keeps s t :=
  ⟨hpods ▸ List.Sublist.refl _,hused,hat,hlisted,hchosen,.inl hadmitted,hskipped,hearly⟩

theorem keeps_record (i : ℕ) (pod : Pod) (err : Option Text) : Keeps s (record s i pod err) := by
  cases err with
  | none => exact keeps_of_same rfl rfl rfl rfl rfl rfl rfl id
  | some err => exact keeps_of_same rfl rfl rfl rfl rfl rfl rfl id

theorem keeps_worker (i : ℕ) (w : Worker) : Keeps s (setWorker s i w) :=
  keeps_of_same rfl rfl rfl rfl rfl rfl rfl id

/-- What a step of the goroutine of `pod` does. -/
inductive Worked (s : Drain) (i : ℕ) (pod : Pod) : Drain → Prop where
  | moved (w : Worker) (h : ∀ err, w ≠ .finished err) : Worked s i pod (setWorker s i w)
  | failed (err : Text) : Worked s i pod (record s i pod (some err))
  | admitted (victim : Pod) (stamp : Option ℤ) (err : Option Text) (hmem : victim ∈ s.pods)
      (hkey : keyOf victim = keyOf pod) :
      Worked s i pod (record
        { s with
          pods := deletePod s.pods victim stamp
          admitted := (pod,victim)::s.admitted } i pod err)
  | missing (h : ∀ q ∈ s.pods, keyOf q ≠ keyOf pod) : Worked s i pod (record s i pod none)

theorem serve_cases {i : ℕ} {pod : Pod} {a : Answer} (h : serve opts s i pod a = some t) :
    Worked s i pod t := by
  cases a with
  | admitted stamp lost =>
    simp only [serve] at h
    split at h
    · cases h
    · next victim hvictim =>
      split_ifs at h
      obtain rfl := Option.some.inj h
      obtain ⟨hns,hname⟩ := sameKey_iff.mp (List.find?_some hvictim)
      exact .admitted victim stamp _ (List.mem_of_find?_eq_some hvictim) (Prod.ext hns hname)
  | notFound =>
    simp only [serve] at h
    split_ifs at h with hany
    obtain rfl := Option.some.inj h
    apply Worked.missing
    intro q hq heq
    rw [Bool.not_eq_true, List.any_eq_false] at hany
    exact hany q hq (sameKey_iff.mpr (Prod.mk.inj heq))
  | tooManyRequests =>
    obtain rfl := Option.some.inj h
    exact .moved .backingOff fun _ => Worker.noConfusion
  | failed err =>
    obtain rfl := Option.some.inj h
    exact .failed _

theorem work_cases {i : ℕ} {pod : Pod} {move : Move} (h : work opts s i pod move = some t) :
    (∀ err, s.workers i ≠ .finished err) ∧ Worked s i pod t := by
  cases move with
  | acquire =>
    simp only [work] at h
    split at h
    · next hworker =>
      split_ifs at h
      obtain rfl := Option.some.inj h
      exact ⟨by simp [hworker],.moved _ fun _ => Worker.noConfusion⟩
    · cases h
  | giveUp =>
    simp only [work] at h
    split at h
    · next hworker _ =>
      obtain rfl := Option.some.inj h
      exact ⟨by simp [hworker],.failed _⟩
    · cases h
  | check =>
    simp only [work] at h
    split at h
    · next hworker _ =>
      obtain rfl := Option.some.inj h
      exact ⟨by simp [hworker],.failed _⟩
    · next hworker _ =>
      obtain rfl := Option.some.inj h
      exact ⟨by simp [hworker],.moved _ fun _ => Worker.noConfusion⟩
    · cases h
  | answer a =>
    simp only [work] at h
    split at h
    · next hworker => exact ⟨by simp [hworker],serve_cases h⟩
    · cases h
  | resume =>
    simp only [work] at h
    split at h
    · next hworker =>
      obtain rfl := Option.some.inj h
      exact ⟨by simp [hworker],.moved _ fun _ => Worker.noConfusion⟩
    · cases h
  | expire =>
    simp only [work] at h
    split at h
    · next hworker _ =>
      obtain rfl := Option.some.inj h
      exact ⟨by simp [hworker],.failed _⟩
    · cases h

theorem worked_keeps {i : ℕ} {pod : Pod} (hpod : pod ∈ s.toEvict) (h : Worked s i pod t) :
    Keeps s t := by
  cases h with
  | moved w => exact keeps_worker i w
  | failed err => exact keeps_record i pod _
  | admitted victim stamp err hmem hkey =>
    have hdelete := delete_ident s.pods victim stamp
    cases err with
    | none => exact ⟨hdelete,rfl,rfl,rfl,rfl,.inr ⟨pod,hpod,victim,hmem,hkey,rfl⟩,rfl,id⟩
    | some err => exact ⟨hdelete,rfl,rfl,rfl,rfl,.inr ⟨pod,hpod,victim,hmem,hkey,rfl⟩,rfl,id⟩
  | missing => exact keeps_record i pod none

/-- The pods that the wait still looks for. -/
def Place.remaining : Place → Option (List DrainedPod)
  | waiting remaining | polling remaining | unsettled remaining | checking remaining =>
    some remaining
  | _ => none

/-- What a step of the wait does with the pods it looks for. -/
inductive Waited (nodeName : Text) (s : Drain) (remaining : List DrainedPod) : Drain → Prop where
  | moved (place : Place) (h : place.remaining = some remaining) :
      Waited nodeName s remaining { s with place := place }
  | pruned (h : pruneDepartedPods (podsOn nodeName s.pods) remaining ≠ []) :
      Waited nodeName s remaining { sawPods nodeName s with
        place := .polling (pruneDepartedPods (podsOn nodeName s.pods) remaining) }
  | verified : Waited nodeName s remaining (settle (sawPods nodeName s)
      (pruneDepartedPods (podsOn nodeName s.pods) remaining) none)
  | cancelled (err : Text) (h : s.callerErr = some err) :
      Waited nodeName s remaining (settle s remaining (some err))
  | failed (err : Text) :
      Waited nodeName s remaining (settle { s with finalFailed := true } remaining (some err))

theorem wait_cases {a : Act} (h : stepWait nodeName s a = some t) :
    ∃ remaining, s.place.remaining = some remaining ∧ Waited nodeName s remaining t := by
  cases a with
  | look =>
    simp only [stepWait] at h
    split at h
    · next remaining hplace =>
      obtain rfl := Option.some.inj h
      refine ⟨remaining,hplace ▸ rfl,.moved _ ?_⟩
      split_ifs
      · rfl
      · rfl
    · cases h
  | poll err =>
    simp only [stepWait] at h
    split at h
    · next remaining _ hplace =>
      obtain rfl := Option.some.inj h
      exact ⟨remaining,hplace ▸ rfl,.moved s.place (hplace ▸ rfl)⟩
    · next remaining hplace =>
      split_ifs at h with hleft
      · obtain rfl := Option.some.inj h
        refine ⟨remaining,hplace ▸ rfl,?_⟩
        have hverified : Waited nodeName s remaining (settle (sawPods nodeName s)
            (pruneDepartedPods (podsOn nodeName s.pods) remaining) none) := .verified
        rwa [hleft] at hverified
      · obtain rfl := Option.some.inj h
        exact ⟨remaining,hplace ▸ rfl,.pruned hleft⟩
    · cases h
  | stopPolling =>
    simp only [stepWait] at h
    split at h
    · next remaining hplace =>
      split_ifs at h
      obtain rfl := Option.some.inj h
      exact ⟨remaining,hplace ▸ rfl,.moved _ rfl⟩
    · cases h
  | checkCaller =>
    simp only [stepWait] at h
    split at h
    · next remaining hplace =>
      split at h
      · next err herr =>
        obtain rfl := Option.some.inj h
        exact ⟨remaining,hplace ▸ rfl,.cancelled err herr⟩
      · obtain rfl := Option.some.inj h
        exact ⟨remaining,hplace ▸ rfl,.moved _ rfl⟩
    · cases h
  | finalCheck err =>
    simp only [stepWait] at h
    split at h
    · next remaining e hplace =>
      obtain rfl := Option.some.inj h
      exact ⟨remaining,hplace ▸ rfl,.failed e⟩
    · next remaining hplace =>
      obtain rfl := Option.some.inj h
      exact ⟨remaining,hplace ▸ rfl,.verified⟩
    · cases h
  | _ => cases h

theorem late_of_remaining {place : Place} {remaining : List DrainedPod}
    (h : place.remaining = some remaining) : ¬Early place := by
  cases place with
  | cordoning => cases h
  | listing => cases h
  | _ => exact id

theorem waited_keeps {remaining : List DrainedPod} (h : Waited nodeName s remaining t) :
    Keeps s t := by
  cases h with
  | moved place hplace =>
    exact keeps_of_same rfl rfl rfl rfl rfl rfl rfl fun hearly =>
      absurd hearly (late_of_remaining hplace)
  | pruned => exact keeps_of_same rfl rfl rfl rfl rfl rfl rfl False.elim
  | verified => exact keeps_of_same rfl rfl rfl rfl rfl rfl rfl False.elim
  | cancelled => exact keeps_of_same rfl rfl rfl rfl rfl rfl rfl False.elim
  | failed => exact keeps_of_same rfl rfl rfl rfl rfl rfl rfl False.elim

theorem call_keeps {a : Act} (h : stepCall nodeName opts s a = some t) :
    Keeps s t ∨ (s.place = .listing ∧ t = listPods nodeName opts s) := by
  cases a with
  | cordon err =>
    simp only [stepCall] at h
    split at h
    · obtain rfl := Option.some.inj h
      exact .inl (keeps_of_same rfl rfl rfl rfl rfl rfl rfl False.elim)
    · next hplace =>
      obtain rfl := Option.some.inj h
      exact .inl (keeps_of_same rfl rfl rfl rfl rfl rfl rfl fun _ => hplace ▸ trivial)
    · cases h
  | list err =>
    simp only [stepCall] at h
    split at h
    · obtain rfl := Option.some.inj h
      exact .inl (keeps_of_same rfl rfl rfl rfl rfl rfl rfl False.elim)
    · next hplace => exact .inr ⟨hplace,(Option.some.inj h).symm⟩
    · cases h
  | work i move =>
    simp only [stepCall] at h
    split at h
    · next hpod => exact .inl (worked_keeps (List.mem_of_getElem? hpod) (work_cases h).2)
    · cases h
  | join =>
    simp only [stepCall] at h
    split at h
    · split_ifs at h
      · obtain rfl := Option.some.inj h
        exact .inl (keeps_of_same rfl rfl rfl rfl rfl rfl rfl False.elim)
      · obtain rfl := Option.some.inj h
        exact .inl (keeps_of_same rfl rfl rfl rfl rfl rfl rfl False.elim)
    · cases h
  | _ => cases h

theorem around_keeps {a : Act} (h : stepAround s a = some t) :
    Keeps s t ∨ ∃ pod, s.pods.any (sameKey pod.ns pod.name) = false ∧ pod.uid ∉ s.used ∧
      t = { s with pods := s.pods++[pod], used := pod.uid::s.used } := by
  cases a with
  | remove uid =>
    obtain rfl := Option.some.inj h
    exact .inl ⟨List.filter_sublist.map ident,rfl,rfl,rfl,rfl,.inl rfl,rfl,id⟩
  | alter pod =>
    obtain rfl := Option.some.inj h
    have hsame : ((alterPod s.pods pod).map ident).Sublist (s.pods.map ident) := by
      rw [alter_ident]
    exact .inl ⟨hsame,rfl,rfl,rfl,rfl,.inl rfl,rfl,id⟩
  | create pod =>
    simp only [stepAround] at h
    split_ifs at h with hfree
    exact .inr ⟨pod,by simpa using hfree.1,hfree.2,(Option.some.inj h).symm⟩
  | cancel err =>
    simp only [stepAround] at h
    split_ifs at h
    obtain rfl := Option.some.inj h
    exact .inl (keeps_of_same rfl rfl rfl rfl rfl rfl rfl id)
  | deadline =>
    simp only [stepAround] at h
    split_ifs at h
    obtain rfl := Option.some.inj h
    exact .inl (keeps_of_same rfl rfl rfl rfl rfl rfl rfl id)
  | _ => cases h

/-- A step is one of the cluster, of the call or of its wait, and what is stored is remembered. -/
theorem step_parts {a : Act} (h : step nodeName opts s a = some t) :
    ∃ u, (stepAround s a = some u ∨ stepCall nodeName opts s a = some u ∨
      stepWait nodeName s a = some u) ∧ t = { u with past := u.pods::u.past } ∧
      ∀ out, s.place ≠ .returned out := by
  rw [step] at h
  split at h
  · cases h
  · next hplace =>
    obtain ⟨u,hu,rfl⟩ := Option.map_eq_some_iff.mp h
    refine ⟨u,?_,rfl,hplace⟩
    rw [Option.or_eq_some_iff, Option.or_eq_some_iff] at hu
    tauto

end Steps

section Tracks

variable (nodeName opts)

/-- The pods that are stored and those that were stored at the list, and the evictions so far. -/
structure Tracks (s : Drain) : Prop where
  names : (s.pods.map keyOf).Nodup
  uids : (s.pods.map (·.uid)).Nodup
  used : ∀ p ∈ s.pods, p.uid ∈ s.used
  atNames : (s.atList.map keyOf).Nodup
  atUids : (s.atList.map (·.uid)).Nodup
  atUsed : ∀ a ∈ s.atList, a.uid ∈ s.used
  old : ∀ p ∈ s.pods, ∀ a ∈ s.atList, a.uid = p.uid → keyOf a = keyOf p
  view : s.listed = podsOn nodeName s.atList
  listed : ∀ p ∈ s.listed, p ∈ s.atList ∧ p.nodeName = nodeName
  toEvict : ∀ p ∈ s.toEvict, p ∈ s.listed ∧ (ClassifyPodForDrain p opts none).outcome ≠ .skip
  early : Early s.place → s.toEvict = []
  split : s.result.skippedPods = skipped opts s.listed ∧ s.toEvict = chosen opts s.listed
  admitted : ∀ e ∈ s.admitted, e.1 ∈ s.toEvict ∧ ∀ a ∈ s.atList, a.uid = e.2.uid → keyOf a = keyOf e.1

variable {nodeName opts}

theorem tracks_start (p : Population) : Tracks nodeName opts (start p) where
  names := by
    rw [List.Nodup, List.pairwise_map]
    exact p.names.imp fun hne heq => hne (Prod.mk.inj heq)
  uids := by
    rw [List.Nodup, List.pairwise_map]
    exact p.uids
  used := fun q hq => List.mem_map_of_mem hq
  atNames := List.nodup_nil
  atUids := List.nodup_nil
  atUsed := fun _ h => nomatch h
  old := fun _ _ _ h => nomatch h
  view := rfl
  listed := fun _ h => nomatch h
  toEvict := fun _ h => nomatch h
  early := fun _ => rfl
  split := ⟨rfl,rfl⟩
  admitted := fun _ h => nomatch h

theorem tracks_keeps (h : Tracks nodeName opts s) (hk : Keeps s t) : Tracks nodeName opts t := by
  have hfrom : ∀ p ∈ t.pods, ∃ q ∈ s.pods, keyOf q = keyOf p ∧ q.uid = p.uid := by
    intro p hp
    obtain ⟨q,hq,heq⟩ := List.mem_map.mp (hk.pods.subset (List.mem_map_of_mem hp))
    obtain ⟨hns,hrest⟩ := Prod.mk.inj heq
    obtain ⟨hname,huid⟩ := Prod.mk.inj hrest
    exact ⟨q,hq,Prod.ext hns hname,huid⟩
  constructor
  · have hsub := hk.pods.map fun i => (i.1,i.2.1)
    rw [List.map_map, List.map_map] at hsub
    exact h.names.sublist hsub
  · have hsub := hk.pods.map fun i => i.2.2
    rw [List.map_map, List.map_map] at hsub
    exact h.uids.sublist hsub
  · intro p hp
    obtain ⟨q,hq,-,huid⟩ := hfrom p hp
    rw [hk.used, ← huid]
    exact h.used q hq
  · rw [hk.atList]
    exact h.atNames
  · rw [hk.atList]
    exact h.atUids
  · rw [hk.atList, hk.used]
    exact h.atUsed
  · rw [hk.atList]
    intro p hp a ha heq
    obtain ⟨q,hq,hkey,huid⟩ := hfrom p hp
    rw [← hkey]
    exact h.old q hq a ha (heq.trans huid.symm)
  · rw [hk.listed, hk.atList]
    exact h.view
  · rw [hk.listed, hk.atList]
    exact h.listed
  · rw [hk.toEvict, hk.listed]
    exact h.toEvict
  · rw [hk.toEvict]
    exact fun hearly => h.early (hk.early hearly)
  · rw [hk.toEvict, hk.listed, hk.skipped]
    exact h.split
  · rw [hk.toEvict, hk.atList]
    rcases hk.admitted with hsame | ⟨pod,hpod,victim,hvictim,hkey,hnew⟩
    · rw [hsame]
      exact h.admitted
    · rw [hnew]
      intro e he
      rcases List.mem_cons.mp he with rfl | he
      · exact ⟨hpod,fun a ha huid => (h.old victim hvictim a ha huid).trans hkey⟩
      · exact h.admitted e he

theorem tracks_create (h : Tracks nodeName opts s) {pod : Pod}
    (hname : s.pods.any (sameKey pod.ns pod.name) = false) (huid : pod.uid ∉ s.used) :
    Tracks nodeName opts { s with pods := s.pods++[pod], used := pod.uid::s.used } := by
  have hfree : ∀ p ∈ s.pods, keyOf p ≠ keyOf pod := by
    intro p hp heq
    have hno := List.any_eq_false.mp hname p hp
    exact hno (sameKey_iff.mpr (Prod.mk.inj heq))
  constructor
  · rw [List.map_append, List.map_singleton]
    apply h.names.append (List.nodup_singleton _)
    intro k hk hk'
    obtain ⟨p,hp,rfl⟩ := List.mem_map.mp hk
    exact hfree p hp (List.mem_singleton.mp hk')
  · rw [List.map_append, List.map_singleton]
    apply h.uids.append (List.nodup_singleton _)
    intro u hu hu'
    obtain ⟨p,hp,rfl⟩ := List.mem_map.mp hu
    exact huid (List.mem_singleton.mp hu' ▸ h.used p hp)
  · intro p hp
    rcases List.mem_append.mp hp with hp | hp
    · exact List.mem_cons_of_mem _ (h.used p hp)
    · rw [List.mem_singleton.mp hp]
      exact List.mem_cons_self
  · exact h.atNames
  · exact h.atUids
  · exact fun a ha => List.mem_cons_of_mem _ (h.atUsed a ha)
  · intro p hp a ha heq
    rcases List.mem_append.mp hp with hp | hp
    · exact h.old p hp a ha heq
    · rw [List.mem_singleton.mp hp] at heq
      exact absurd (heq ▸ h.atUsed a ha) huid
  · exact h.view
  · exact h.listed
  · exact h.toEvict
  · exact h.early
  · exact h.split
  · exact h.admitted

theorem tracks_list (h : Tracks nodeName opts s) (hplace : s.place = .listing) :
    Tracks nodeName opts (listPods nodeName opts s) := by
  have hnone : s.admitted = [] := by
    cases hadmitted : s.admitted with
    | nil => rfl
    | cons e es =>
      have hin := (h.admitted e (hadmitted ▸ List.mem_cons_self)).1
      rw [h.early (hplace ▸ trivial)] at hin
      nomatch hin
  have hold : ∀ p ∈ s.pods, ∀ a ∈ s.pods, a.uid = p.uid → keyOf a = keyOf p := by
    intro p hp a ha heq
    rw [List.inj_on_of_nodup_map h.uids ha hp heq]
  have hlisted : ∀ p ∈ podsOn nodeName s.pods, p ∈ s.pods ∧ p.nodeName = nodeName := by
    intro p hp
    obtain ⟨hin,hnode⟩ := List.mem_filter.mp hp
    exact ⟨hin,of_decide_eq_true hnode⟩
  have hchosen : ∀ p ∈ chosen opts (podsOn nodeName s.pods),
      p ∈ podsOn nodeName s.pods ∧ (ClassifyPodForDrain p opts none).outcome ≠ .skip := by
    intro p hp
    obtain ⟨hin,hout⟩ := List.mem_filter.mp hp
    exact ⟨hin,of_decide_eq_true hout⟩
  have hadmitted : ∀ e ∈ s.admitted, e.1 ∈ chosen opts (podsOn nodeName s.pods) ∧
      ∀ a ∈ s.pods, a.uid = e.2.uid → keyOf a = keyOf e.1 := by
    rw [hnone]
    exact fun _ he => nomatch he
  rw [listPods]
  split_ifs
  · exact ⟨h.names,h.uids,h.used,h.names,h.uids,h.used,hold,rfl,hlisted,hchosen,False.elim,⟨rfl,rfl⟩,hadmitted⟩
  · exact ⟨h.names,h.uids,h.used,h.names,h.uids,h.used,hold,rfl,hlisted,hchosen,False.elim,⟨rfl,rfl⟩,hadmitted⟩

theorem tracks_step {a : Act} (h : Tracks nodeName opts s)
    (hstep : step nodeName opts s a = some t) : Tracks nodeName opts t := by
  obtain ⟨u,hu,rfl,-⟩ := step_parts hstep
  have htracks : Tracks nodeName opts u := by
    rcases hu with hu | hu | hu
    · rcases around_keeps hu with hk | ⟨pod,hname,huid,rfl⟩
      · exact tracks_keeps h hk
      · exact tracks_create h hname huid
    · rcases call_keeps hu with hk | ⟨hplace,rfl⟩
      · exact tracks_keeps h hk
      · exact tracks_list h hplace
    · obtain ⟨remaining,-,hwaited⟩ := wait_cases hu
      exact tracks_keeps h (waited_keeps hwaited)
  obtain ⟨hnames,huids,hused,hatNames,hatUids,hatUsed,hold,hview,hlisted,hchosen,hearly,hsplit,hadmitted⟩ := htracks
  exact ⟨hnames,huids,hused,hatNames,hatUids,hatUsed,hold,hview,hlisted,hchosen,hearly,hsplit,hadmitted⟩

theorem tracks_run {p : Population} {as : List Act}
    (h : run (step nodeName opts) (start p) as = some s) : Tracks nodeName opts s :=
  run_invariant (fun _ _ _ hs hstep => tracks_step hs hstep) (tracks_start p) h

end Tracks

section Exact

/-- The pod that an eviction met was listed on the node and chosen. -/
def Chosen (nodeName : Text) (opts : DrainOptions) (s : Drain) (victim : Pod) : Prop :=
  ∃ q ∈ s.listed, q.uid = victim.uid ∧ q.nodeName = nodeName ∧
    (ClassifyPodForDrain q opts none).outcome ≠ .skip

/-- The pod that an eviction met was there when the node was listed. -/
def ThereAtList (s : Drain) (victim : Pod) : Prop := ∃ q ∈ s.atList, q.uid = victim.uid

theorem evicts_chosen {p : Population} {as : List Act}
    (h : run (step nodeName opts) (start p) as = some s) :
    (∀ e ∈ s.admitted, Chosen nodeName opts s e.2) ↔ ∀ e ∈ s.admitted, ThereAtList s e.2 := by
  have htracks := tracks_run h
  constructor
  · intro hall e he
    obtain ⟨q,hq,huid,-⟩ := hall e he
    exact ⟨q,(htracks.listed q hq).1,huid⟩
  · intro hall e he
    obtain ⟨q,hq,huid⟩ := hall e he
    obtain ⟨htarget,hkey⟩ := htracks.admitted e he
    obtain ⟨hlisted,hout⟩ := htracks.toEvict e.1 htarget
    obtain ⟨hin,hnode⟩ := htracks.listed e.1 hlisted
    have hsame : q = e.1 := List.inj_on_of_nodup_map htracks.atNames hq hin (hkey q hq huid)
    exact ⟨e.1,hlisted,hsame ▸ huid,hnode,hout⟩

/-- A StatefulSet's pod, under one name with two UIDs. -/
def web0 (uid nodeName : String) : Pod where
  ns := ⟨"shop".toList,by decide⟩
  name := ⟨"web-0".toList,by decide⟩
  uid := uid.toList
  nodeName := nodeName.toList
  ownerReferences := [⟨"StatefulSet".toList,"web".toList,some true⟩]

def onlyWeb0 : Population where
  pods := [web0 "uid-1" "worker-1"]
  names := List.pairwise_singleton _ _
  uids := List.pairwise_singleton _ _

/-- The node is listed, the cluster goes its way, and the pod is evicted. -/
def evictWeb0 (around : List Act) : List Act :=
  [Act.cordon none,.list none]++around++
    [Act.work 0 .acquire,.work 0 .check,.work 0 (.answer (.admitted none none)),.join]

def drained (around : List Act) : Option Drain :=
  run (step "worker-1".toList {}) (start onlyWeb0) (evictWeb0 around)

theorem evicts_chosen_web0 : ∃ s, drained [] = some s ∧ s.admitted ≠ [] ∧
    ∀ e ∈ s.admitted, Chosen "worker-1".toList {} s e.2 := by
  have hrun : drained [] = some ((drained []).getD (start onlyWeb0)) := rfl
  refine ⟨_,hrun,by decide +kernel,(evicts_chosen hrun).mpr ?_⟩
  have hthere : ((drained []).getD (start onlyWeb0)).admitted.all (fun e =>
      ((drained []).getD (start onlyWeb0)).atList.any fun q => decide (q.uid = e.2.uid)) = true := by
    decide +kernel
  intro e he
  obtain ⟨q,hq,huid⟩ := List.any_eq_true.mp (List.all_eq_true.mp hthere e he)
  exact ⟨q,hq,of_decide_eq_true huid⟩

/-- Between the list and the eviction the pod is deleted and recreated on another node. -/
theorem evicts_namesake : ¬∀ (nodeName : Text) (opts : DrainOptions) (p : Population)
    (as : List Act) (s : Drain), run (step nodeName opts) (start p) as = some s →
      ∀ e ∈ s.admitted, Chosen nodeName opts s e.2 := by
  let replaced : List Act := [.remove "uid-1".toList,.create (web0 "uid-2" "worker-2")]
  intro h
  have hrun : drained replaced = some ((drained replaced).getD (start onlyWeb0)) := rfl
  have hadmitted : (web0 "uid-1" "worker-1",web0 "uid-2" "worker-2") ∈
      ((drained replaced).getD (start onlyWeb0)).admitted := by
    decide +kernel
  obtain ⟨q,hq,huid,-⟩ := h _ _ _ _ _ hrun _ hadmitted
  have hlisted : ((drained replaced).getD (start onlyWeb0)).listed.all fun q =>
      decide (q.uid = "uid-1".toList) := by
    decide +kernel
  have hother := of_decide_eq_true (List.all_eq_true.mp hlisted q hq)
  rw [hother] at huid
  exact absurd huid (by decide)

end Exact

end Radar.NodeDrain
