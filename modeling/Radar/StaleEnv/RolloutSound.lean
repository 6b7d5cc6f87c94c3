import Radar.StaleEnv.RolloutEvidence
import Mathlib.Data.List.ReduceOption

/-!
# Two revisions are evidence enough

The evidence is compared with a search through all Pods. What the pass over the
Pods adds is laid out as one list of offers; a bounded list keeps what a search
for another revision finds among its offers.
-/

set_option autoImplicit false

namespace Radar.StaleEnv

open TopKept StaleSecretEnvRolloutEvidence

/-- The ReplicaSet that controls the Pod. -/
def Pod.revision (pod : Pod) : Option String :=
  ((controllerOwnerRef pod.ownerReferences).filter fun ref => ref.kind = "ReplicaSet").map
    ownerReferenceIdentity

/-- The container runs, is ready and has started within the window. -/
def startedWithin (now : Time) (pod : Pod) (container : Container) (t : Time) : Prop :=
  ∃ status, staleSecretEnvContainerStatuses pod container.name = some status ∧
    status.ready = true ∧ status.running = some t ∧ t.isZero = false ∧ t ≤ now ∧
    now-t ≤ staleSecretEnvRolloutEvidenceWindow

/-- By reference to the key, or the whole Secret. -/
def Container.consumes (container : Container) (secret key : String) : Prop :=
  (∃ env ∈ container.env, ∃ ref, env.secretKeyRef = some ref ∧ ref.name = secret ∧ ref.key = key) ∨
    ∃ envFrom ∈ container.envFrom, envFrom.secretRef = some secret

/-- A Pod of another revision that runs on the changed Secret. -/
structure Pod.Replaces (now : Time) (check : StaleSecretEnvCheck) (stale : String) (pod : Pod) :
    Prop where
  revision : ∃ r, pod.revision = some r ∧ r ≠ stale
  live : pod.deletionTimestamp = none
  ready : isPodReadyForProblem pod = true
  runs : ∃ container ∈ staleSecretEnvContainers pod, container.name = check.container ∧
    container.consumes check.secretName check.key ∧
      ∃ t, check.secretChangedAt ≤ t ∧ startedWithin now pod container t

section Offers

abbrev Offer := StaleSecretEnvConsumption × StaleSecretEnvReplacement

def EnvVar.reading (container : String) (env : EnvVar) : Option StaleSecretEnvConsumption :=
  env.secretKeyRef.map fun ref => ⟨container,ref.name,ref.key⟩

def EnvFromSource.reading (container : String) (envFrom : EnvFromSource) :
    Option StaleSecretEnvConsumption :=
  envFrom.secretRef.map fun secret => ⟨container,secret,""⟩

def Container.readings (container : Container) : List StaleSecretEnvConsumption :=
  container.env.filterMap (EnvVar.reading container.name) ++
    container.envFrom.filterMap (EnvFromSource.reading container.name)

instance (now : Time) (pod : Pod) (container : Container) (t : Time) :
    Decidable (startedWithin now pod container t) :=
  match h : staleSecretEnvContainerStatuses pod container.name with
  | none => isFalse fun ⟨_,hstatus,_⟩ => by rw [h] at hstatus; nomatch hstatus
  | some status =>
    decidable_of_iff (status.ready = true ∧ status.running = some t ∧ t.isZero = false ∧ t ≤ now ∧
        now-t ≤ staleSecretEnvRolloutEvidenceWindow) (by
      rw [startedWithin, h]
      simp)

def containerOffers (now : Time) (pod : Pod) (revision : String) (container : Container) :
    List Offer :=
  match (staleSecretEnvContainerStatuses pod container.name).bind ContainerStatus.running with
  | none => []
  | some t =>
    if startedWithin now pod container t then container.readings.map (·,⟨revision,t⟩) else []

def podOffers (now : Time) (pod : Pod) : List Offer :=
  match pod.revision with
  | none => []
  | some revision =>
    if pod.deletionTimestamp = none ∧ isPodReadyForProblem pod = true then
      (staleSecretEnvContainers pod).flatMap (containerOffers now pod revision)
    else []

theorem mem_readings {container : Container} {c : StaleSecretEnvConsumption} :
    c ∈ container.readings ↔ container.name = c.container ∧
      ((∃ env ∈ container.env, ∃ ref, env.secretKeyRef = some ref ∧ ref.name = c.secret ∧
        ref.key = c.key) ∨
      (c.key = "" ∧ ∃ envFrom ∈ container.envFrom, envFrom.secretRef = some c.secret)) := by
  obtain ⟨name,secret,key⟩ := c
  simp only [Container.readings, List.mem_append, List.mem_filterMap, EnvVar.reading,
    EnvFromSource.reading, Option.map_eq_some_iff, StaleSecretEnvConsumption.mk.injEq]
  constructor
  · rintro (⟨env,henv,ref,href,hname,hsecret,hkey⟩ | ⟨envFrom,henv,ref,href,hname,rfl,hkey⟩)
    · exact ⟨hname,.inl ⟨env,henv,ref,href,hsecret,hkey⟩⟩
    · exact ⟨hname,.inr ⟨hkey.symm,envFrom,henv,href⟩⟩
  · rintro ⟨hname,⟨env,henv,ref,href,hsecret,hkey⟩ | ⟨hkey,envFrom,henv,href⟩⟩
    · exact .inl ⟨env,henv,ref,href,hname,hsecret,hkey⟩
    · exact .inr ⟨envFrom,henv,secret,href,hname,rfl,hkey.symm⟩

theorem mem_containerOffers {now : Time} {pod : Pod} {revision : String} {container : Container}
    {o : Offer} :
    o ∈ containerOffers now pod revision container ↔
      o.2.revision = revision ∧ o.1 ∈ container.readings ∧
        startedWithin now pod container o.2.startedAt := by
  obtain ⟨c,r,t⟩ := o
  have hruns : ∀ {u}, startedWithin now pod container u →
      (staleSecretEnvContainerStatuses pod container.name).bind ContainerStatus.running = some u := by
    rintro u ⟨status,hstatus,-,hrun,-⟩
    rw [hstatus]
    exact hrun
  rw [containerOffers]
  cases hbind : (staleSecretEnvContainerStatuses pod container.name).bind
      ContainerStatus.running with
  | none =>
    constructor
    · exact fun h => nomatch h
    · rintro ⟨-,-,hstart⟩
      rw [hruns hstart] at hbind
      nomatch hbind
  | some u =>
    by_cases hu : startedWithin now pod container u
    · simp only [if_pos hu, List.mem_map, Prod.mk.injEq, StaleSecretEnvReplacement.mk.injEq]
      constructor
      · rintro ⟨c,hc,rfl,rfl,rfl⟩
        exact ⟨rfl,hc,hu⟩
      · rintro ⟨rfl,hc,hstart⟩
        rw [hruns hstart, Option.some_inj] at hbind
        exact ⟨c,hc,rfl,rfl,hbind.symm⟩
    · simp only [if_neg hu, List.not_mem_nil, false_iff]
      rintro ⟨-,-,hstart⟩
      have heq := hruns hstart
      rw [hbind, Option.some_inj] at heq
      exact hu (heq ▸ hstart)

theorem mem_podOffers {now : Time} {pod : Pod} {o : Offer} :
    o ∈ podOffers now pod ↔ pod.revision = some o.2.revision ∧ pod.deletionTimestamp = none ∧
      isPodReadyForProblem pod = true ∧ ∃ container ∈ staleSecretEnvContainers pod,
        o.1 ∈ container.readings ∧ startedWithin now pod container o.2.startedAt := by
  rw [podOffers]
  cases hrev : pod.revision with
  | none => simp
  | some r =>
    by_cases hlive : pod.deletionTimestamp = none ∧ isPodReadyForProblem pod = true
    · change o ∈ (if _ then _ else _) ↔ _
      rw [if_pos hlive]
      simp only [List.mem_flatMap, mem_containerOffers, Option.some_inj, hlive]
      constructor
      · rintro ⟨container,hcontainer,hr,hread,hstart⟩
        exact ⟨hr.symm,trivial,trivial,container,hcontainer,hread,hstart⟩
      · rintro ⟨hr,-,-,container,hcontainer,hread,hstart⟩
        exact ⟨container,hcontainer,hr.symm,hread,hstart⟩
    · simp only [if_neg hlive, List.not_mem_nil, false_iff]
      rintro ⟨-,hdel,hready,-⟩
      exact hlive ⟨hdel,hready⟩

end Offers

section Pass

variable (sort : SortReplacements)

/-- The pass over the Pods as one run of `add`. -/
def addAll (e : StaleSecretEnvRolloutEvidence) (offers : List Offer) :
    StaleSecretEnvRolloutEvidence :=
  offers.foldl (fun e o => e.add sort o.1 o.2) e

theorem addAll_append (e : StaleSecretEnvRolloutEvidence) (a b : List Offer) :
    addAll sort e (a++b) = addAll sort (addAll sort e a) b := List.foldl_append

theorem addAll_revisionByPod (e : StaleSecretEnvRolloutEvidence) (offers : List Offer) :
    (addAll sort e offers).revisionByPod = e.revisionByPod := by
  induction offers generalizing e with
  | nil => rfl
  | cons o offers ih => exact ih (e.add sort o.1 o.2)

theorem addAll_replacements (e : StaleSecretEnvRolloutEvidence) (offers : List Offer) :
    (addAll sort e offers).replacements =
      offers.foldl (fun table o => keepAt StaleSecretEnvReplacement.revision
        StaleSecretEnvReplacement.startedAt sort 2 table o.1 o.2) e.replacements := by
  induction offers generalizing e with
  | nil => rfl
  | cons o offers ih => exact ih (e.add sort o.1 o.2)

theorem addEnv_foldl (container : Container) (replacement : StaleSecretEnvReplacement)
    (envs : List EnvVar) (e : StaleSecretEnvRolloutEvidence) :
    envs.foldl (addEnv sort container replacement) e =
      addAll sort e ((envs.filterMap (EnvVar.reading container.name)).map (·,replacement)) := by
  induction envs generalizing e with
  | nil => rfl
  | cons env envs ih =>
    rw [List.foldl_cons, ih, List.filterMap_cons, addEnv, EnvVar.reading]
    cases env.secretKeyRef <;> rfl

theorem addEnvFrom_foldl (container : Container) (replacement : StaleSecretEnvReplacement)
    (envs : List EnvFromSource) (e : StaleSecretEnvRolloutEvidence) :
    envs.foldl (addEnvFrom sort container replacement) e =
      addAll sort e ((envs.filterMap (EnvFromSource.reading container.name)).map
        (·,replacement)) := by
  induction envs generalizing e with
  | nil => rfl
  | cons env envs ih =>
    rw [List.foldl_cons, ih, List.filterMap_cons, addEnvFrom, EnvFromSource.reading]
    cases env.secretRef <;> rfl

theorem addContainer_eq (now : Time) (pod : Pod) (revision : String)
    (e : StaleSecretEnvRolloutEvidence) (container : Container) :
    addContainer sort now pod revision e container =
      addAll sort e (containerOffers now pod revision container) := by
  rw [addContainer, containerOffers]
  cases hstatus : staleSecretEnvContainerStatuses pod container.name with
  | none => rfl
  | some status =>
    cases hrun : status.running with
    | none => simp [hrun, addAll]
    | some t =>
      have hiff : startedWithin now pod container t ↔
          ¬(!status.ready || t.isZero) ∧
            ¬(t > now ∨ now-t > staleSecretEnvRolloutEvidenceWindow) := by
        simp only [startedWithin, hstatus, Option.some_inj, exists_eq_left', hrun]
        cases status.ready <;> cases t.isZero <;> simp
      by_cases hstart : startedWithin now pod container t
      · obtain ⟨hready,htime⟩ := hiff.mp hstart
        simp only [Option.bind_some, hrun, if_neg hready, if_neg htime, if_pos hstart,
          Container.readings, List.map_append, addAll_append, addEnv_foldl, addEnvFrom_foldl]
      · simp only [Option.bind_some, hrun, if_neg hstart]
        by_cases hready : (!status.ready || t.isZero) = true
        · rw [if_pos hready]
          rfl
        · have htime : t > now ∨ now-t > staleSecretEnvRolloutEvidenceWindow := by
            by_contra htime
            exact hstart (hiff.mpr ⟨hready,htime⟩)
          rw [if_neg hready, if_pos htime]
          rfl

/-- The revision that a Pod's name stands for. -/
def named (e : StaleSecretEnvRolloutEvidence) (pod : Pod) : StaleSecretEnvRolloutEvidence :=
  match pod.revision with
  | none => e
  | some revision =>
    { e with revisionByPod := Function.update e.revisionByPod pod.name revision }

theorem addPod_eq (now : Time) (e : StaleSecretEnvRolloutEvidence) (pod : Pod) :
    addPod sort now e (some pod) = addAll sort (named e pod) (podOffers now pod) := by
  rw [addPod, podOffers, named, Pod.revision]
  cases hown : controllerOwnerRef pod.ownerReferences with
  | none => rfl
  | some ref =>
    by_cases hkind : ref.kind = "ReplicaSet"
    · have hfilter : (some ref).filter (fun ref => ref.kind = "ReplicaSet") = some ref := by
        simp [Option.filter, hkind]
      simp only [hfilter, Option.map_some, if_neg (not_not_intro hkind)]
      have hfold : ∀ (cs : List Container) (e : StaleSecretEnvRolloutEvidence),
          cs.foldl (addContainer sort now pod (ownerReferenceIdentity ref)) e =
            addAll sort e (cs.flatMap (containerOffers now pod (ownerReferenceIdentity ref))) := by
        intro cs
        induction cs with
        | nil => exact fun e => rfl
        | cons c cs ih =>
          intro e
          rw [List.foldl_cons, ih, List.flatMap_cons, addAll_append, addContainer_eq]
      by_cases hlive : pod.deletionTimestamp = none ∧ isPodReadyForProblem pod = true
      · simp only [hlive, Option.isSome_none, Bool.not_true, Bool.or_self, Bool.false_eq_true,
          if_false, and_self, if_true, hfold]
      · rw [if_neg hlive, if_pos]
        · rfl
        · cases hdel : pod.deletionTimestamp with
          | none => simpa [hdel] using hlive
          | some t => rfl
    · have hfilter : (some ref).filter (fun ref => ref.kind = "ReplicaSet") = none := by
        simp [Option.filter, hkind]
      simp only [hfilter, Option.map_none, if_pos hkind]
      rfl

theorem ownerReferenceIdentity_ne (ref : OwnerReference) : ownerReferenceIdentity ref ≠ "" := by
  rw [ownerReferenceIdentity]
  by_cases huid : ref.uid ≠ ""
  · rwa [if_pos huid]
  · rw [if_neg huid]
    intro h
    simp [String.append_eq_empty_iff] at h

theorem revision_ne {pod : Pod} {r : String} (h : pod.revision = some r) : r ≠ "" := by
  rw [Pod.revision, Option.map_eq_some_iff] at h
  obtain ⟨ref,-,rfl⟩ := h
  exact ownerReferenceIdentity_ne ref

/-- The evidence of a list of Pods. -/
def gather (now : Time) (pods : List Pod) : StaleSecretEnvRolloutEvidence :=
  pods.foldl (fun e pod => addPod sort now e (some pod)) .empty

theorem new_eq_gather {subject : StaleSecretEnvSubject} (h : subject.rollsOut)
    (pods : List (Option Pod)) (now : Time) :
    newStaleSecretEnvRolloutEvidence sort subject pods now = gather sort now pods.reduceOption := by
  rw [newStaleSecretEnvRolloutEvidence, if_neg (not_not_intro h), gather]
  generalize StaleSecretEnvRolloutEvidence.empty = e
  induction pods generalizing e with
  | nil => rfl
  | cons pod pods ih =>
    cases pod with
    | none => exact ih e
    | some pod => exact ih (addPod sort now e (some pod))

theorem gather_append (now : Time) (pods : List Pod) (pod : Pod) :
    gather sort now (pods++[pod]) =
      addAll sort (named (gather sort now pods) pod) (podOffers now pod) := by
  rw [gather, List.foldl_append, List.foldl_cons, List.foldl_nil, addPod_eq]
  rfl

theorem named_replacements (e : StaleSecretEnvRolloutEvidence) (pod : Pod) :
    (named e pod).replacements = e.replacements := by
  rw [named]
  cases pod.revision <;> rfl

theorem gather_replacements (now : Time) (pods : List Pod) (c : StaleSecretEnvConsumption) :
    Keeps StaleSecretEnvReplacement.revision StaleSecretEnvReplacement.startedAt 2
      (((pods.flatMap (podOffers now)).filter fun o => o.1 = c).map Prod.snd)
      ((gather sort now pods).replacements c) := by
  have hoffers : (gather sort now pods).replacements =
      (pods.flatMap (podOffers now)).foldl (fun table o =>
        keepAt StaleSecretEnvReplacement.revision StaleSecretEnvReplacement.startedAt sort 2
          table o.1 o.2) (fun _ => []) := by
    induction pods using List.reverseRecOn with
    | nil => rfl
    | append_singleton pods pod ih =>
      rw [gather_append, addAll_replacements, named_replacements, ih, List.flatMap_append,
        List.foldl_append, List.flatMap_cons, List.flatMap_nil, List.append_nil]
  rw [hoffers]
  exact keeps_foldl_keepAt sort 2 _ c

theorem gather_revisionByPod (now : Time) {pods : List Pod} (hnames : (pods.map Pod.name).Nodup)
    {name r : String} (hr : r ≠ "") :
    (gather sort now pods).revisionByPod name = r ↔
      ∃ pod ∈ pods, pod.name = name ∧ pod.revision = some r := by
  induction pods using List.reverseRecOn with
  | nil => simpa [gather, StaleSecretEnvRolloutEvidence.empty] using hr.symm
  | append_singleton pods pod ih =>
    rw [List.map_append, List.nodup_append] at hnames
    obtain ⟨hbefore,-,hfresh⟩ := hnames
    have hsplit : (∃ p ∈ pods++[pod], p.name = name ∧ p.revision = some r) ↔
        (∃ p ∈ pods, p.name = name ∧ p.revision = some r) ∨
          (pod.name = name ∧ pod.revision = some r) := by
      simp [or_and_right, exists_or]
    rw [gather_append, addAll_revisionByPod, named, hsplit]
    cases hrev : pod.revision with
    | none => simpa using ih hbefore
    | some r' =>
      by_cases hname : pod.name = name
      · subst hname
        have hnone : ¬∃ p ∈ pods, p.name = pod.name ∧ p.revision = some r := by
          rintro ⟨p,hp,hsame,-⟩
          exact hfresh _ (List.mem_map_of_mem hp) _ (by simp) hsame
        simp [hnone]
      · simp only [Function.update_of_ne (Ne.symm hname), hname, false_and, or_false]
        exact ih hbefore

end Pass

section Supersedes

variable {sort : SortReplacements} {now : Time} {pods : List Pod}

/-- One reading of the Secret: the bounded list answers for all Pods. -/
theorem exists_replacement_iff (c : StaleSecretEnvConsumption) (stale : String) (t : Time) :
    (∃ x ∈ (gather sort now pods).replacements c, x.revision ≠ stale ∧ t ≤ x.startedAt) ↔
      ∃ pod ∈ pods, (∃ r, pod.revision = some r ∧ r ≠ stale) ∧ pod.deletionTimestamp = none ∧
        isPodReadyForProblem pod = true ∧ ∃ container ∈ staleSecretEnvContainers pod,
          c ∈ container.readings ∧ ∃ u, t ≤ u ∧ startedWithin now pod container u := by
  rw [(gather_replacements sort now pods c).exists_other_iff (le_refl 2)]
  simp only [List.mem_map, List.mem_filter, List.mem_flatMap, decide_eq_true_eq]
  constructor
  · rintro ⟨-,⟨o,⟨⟨pod,hpod,ho⟩,rfl⟩,rfl⟩,hne,hle⟩
    obtain ⟨hrev,hdel,hready,container,hcontainer,hread,hstart⟩ := mem_podOffers.mp ho
    exact ⟨pod,hpod,⟨_,hrev,hne⟩,hdel,hready,container,hcontainer,hread,_,hle,hstart⟩
  · rintro ⟨pod,hpod,⟨r,hrev,hne⟩,hdel,hready,container,hcontainer,hread,u,hle,hstart⟩
    have ho : (c,⟨r,u⟩) ∈ podOffers now pod :=
      mem_podOffers.mpr ⟨hrev,hdel,hready,container,hcontainer,hread,hstart⟩
    exact ⟨⟨r,u⟩,⟨_,⟨⟨pod,hpod,ho⟩,rfl⟩,rfl⟩,hne,hle⟩

theorem consumes_iff_readings {container : Container} {name secret key : String} (hkey : key ≠ "") :
    (container.name = name ∧ container.consumes secret key) ↔
      ⟨name,secret,key⟩ ∈ container.readings ∨ ⟨name,secret,""⟩ ∈ container.readings := by
  have hsome : ¬∃ env ∈ container.env, ∃ ref, env.secretKeyRef = some ref ∧ ref.name = secret ∧
      ref.key = "" := by
    rintro ⟨env,-,ref,-,-,hempty⟩
    exact ref.key_ne hempty
  rw [mem_readings, mem_readings, Container.consumes]
  simp only [hkey, hsome, false_and, or_false, true_and, false_or]
  exact and_or_left

/-- The bounded evidence supersedes a check exactly where a search through all Pods does. -/
theorem supersedes_iff (sort : SortReplacements) {subject : StaleSecretEnvSubject}
    (hsubject : subject.rollsOut) {pods : List (Option Pod)}
    (hnames : (pods.reduceOption.map Pod.name).Nodup) (now : Time) {check : StaleSecretEnvCheck}
    (hkey : check.key ≠ "") :
    (newStaleSecretEnvRolloutEvidence sort subject pods now).supersedes check = true ↔
      ∃ pod stale, some pod ∈ pods ∧ pod.name = check.podName ∧ pod.revision = some stale ∧
        ∃ other, some other ∈ pods ∧ other.Replaces now check stale := by
  rw [new_eq_gather sort hsubject]
  simp only [← List.reduceOption_mem_iff]
  generalize pods.reduceOption = pods at hnames
  have hreplaces : ∀ stale other, other.Replaces now check stale ↔
      ∃ c : StaleSecretEnvConsumption,
        c ∈ [StaleSecretEnvConsumption.mk check.container check.secretName check.key,
          ⟨check.container,check.secretName,""⟩] ∧
        (∃ r, other.revision = some r ∧ r ≠ stale) ∧ other.deletionTimestamp = none ∧
          isPodReadyForProblem other = true ∧ ∃ container ∈ staleSecretEnvContainers other,
            c ∈ container.readings ∧
              ∃ u, check.secretChangedAt ≤ u ∧ startedWithin now other container u := by
    intro stale other
    constructor
    · rintro ⟨hrev,hdel,hready,container,hcontainer,hname,hread,hstart⟩
      rcases (consumes_iff_readings hkey).mp ⟨hname,hread⟩ with hread | hread
      · exact ⟨_,by simp,hrev,hdel,hready,container,hcontainer,hread,hstart⟩
      · exact ⟨_,by simp,hrev,hdel,hready,container,hcontainer,hread,hstart⟩
    · rintro ⟨c,hc,hrev,hdel,hready,container,hcontainer,hread,hstart⟩
      have hboth : ⟨check.container,check.secretName,check.key⟩ ∈ container.readings ∨
          ⟨check.container,check.secretName,""⟩ ∈ container.readings := by
        rcases List.mem_pair.mp hc with rfl | rfl
        · exact .inl hread
        · exact .inr hread
      obtain ⟨hname,hread⟩ := (consumes_iff_readings hkey).mpr hboth
      exact ⟨hrev,hdel,hready,container,hcontainer,hname,hread,hstart⟩
  rw [StaleSecretEnvRolloutEvidence.supersedes]
  by_cases hempty : (gather sort now pods).revisionByPod check.podName = ""
  · simp only [hempty, if_true, Bool.false_eq_true, false_iff]
    rintro ⟨pod,stale,hpod,hname,hrev,-⟩
    have hstale := (gather_revisionByPod sort now hnames (revision_ne hrev)).mpr
      ⟨pod,hpod,hname,hrev⟩
    exact revision_ne hrev (hstale.symm.trans hempty)
  · obtain ⟨pod,hpod,hname,hrev⟩ := (gather_revisionByPod sort now hnames hempty).mp rfl
    simp only [if_neg hempty, List.any_eq_true, Bool.and_eq_true, decide_eq_true_eq,
      Bool.not_eq_true', decide_eq_false_iff_not, not_lt, exists_replacement_iff, hreplaces]
    constructor
    · rintro ⟨c,hc,other,hother,hall⟩
      exact ⟨pod,_,hpod,hname,hrev,other,hother,c,hc,hall⟩
    · rintro ⟨pod',stale,hpod',hname',hrev',other,hother,c,hc,hall⟩
      have hstale := (gather_revisionByPod sort now hnames (revision_ne hrev')).mpr
        ⟨pod',hpod',hname',hrev'⟩
      rw [hstale]
      exact ⟨c,hc,other,hother,hall⟩

section Example

def ownedBy (uid : String) : OwnerReference := ⟨"apps/v1","ReplicaSet","catalog",uid,some true⟩

def catalogPod (name uid : String) (startedAt : Time) : Pod where
  name := name
  ownerReferences := [ownedBy uid]
  deletionTimestamp := none
  initContainers := []
  containers := [⟨"app",[⟨some ⟨"db-conn","password",by decide⟩⟩],[],none⟩]
  conditions := [⟨"Ready","True"⟩]
  initContainerStatuses := []
  containerStatuses := [⟨"app",true,some startedAt⟩]

/-- A Pod of an earlier revision beside its replacement. -/
theorem supersedes_replaced :
    (newStaleSecretEnvRolloutEvidence (.stable _) ⟨"apps","Deployment","shop","catalog"⟩
      [some (catalogPod "old" "rs-1" 5),none,some (catalogPod "new" "rs-2" 20)] 30).supersedes
        ⟨"old","app","db-conn","password",10⟩ = true := by
  have hsubject : StaleSecretEnvSubject.rollsOut ⟨"apps","Deployment","shop","catalog"⟩ :=
    .inl ⟨rfl,rfl⟩
  refine (supersedes_iff (.stable _) hsubject (by decide) 30 (by decide)).mpr ?_
  refine ⟨catalogPod "old" "rs-1" 5,"rs-1",by simp,rfl,by decide +kernel,
    catalogPod "new" "rs-2" 20,by simp,⟨"rs-2",by decide +kernel,by decide⟩,rfl,by decide +kernel,?_⟩
  refine ⟨_,List.mem_singleton_self _,rfl,.inl ⟨_,List.mem_singleton_self _,_,rfl,rfl,rfl⟩,20,
    by decide,?_⟩
  exact ⟨⟨"app",true,some 20⟩,rfl,rfl,rfl,rfl,by decide,by decide⟩

end Example

end Supersedes

end Radar.StaleEnv
