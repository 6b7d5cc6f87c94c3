import Mathlib.Data.Int.Notation
import Mathlib.Data.List.Basic

/-!
# What a drain does with one pod

A pod is left alone or evicted by its phase, its owner and its volumes. The
budgets are consulted by a plan only; a drain leaves them to the API server.
-/

set_option autoImplicit false

namespace Radar.NodeDrain

abbrev Text := List Char

/-- The name of a namespace or of an object, as the API server admits it. -/
abbrev Name := { t : Text // '/' ∉ t ∧ ':' ∉ t }

inductive PodPhase where
  | unset
  | pending
  | running
  | succeeded
  | failed
  | unknown
  deriving DecidableEq, Repr

structure OwnerReference where
  kind : Text
  name : Text
  controller : Option Bool
  deriving DecidableEq, Repr

structure Volume where
  name : Text
  emptyDir : Bool
  deriving DecidableEq, Repr

structure Pod where
  ns : Name
  name : Name
  uid : Text
  nodeName : Text
  phase : PodPhase := .running
  annotations : List (Text × Text) := []
  ownerReferences : List OwnerReference := []
  deletionTimestamp : Option ℤ := none
  volumes : List Volume := []
  deriving DecidableEq

structure DrainOptions where
  ignoreDaemonSets : Bool := false
  deleteEmptyDirData : Bool := false
  force : Bool := false
  gracePeriodSeconds : Option ℤ := none
  waitForDeletion : Bool := false
  deriving DecidableEq, Repr

inductive DrainOutcome where
  | evict
  | skip
  | mayBlock
  deriving DecidableEq, Repr

structure PodDrainDecision where
  ns : Name
  name : Name
  outcome : DrainOutcome := .evict
  reason : Text := []
  emptyDir : Bool
  pdb : Text := []
  pdbChecked : Bool := false
  terminating : Bool
  expectedSkip : Bool := false
  deriving DecidableEq

section Classify

def mirrorPodAnnotationKey : Text := "kubernetes.io/config.mirror".toList

def hasLocalStorage (pod : Pod) : Bool := pod.volumes.any (·.emptyDir)

def getControllerOf (pod : Pod) : Option OwnerReference :=
  pod.ownerReferences.find? fun owner => decide (owner.controller = some true)

def bypassesPDB (pod : Pod) : Bool :=
  pod.deletionTimestamp.isSome || decide (pod.phase = .succeeded ∨ pod.phase = .failed ∨
    pod.phase = .pending)

def phaseText : PodPhase → Text
  | .unset => []
  | .pending => "Pending".toList
  | .running => "Running".toList
  | .succeeded => "Succeeded".toList
  | .failed => "Failed".toList
  | .unknown => "Unknown".toList

def evictReason (controller : Option OwnerReference) : Text :=
  match controller with
  | none => "not managed by a controller; evicted because force is set".toList
  | some owner =>
    "managed by ".toList++owner.kind++" ".toList++owner.name++"; the controller reschedules it".toList

/-- Budgets, when they were listed, are given by the name and the reason with which they block. -/
def ClassifyPodForDrain (pod : Pod) (opts : DrainOptions)
    (pdbs : Option (Pod → Option (Text × Text))) : PodDrainDecision :=
  let d : PodDrainDecision :=
    { ns := pod.ns, name := pod.name, emptyDir := hasLocalStorage pod
      terminating := pod.deletionTimestamp.isSome }
  let controller := getControllerOf pod
  if pod.phase = .succeeded ∨ pod.phase = .failed then
    { d with
      outcome := .skip, expectedSkip := true
      reason := "pod is ".toList++phaseText pod.phase++"; nothing to evict".toList }
  else if pod.annotations.any fun (k,_) => decide (k = mirrorPodAnnotationKey) then
    { d with
      outcome := .skip, expectedSkip := true
      reason := "static (mirror) pod managed by the kubelet; cannot be evicted".toList }
  else if controller.any fun owner => decide (owner.kind = "DaemonSet".toList) then
    { d with
      outcome := .skip, expectedSkip := true
      reason :=
        if opts.ignoreDaemonSets then
          "managed by a DaemonSet; the DaemonSet controller would recreate it on this node".toList
        else
          "managed by a DaemonSet; DaemonSet pods are never evicted by a drain ".toList++
            "(kubectl refuses without --ignore-daemonsets)".toList }
  else if controller.isNone && !opts.force then
    { d with
      outcome := .skip
      reason := "not managed by a controller; would be lost, enable force to evict anyway".toList }
  else if !opts.deleteEmptyDirData && d.emptyDir then
    { d with
      outcome := .skip
      reason :=
        "uses emptyDir volumes; their data is lost on eviction, ".toList++
          "enable the Delete emptyDir data option to evict".toList }
  else if bypassesPDB pod then
    { d with
      outcome := .evict
      reason :=
        if pod.deletionTimestamp.isSome then
          "already terminating; the eviction is admitted regardless of PodDisruptionBudgets".toList
        else "still pending; the eviction is admitted regardless of PodDisruptionBudgets".toList }
  else
    match pdbs.bind fun blocking => blocking pod with
    | some (name,reason) =>
      { d with pdbChecked := pdbs.isSome, outcome := .mayBlock, pdb := name, reason := reason }
    | none =>
      { d with pdbChecked := pdbs.isSome, outcome := .evict, reason := evictReason controller }

def PodDrainDecision.blocksDrain (d : PodDrainDecision) : Bool :=
  decide (d.outcome = .skip) && !d.expectedSkip

theorem classify_names (pod : Pod) (opts : DrainOptions)
    (pdbs : Option (Pod → Option (Text × Text))) :
    (ClassifyPodForDrain pod opts pdbs).ns = pod.ns ∧
      (ClassifyPodForDrain pod opts pdbs).name = pod.name := by
  dsimp only [ClassifyPodForDrain]
  repeat' split
  all_goals exact ⟨rfl,rfl⟩

end Classify

end Radar.NodeDrain
