import Mathlib.Data.Int.Notation
import Mathlib.Data.Nat.Notation

/-!
# Issue rows

A row of the issue stream: what is wrong with which resource, since when, and
on what evidence. The records a row only carries along (restart loop,
diagnostic context and the like) are values of one type `X`.
-/

set_option autoImplicit false

namespace Radar.Issues

inductive Severity
  | critical | warning
  deriving DecidableEq

inductive Source
  | problem | missingRef | scheduling | condition
  deriving DecidableEq

def Source.text : Source → String
  | .problem => "problem"
  | .missingRef => "missing_ref"
  | .scheduling => "scheduling"
  | .condition => "condition"

inductive Category
  | unknown
  | unschedulable | quotaExceeded | admissionWebhookBlocking
  | imagePullFailed | containerWaiting | initContainerFailed
  | crashLoop | oomKilled | livenessProbeFail | readinessFailed | workloadDegraded | highRestart
  | jobFailed | cronJobFailed
  | missingConfigRef | invalidConfiguration | pdbBlocksEvictions | secretSyncFailed
  | serviceNoEndpoints | serviceMixedBackends | ingressBackendMissing | ingressClassMissing
  | loadBalancerPending | gatewayNotReady | gatewayRouteInvalid | dnsFailure | networkPolicyDenied
  | pvcPending | pvcLost | pvFailed | pvcResizeFailed | volumeMountFailed
  | volumeAccessModeConflict | backupFailed | backupTargetUnavailable | backupStalled
  | rolloutStalled | hpaLimitedOrFailed
  | rbacForbidden | certificateNotReady | podSecurityViolation
  | terminationStuck | nodeNotReady | apiServiceUnavailable | nodeProvisioningFail
  | crossplaneReconcile | operatorConditionFail
  | gitOpsSyncFailed | gitOpsRenderFailed | gitOpsSpecInvalid | gitOpsOperationFailed
  | gitOpsOutOfSync | gitOpsHealthDegraded | gitOpsStale
  | helmReleaseFailed | webhookBackendDown | controlPlaneNotReady | machineNotReady
  deriving DecidableEq

inductive CategoryGroup
  | unknown | scheduling | startup | runtime | configuration | networking | storage | scaling
  | security | controlPlane
  deriving DecidableEq

inductive Scope
  | unknown | workload | service | ingress | pvc | node
  deriving DecidableEq

structure Ref where
  group : String := ""
  kind : String := ""
  ns : String := ""
  name : String := ""
  deriving DecidableEq

structure EvidenceRead where
  group : String := ""
  resource : String
  ns : String
  verb : String
  deriving DecidableEq

structure OnsetCoverage where
  known : ℕ
  unknown : ℕ
  deriving DecidableEq

structure Affected where
  pods : ℕ := 0
  workloads : ℕ := 0
  services : ℕ := 0
  pvcs : ℕ := 0
  nodes : ℕ := 0
  deriving DecidableEq

/-- The fields a parser of one resource's failure fills in. -/
structure Diagnosis (X : Type) where
  cause : String := ""
  action : String := ""
  conditionalCleanup : Option X := none
  remediationKind : String := ""
  remediationTarget : String := ""
  operationRetryCount : ℕ := 0
  stuck : Bool := false
  deriving DecidableEq

/-- An instant; zero is the time that is not set. -/
abbrev Time := ℤ

structure Issue (X : Type) where
  severity : Severity
  source : Source
  category : Category
  categoryGroup : CategoryGroup := .unknown
  id : String
  groupingScope : Scope := .unknown
  kind : String
  group : String := ""
  ns : String := ""
  name : String
  owner : Ref := {}
  reason : String
  message : String := ""
  rawMessage : String := ""
  messageSource : String := ""
  fingerprint : String := ""
  diagnosis : Diagnosis X := {}
  degraded : Option X := none
  requiredReads : List EvidenceRead := []
  affectedRefs : List Ref := []
  capacityRelevant : Bool := false
  firstSeen : Time := 0
  onsetUnknown : Bool := false
  onsetCoverage : Option OnsetCoverage := none
  resourceCreatedAt : Time := 0
  lastSeen : Time := 0
  restartCount : ℕ := 0
  lastTerminatedReason : String := ""
  restartLoop : Option X := none
  diagnosticContext : Option X := none
  changeContext : Option X := none
  issueTiming : String := ""
  issueTimingBasis : String := ""
  count : ℕ := 0
  affected : Affected := {}
  members : List Ref := []
  membersTruncated : Bool := false
  deriving DecidableEq

variable {X : Type}

/-- `SeverityRank` -/
def Severity.rank : Severity → ℕ
  | .critical => 3
  | .warning => 2

/-- `issueSourceRank` -/
def Source.rank : Source → ℕ
  | .scheduling => 4
  | .missingRef => 3
  | .condition => 2
  | .problem => 1

namespace Issue

/-- The resource the row is about. -/
def resource (i : Issue X) : Ref := ⟨i.group,i.kind,i.ns,i.name⟩

/-- `subjectRef`: the topmost owner when one was resolved, else the resource. -/
def subjectRef (i : Issue X) : Ref := if i.owner.kind ≠ "" then i.owner else i.resource

end Issue

theorem Severity.rank_inj {s t : Severity} : s.rank = t.rank ↔ s = t := by
  cases s <;> cases t <;> decide

theorem Source.rank_inj {s t : Source} : s.rank = t.rank ↔ s = t := by
  cases s <;> cases t <;> decide

theorem Source.text_inj {s t : Source} : s.text = t.text ↔ s = t := by
  cases s <;> cases t <;> decide

end Radar.Issues
