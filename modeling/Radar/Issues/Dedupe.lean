import Radar.Issues.Issue

/-!
# De-duplication of flat issue rows

Seven passes over the flat rows, each dropping rows that a richer row of the
same resource or subject explains. Two of them donate the dropped severity to
the row that stays, two ask for a child at least as severe, and three drop
without looking at severities. A pass that finds nothing to compare with
returns its input early in the source, which is what its loop would return.
-/

set_option autoImplicit false

namespace Radar.Issues

variable {X : Type}

def childCategories : Category → Bool
  | .crashLoop | .highRestart | .imagePullFailed | .oomKilled | .containerWaiting
  | .initContainerFailed | .livenessProbeFail | .readinessFailed | .unschedulable
  | .quotaExceeded | .admissionWebhookBlocking | .podSecurityViolation | .rbacForbidden
  | .missingConfigRef | .volumeMountFailed | .pvcPending => true
  | _ => false

def podCreationChildCategories : Category → Bool
  | .quotaExceeded | .admissionWebhookBlocking | .podSecurityViolation | .rbacForbidden => true
  | _ => false

def parentRollupCategories : Category → Bool
  | .workloadDegraded | .rolloutStalled | .jobFailed => true
  | _ => false

def restartCycleCategories : Category → Bool
  | .crashLoop | .highRestart | .oomKilled | .livenessProbeFail => true
  | _ => false

def missingConfigCausesWaiting (reason : String) : Bool :=
  ["Missing ConfigMap", "Missing ConfigMap key", "Missing Secret", "Missing Secret key",
    "Missing ServiceAccount", "Missing imagePullSecret"].contains reason

/-- `severityForRank` -/
def severityForRank (r : ℕ) : Severity := if r ≥ 3 then .critical else .warning

/-- The largest `SeverityRank` of the rows, the zero of the map for no row. -/
def maxRank (rows : List (Issue X)) : ℕ :=
  rows.foldl (fun m i => if i.severity.rank > m then i.severity.rank else m) 0

section PodScheduling

def schedPods (rows : List (Issue X)) (ns name : String) : Bool :=
  rows.any fun i => i.source = .scheduling && i.kind = "Pod" && i.ns = ns && i.name = name

def dedupePodSchedulingOverProblem (rows : List (Issue X)) : List (Issue X) :=
  rows.filter fun i => !(i.source = .problem && i.kind = "Pod" && schedPods rows i.ns i.name)

end PodScheduling

section StructuralRoot

variable (isRoot isSymptom : Issue X → Bool)

def rootExists (rows : List (Issue X)) (resource : Ref) : Bool :=
  rows.any fun i => isRoot i && i.resource = resource

/-- The symptom rows of a resource that has a root. -/
def foldedInto (rows : List (Issue X)) (resource : Ref) : List (Issue X) :=
  rows.filter fun i => isSymptom i && rootExists isRoot rows i.resource && i.resource = resource

def donateSeverity (rows : List (Issue X)) (i : Issue X) : Issue X :=
  let r := maxRank (foldedInto isRoot isSymptom rows i.resource)
  if isRoot i && r > i.severity.rank then { i with severity := severityForRank r } else i

def structuralRootOverSymptom (rows : List (Issue X)) : List (Issue X) :=
  (rows.filter fun i => !(isSymptom i && rootExists isRoot rows i.resource)).map
    (donateSeverity isRoot isSymptom rows)

end StructuralRoot

def isMissingConfigRoot (i : Issue X) : Bool :=
  i.source = .missingRef && i.kind = "Pod" && i.category = .missingConfigRef &&
    missingConfigCausesWaiting i.reason

def isConfigWaiting (i : Issue X) : Bool :=
  i.source = .problem && i.kind = "Pod" && i.category = .containerWaiting &&
    i.reason = "CreateContainerConfigError"

def dedupeContainerWaitingOverMissingRef (rows : List (Issue X)) : List (Issue X) :=
  structuralRootOverSymptom isMissingConfigRoot isConfigWaiting rows

def isAutoscaler (kind : String) : Bool :=
  kind = "HorizontalPodAutoscaler" || kind = "ScaledObject"

def isMissingTargetRoot (i : Issue X) : Bool :=
  i.source = .missingRef && isAutoscaler i.kind && i.reason = "Missing scaleTargetRef"

def isLimitedAutoscaler (i : Issue X) : Bool :=
  i.category = .hpaLimitedOrFailed && isAutoscaler i.kind

def dedupeHPAOverMissingTarget (rows : List (Issue X)) : List (Issue X) :=
  structuralRootOverSymptom isMissingTargetRoot isLimitedAutoscaler rows

section Children

/-- The child-symptom rows of a subject. -/
def childrenOf (rows : List (Issue X)) (subject : Ref) : List (Issue X) :=
  rows.filter fun i => childCategories i.category && i.subjectRef = subject

/-- `rank, ok := maxChildSev[key]; ok && rank >= SeverityRank(i.Severity)` -/
def atLeastAsSevere (children : List (Issue X)) (i : Issue X) : Bool :=
  !children.isEmpty && maxRank children ≥ i.severity.rank

def isRepeatedCronFailure (i : Issue X) : Bool :=
  i.category = .cronJobFailed && i.reason = "repeated-without-success"

def dedupeRepeatedCronJobFailureOverChild (rows : List (Issue X)) : List (Issue X) :=
  rows.filter fun i =>
    !(isRepeatedCronFailure i && atLeastAsSevere (childrenOf rows i.subjectRef) i)

def isCreationChild (i : Issue X) : Bool :=
  i.source = .scheduling && podCreationChildCategories i.category

def loopChild (rows : List (Issue X)) (subject : Ref) : Bool :=
  (childrenOf rows subject).any fun i => i.restartLoop.isSome

/-- The child rows that may explain a rollup row. -/
def explainedBy (rows : List (Issue X)) (i : Issue X) : List (Issue X) :=
  if i.reason = "ReplicaFailure" then (childrenOf rows i.subjectRef).filter isCreationChild
  else childrenOf rows i.subjectRef

def isSuppressedParent (rows : List (Issue X)) (i : Issue X) : Bool :=
  parentRollupCategories i.category &&
    (i.category = .workloadDegraded && loopChild rows i.subjectRef ||
      atLeastAsSevere (explainedBy rows i) i)

/-- `suppressedIssueTiming` after the loop over the dropped parents of a subject. -/
def suppressedIssueTiming (rows : List (Issue X)) (subject : Ref) : String :=
  let dropped := rows.filter fun i =>
    isSuppressedParent rows i && i.issueTiming ≠ "" && i.subjectRef = subject
  let seen := dropped.foldl (fun (prev : Option String) i =>
    match prev with
    | some prev => if prev ≠ i.issueTiming then some "" else some prev
    | none => some i.issueTiming) none
  seen.getD ""

def hasAtCreationRow (out : List (Issue X)) (subject : Ref) : Bool :=
  out.any fun i => i.issueTiming = "started_at_resource_creation" && i.subjectRef = subject

def donateTiming (rows out : List (Issue X)) (i : Issue X) : Issue X :=
  let timing := suppressedIssueTiming rows i.subjectRef
  if i.issueTiming ≠ "" || !childCategories i.category then i
  else if timing = "" then i
  else if timing = "started_after_resource_was_healthy" &&
      (i.restartCount ≥ 3 || restartCycleCategories i.category ||
        hasAtCreationRow out i.subjectRef) then i
  else { i with issueTiming := timing, issueTimingBasis := "owner_condition" }

def dedupeWorkloadDegradedOverChild (rows : List (Issue X)) : List (Issue X) :=
  let out := rows.filter fun i => !isSuppressedParent rows i
  out.map (donateTiming rows out)

end Children

section Echoes

/-- `structural[issueResourceCategoryKey(i)]`, set by the missing-ref rows that satisfy `p`. -/
def structural (p : Issue X → Bool) (rows : List (Issue X)) (i : Issue X) : Bool :=
  rows.any fun m =>
    m.source = .missingRef && p m && m.resource = i.resource && m.category = i.category

def isMissingRefEchoCondition (i : Issue X) : Bool :=
  i.group = "gateway.networking.k8s.io" &&
    ["HTTPRoute", "GRPCRoute", "TCPRoute", "TLSRoute", "UDPRoute"].contains i.kind &&
    "ResolvedRefs:".toList.isPrefixOf i.reason.toList

def dedupeConditionOverMissingRef (rows : List (Issue X)) : List (Issue X) :=
  rows.filter fun i =>
    !(i.source = .condition && structural (fun _ => true) rows i && isMissingRefEchoCondition i)

def isPendingPVC (i : Issue X) : Bool :=
  i.kind = "PersistentVolumeClaim" && i.category = .pvcPending

def dedupePVCPendingOverMissingRef (rows : List (Issue X)) : List (Issue X) :=
  rows.filter fun i =>
    !(i.source = .problem && isPendingPVC i && structural isPendingPVC rows i)

end Echoes

/-- The rows as the rollup pass gets them. -/
def beforeRollups (rows : List (Issue X)) : List (Issue X) :=
  dedupeRepeatedCronJobFailureOverChild
    (dedupeHPAOverMissingTarget
      (dedupeContainerWaitingOverMissingRef (dedupePodSchedulingOverProblem rows)))

/-- The passes in the order `Compose` runs them. -/
def dedupe (rows : List (Issue X)) : List (Issue X) :=
  dedupePVCPendingOverMissingRef
    (dedupeConditionOverMissingRef (dedupeWorkloadDegradedOverChild (beforeRollups rows)))

/-- `Classify` for a missing reference. -/
def classifyMissingRef (reason : String) : Category :=
  if ["Missing backend Service", "Missing backend Service port", "Missing ALB action annotation",
      "Invalid ALB action annotation"].contains reason then .ingressBackendMissing
  else if reason = "Missing IngressClass" then .ingressClassMissing
  else if ["Missing Gateway backend Service", "Missing Gateway backend Service port",
      "Missing Gateway ReferenceGrant"].contains reason then .gatewayRouteInvalid
  else if reason = "Missing webhook backend Service" then .webhookBackendDown
  else if reason = "Missing StorageClass" then .pvcPending
  else .missingConfigRef

end Radar.Issues
