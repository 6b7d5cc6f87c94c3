import Mathlib.Algebra.Order.Ring.Int
import Radar.Base.Grouping
import Radar.Base.Names
import Radar.Base.Ranking
import Radar.Issues.Issue

/-!
# Folding flat rows into grouped issues

`GroupIssues` puts the rows into buckets by ID, folds every bucket into one
row and sorts the rows. The buckets are a Go map, so they are folded in any
order.
-/

set_option autoImplicit false

namespace Radar.Issues

variable {X : Type}

section Representative

/-- The first place where the lists differ decides. -/
def lessAt : List String → List String → Bool
  | c::cs, r::rs => if c ≠ r then decide (c < r) else lessAt cs rs
  | _, _ => false

def identityFields (i : Issue X) : List String :=
  [i.group, i.kind, i.ns, i.name, i.source.text, i.reason, i.message]

def betterRepresentative (cand cur : Issue X) : Bool :=
  if cand.severity.rank ≠ cur.severity.rank then
    decide (cand.severity.rank > cur.severity.rank)
  else if cand.lastSeen ≠ cur.lastSeen then
    decide (cand.lastSeen > cur.lastSeen)
  else
    lessAt (identityFields cand) (identityFields cur)

end Representative

section Onset

/-- `t` becomes `m` when `m` is set and earlier. -/
def earlier (t m : Time) : Time := if m ≠ 0 ∧ (t = 0 ∨ m < t) then m else t

/-- The variables of the loop in `foldIssueOnset`. -/
structure Onset where
  known : ℕ := 0
  unknown : ℕ := 0
  firstSeen : Time := 0
  resourceCreatedAt : Time := 0

def Onset.add (o : Onset) (member : Issue X) : Onset :=
  let counted : ℕ × ℕ :=
    match member.onsetCoverage with
    | some c => (c.known, c.unknown)
    | none => if member.firstSeen = 0 then (0, 1) else (1, 0)
  { known := o.known+counted.1
    unknown := o.unknown+counted.2
    firstSeen := earlier o.firstSeen member.firstSeen
    resourceCreatedAt := earlier o.resourceCreatedAt member.resourceCreatedAt }

def foldIssueOnset (members : List (Issue X)) : Onset := members.foldl Onset.add {}

def Onset.coverage (o : Onset) : Option OnsetCoverage :=
  if o.unknown > 0 ∧ o.known+o.unknown > 1 then some ⟨o.known,o.unknown⟩ else none

end Onset

section Agreement

variable [DecidableEq X]

def hasDiagnosis (d : Diagnosis X) : Bool :=
  d.cause ≠ "" || d.action ≠ "" || d.conditionalCleanup.isSome || d.remediationKind ≠ "" ||
    d.remediationTarget ≠ "" || d.operationRetryCount ≠ 0 || d.stuck

/-- The loop of `agreedDiagnosis`; `picked` starts as the zero row. -/
def agreeWith (picked : Diagnosis X) : List (Issue X) → Option (Diagnosis X)
  | [] => some picked
  | m::ms =>
    if hasDiagnosis m.diagnosis = false then none
    else if hasDiagnosis picked = false then agreeWith m.diagnosis ms
    else if m.diagnosis ≠ picked then none
    else agreeWith picked ms

def agreedDiagnosis (members : List (Issue X)) : Option (Diagnosis X) :=
  if members = [] then none else agreeWith {} members

/-- The agreement scan over `IssueTiming`, from what it holds so far. -/
def timingScan (timing basis : String) : List (Issue X) → String × String
  | [] => (timing, basis)
  | m::ms =>
    if m.issueTiming = "" then timingScan timing basis ms
    else if timing = "" then timingScan m.issueTiming m.issueTimingBasis ms
    else if timing ≠ m.issueTiming then ("", "") -- the loop is left here
    else timingScan timing (if basis ≠ m.issueTimingBasis then "" else basis) ms

def issueTimingIndependentOfOnset (basis : String) : Bool :=
  basis = "owner_condition" || basis = "pod_creation" || basis = "spec"

/-- The scan's result is dropped where only some members have a known onset. -/
def groupTiming (coverage : Option OnsetCoverage) (members : List (Issue X)) : String × String :=
  let scanned := timingScan "" "" members
  let partly := match coverage with
    | some c => c.known > 0 && c.unknown > 0
    | none => false
  if partly && !issueTimingIndependentOfOnset scanned.2 then ("", "") else scanned

end Agreement

section Members

def lessRef (a b : Ref) : Bool :=
  if a.ns ≠ b.ns then decide (a.ns < b.ns)
  else if a.name ≠ b.name then decide (a.name < b.name)
  else if a.kind ≠ b.kind then decide (a.kind < b.kind)
  else decide (a.group < b.group)

def sortRefs (refs : List Ref) : List Ref := Ranking.sorted lessRef refs

def isWorkloadKind (kind : String) : Bool :=
  kind = "Deployment" || kind = "Rollout" || kind = "StatefulSet" || kind = "DaemonSet" ||
    kind = "ReplicaSet" || kind = "Job" || kind = "CronJob"

def affectedOf (refs : List Ref) : Affected where
  pods := refs.countP fun r => r.kind = "Pod"
  workloads := refs.countP fun r => isWorkloadKind r.kind
  services := refs.countP fun r => r.kind = "Service"
  pvcs := refs.countP fun r => r.kind = "PersistentVolumeClaim"
  nodes := refs.countP fun r => r.kind = "Node"

def maxInlineMembers : ℕ := 10

def latest (t : Time) (members : List (Issue X)) : Time :=
  members.foldl (fun t m => if m.lastSeen > t then m.lastSeen else t) t

/-- The member resources other than the subject. -/
def memberRefs (subject : Ref) (members : List (Issue X)) : List Ref :=
  (members.map Issue.resource).filter fun own => own ≠ subject

end Members

variable [DecidableEq X]

/-- One grouped row from the representative and the members it was chosen from. -/
def foldOver (rep : Issue X) (members : List (Issue X)) : Issue X :=
  let subject := rep.subjectRef
  let onset := foldIssueOnset members
  let timing := groupTiming onset.coverage members
  let refs := sortRefs (memberRefs subject members)
  { severity := rep.severity
    source := rep.source
    category := rep.category
    categoryGroup := rep.categoryGroup
    id := rep.id
    groupingScope := rep.groupingScope
    kind := subject.kind
    group := subject.group
    ns := subject.ns
    name := subject.name
    reason := rep.reason
    message := rep.message
    rawMessage := rep.rawMessage
    messageSource := rep.messageSource
    fingerprint := rep.fingerprint
    restartCount := rep.restartCount
    lastTerminatedReason := rep.lastTerminatedReason
    restartLoop := rep.restartLoop
    diagnosticContext := rep.diagnosticContext
    affectedRefs := rep.affectedRefs
    changeContext := rep.changeContext
    degraded := rep.degraded
    requiredReads := Names.distinctFrom [] (members.flatMap Issue.requiredReads)
    diagnosis := (agreedDiagnosis members).getD {}
    lastSeen := latest rep.lastSeen members
    firstSeen := onset.firstSeen
    onsetUnknown := onset.known = 0
    onsetCoverage := onset.coverage
    resourceCreatedAt := onset.resourceCreatedAt
    issueTiming := timing.1
    issueTimingBasis := timing.2
    capacityRelevant := members.any Issue.capacityRelevant
    count := refs.length
    affected := affectedOf refs
    membersTruncated := refs.length > maxInlineMembers
    members := refs.take maxInlineMembers }

/-- `foldGroup`; there is no bucket without a member. -/
def foldGroup : List (Issue X) → Option (Issue X)
  | [] => none
  | first::rest => some (foldOver (Ranking.best betterRepresentative first rest) (first::rest))

def issueSortAnchor (i : Issue X) : Time := if i.firstSeen ≠ 0 then i.firstSeen
  else i.resourceCreatedAt

def lessIssue (a b : Issue X) : Bool :=
  if a.severity ≠ b.severity then decide (a.severity.rank > b.severity.rank)
  else if a.source.rank ≠ b.source.rank then decide (a.source.rank > b.source.rank)
  else if issueSortAnchor a ≠ issueSortAnchor b then
    decide (issueSortAnchor a > issueSortAnchor b)
  else if a.ns ≠ b.ns then decide (a.ns < b.ns)
  else if a.name ≠ b.name then decide (a.name < b.name)
  else decide (a.id < b.id)

abbrev Bucket (X : Type) := Grouping.Group String Unit (Issue X)

def buckets (flat : List (Issue X)) : List (Bucket X) :=
  Grouping.collect Issue.id (fun _ => ()) flat

/-- `GroupIssues` when the map is ranged over in the order of `ranged`. -/
def groupRanged (ranged : List (Bucket X)) : List (Issue X) :=
  Ranking.sorted lessIssue (ranged.filterMap fun b => foldGroup b.members)

/-- What a call of `GroupIssues` may return. -/
def GroupIssues (flat out : List (Issue X)) : Prop :=
  ∃ ranged, ranged.Perm (buckets flat) ∧ out = groupRanged ranged

end Radar.Issues
