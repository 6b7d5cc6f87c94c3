import Mathlib.Data.Int.Notation
import Mathlib.Data.Nat.Digits.Defs
import Radar.Base.Runes
import Radar.Base.SortFunc

/-!
# The history of a Helm release

The analysis walks the revisions in order, takes a failed one together with
the rollback behind it, and puts the state of the current revision beside what
the walk found. Times are nanoseconds since the zero time.
-/

set_option autoImplicit false

namespace Radar.HelmHistory
open Radar.Runes

section Data

abbrev Time := ℤ

inductive OperationKind where
  | releaseFailed | upgradeFailed | upgradeRolledBack | rollback | pending
  deriving DecidableEq, Repr

inductive OperationStatus where
  | failed | rolledBack | completed | stuckPending
  deriving DecidableEq, Repr

inductive Confidence where
  | high | medium | low
  deriving DecidableEq, Repr

inductive Source where
  | helmStatus | helmHistory
  deriving DecidableEq, Repr

structure Revision where
  revision : ℤ
  status : String
  description : String := ""
  updated : Time := 0
  deleted : Time := 0
  deriving DecidableEq, Repr

structure Operation where
  kind : OperationKind
  status : OperationStatus
  source : Source
  confidence : Confidence
  message : String
  rawMessage : String := ""
  evidence : String := ""
  failureDescription : String := ""
  revision : ℤ := 0
  failedRevision : ℤ := 0
  rollbackRevision : ℤ := 0
  targetRevision : ℤ := 0
  pendingStatus : String := ""
  updated : Time := 0
  deriving DecidableEq, Repr

structure Options where
  pendingStuckAfter : ℤ := 0
  maxOperations : ℤ := 0
  now : Time := 0

structure Analysis where
  lastOperation : Option Operation := none
  operations : List Operation := []
  deriving DecidableEq, Repr

/-- `strings.ToLower`, which is about all of Unicode, the `%q` verb, and `FormatAgeShort`, which
counts in floating point. -/
structure Lib where
  toLower : String → String
  quote : String → String
  formatAgeShort : ℤ → String

def operationRevision (op : Operation) : ℤ :=
  if op.rollbackRevision > 0 then op.rollbackRevision
  else if op.revision > 0 then op.revision
  else op.failedRevision

/-- The two sorts. They are not stable. -/
structure Sorts where
  revisions : SortFunc (compareOn Revision.revision)
  operations : SortFunc fun a b => compareOn operationRevision b a

end Data

section Descriptions

variable (lib : Lib)

def trimText (s : String) : String := String.ofList (trimSpace s.toList)

def normalizeStatus (status : String) : String := lib.toLower (trimText status)

def isPending (status : String) : Bool :=
  normalizeStatus lib status ∈
    ["pending-install","pending-upgrade","pending-rollback","uninstalling"]

def isCompletedRevisionStatus (status : String) : Bool :=
  normalizeStatus lib status ∈ ["deployed","superseded"]

/-- A description that starts with `rollback to` and a number, which ends at a word's end. -/
def rollbackTarget (description : String) : Option ℤ := do
  let rest ← afterFold "rollback to ".toList (trimSpace description.toList)
  let digits := rest.takeWhile Char.isDigit
  let target : ℤ := Nat.ofDigitChars 10 digits 0
  if digits ≠ [] ∧ (rest.dropWhile Char.isDigit).head?.any isWord = false ∧ 0 < target ∧
      target < 2^63 then some target
  else none

/-- The quoted name between `upgrade` and `failed:`. -/
def afterQuoted (s : List Char) : Option (List Char) := do
  let rest ← (afterSome isBlank s).filter fun rest => rest.head? = some '"'
  let rest ← afterSome (· ≠ '"') rest.tail
  if rest.head? = some '"' then some rest.tail else none

def isUpgradeFailureDescription (description : String) : Bool :=
  ((afterFold "upgrade".toList (trimSpace description.toList)).bind fun rest =>
    (afterSome isBlank ((afterQuoted rest).getD rest)).bind (afterFold "failed:".toList)).isSome

def isReadinessTimeoutMessage (msg : String) : Bool :=
  let lower := lib.toLower msg
  holds "context deadline exceeded" lower && holds "status: inprogress" lower &&
    (holds "not ready" lower || holds "available: 0/" lower)

def readinessTimeoutMessage (releaseName : String) : String :=
  let name := trimText releaseName
  if name = "" then "Helm release did not become ready before Helm timed out."
  else "Helm release " ++ lib.quote name ++ " did not become ready before Helm timed out."

end Descriptions

section Operations

variable (lib : Lib)

def rolledBackOperation (failed rollback : Revision) (target : ℤ) : Operation where
  kind := .upgradeRolledBack
  status := .rolledBack
  source := .helmHistory
  confidence := .medium
  message := "Upgrade failed at rev " ++ toString failed.revision ++ "; Helm rolled back to rev " ++
    toString target ++ " as rev " ++ toString rollback.revision ++ "."
  evidence := "failed revision " ++ toString failed.revision ++
    " followed by rollback revision " ++ toString rollback.revision
  failureDescription := trimText failed.description
  failedRevision := failed.revision
  rollbackRevision := rollback.revision
  targetRevision := target
  updated := rollback.updated

def failureMessage (rev : Revision) : String :=
  let message := if isUpgradeFailureDescription rev.description then
      "Upgrade failed at rev " ++ toString rev.revision ++ "."
    else "Release failed at rev " ++ toString rev.revision ++ "."
  if rev.description ≠ "" then message ++ " " ++ rev.description else message

def failedOperation (releaseName : String) (rev : Revision) (source : Source) : Operation where
  kind := if isUpgradeFailureDescription rev.description then .upgradeFailed else .releaseFailed
  status := .failed
  source := source
  confidence := .high
  message :=
    if isReadinessTimeoutMessage lib (failureMessage rev) then readinessTimeoutMessage lib releaseName
    else failureMessage rev
  rawMessage :=
    if isReadinessTimeoutMessage lib (failureMessage rev) then trimText rev.description else ""
  evidence :=
    if source = .helmStatus then "latest Helm revision status is failed"
    else "Helm history revision status is failed"
  revision := rev.revision
  updated := rev.updated

def rollbackOperation (rev : Revision) (target : ℤ) : Operation where
  kind := .rollback
  status := .completed
  source := .helmHistory
  confidence := .medium
  message := "Helm rolled back to rev " ++ toString target ++ " as rev " ++ toString rev.revision ++ "."
  evidence := "revision " ++ toString rev.revision ++ " description indicates rollback"
  revision := rev.revision
  targetRevision := target
  updated := rev.updated

def pendingOperation (rev : Revision) (age : ℤ) : Operation where
  kind := .pending
  status := .stuckPending
  source := .helmStatus
  confidence := .high
  message := "Release has been " ++ rev.status ++ " for " ++ lib.formatAgeShort age ++ "."
  evidence :=
    if normalizeStatus lib rev.status = "uninstalling" then
      "latest Helm revision is still uninstalling, timed from Helm Info.Deleted"
    else "latest Helm revision is still pending"
  revision := rev.revision
  pendingStatus := normalizeStatus lib rev.status
  updated := if normalizeStatus lib rev.status = "uninstalling" then rev.deleted else rev.updated

end Operations

section Analyze

variable (lib : Lib) (sorts : Sorts) (releaseName : String)

def defaultPendingStuckAfter : ℤ := 10*60*1000000000

def isFailed (rev : Revision) : Bool := normalizeStatus lib rev.status = "failed"

/-- The target of a revision that completed a rollback. -/
def completedTarget (rev : Revision) : Option ℤ :=
  if isCompletedRevisionStatus lib rev.status then rollbackTarget rev.description else none

/-- The target of the rollback that follows a failed revision. -/
def followedBy (rev next : Revision) : Option ℤ :=
  if isFailed lib rev ∧ next.revision = rev.revision+1 then completedTarget lib next else none

/-- What the walk makes of a revision that stands alone. -/
def operationOf (rev : Revision) : Option Operation :=
  if isFailed lib rev then some (failedOperation lib releaseName rev .helmHistory)
  else (completedTarget lib rev).map (rollbackOperation rev)

/-- The walk. It goes past two revisions when the second one rolls the first one back. -/
def historyOperations : List Revision → List Operation
  | [] => []
  | [rev] => (operationOf lib releaseName rev).toList
  | rev::next::rest =>
    match followedBy lib rev next with
    | some target => rolledBackOperation rev next target::historyOperations rest
    | none => (operationOf lib releaseName rev).toList++historyOperations (next::rest)

def findCurrent (ordered : List Revision) (currentRevision : ℤ) : Option Revision :=
  ordered.reverse.find? fun rev => currentRevision ≤ 0 ∨ rev.revision = currentRevision

/-- Durations have 64 bits. -/
def sub (t u : Time) : ℤ := max (-2^63) (min (2^63-1) (t-u))

/-- The state of the current revision, if there is something to say about it. -/
def liveOperation (current : Revision) (now : Time) (pendingStuckAfter : ℤ) : Option Operation :=
  let status := normalizeStatus lib current.status
  let started := if status = "uninstalling" then current.deleted else current.updated
  if status = "failed" then some (failedOperation lib releaseName current .helmStatus)
  else if isPending lib status ∧ started ≠ 0 ∧ sub now started ≥ pendingStuckAfter then
    some (pendingOperation lib current (sub now started))
  else none

def withoutDuplicateLiveFailure (ops : List Operation) (live : Operation) : List Operation :=
  ops.filter fun op => !(op.status = .failed ∧ op.revision = live.revision)

/-- The operations without a second account of the live failure. -/
def keptOf (found : List Operation) (live : Option Operation) : List Operation :=
  match live.filter (·.status = .failed) with
  | some op => withoutDuplicateLiveFailure found op
  | none => found

/-- Where the options leave the time open it is `clock`. -/
def currentLive (ordered : List Revision) (clock : Time) (currentRevision : ℤ) (opts : Options) :
    Option Operation :=
  (findCurrent ordered currentRevision).bind fun current =>
    liveOperation lib releaseName current (if opts.now = 0 then clock else opts.now)
      (if opts.pendingStuckAfter ≤ 0 then defaultPendingStuckAfter else opts.pendingStuckAfter)

def resolvedCurrentRevision (ordered : List Revision) (currentRevision : ℤ) : ℤ :=
  ((findCurrent ordered currentRevision).map Revision.revision).getD currentRevision

def isRollbackOf (revision : ℤ) (op : Operation) : Bool :=
  operationRevision op = revision ∧ (op.kind = .upgradeRolledBack ∨ op.kind = .rollback)

def cut (opts : Options) (ops : List Operation) : List Operation :=
  if opts.maxOperations > 0 then ops.take opts.maxOperations.toNat else ops

def analyze (clock : Time) (currentRevision : ℤ) (revisions : List Revision) (opts : Options) :
    Analysis :=
  if revisions = [] then {}
  else
    let ordered := sorts.revisions.run revisions
    let live := currentLive lib releaseName ordered clock currentRevision opts
    let ops := cut opts
      (sorts.operations.run (keptOf (historyOperations lib releaseName ordered) live))
    { lastOperation :=
        live.or (ops.find? (isRollbackOf (resolvedCurrentRevision ordered currentRevision)))
      operations := ops }

end Analyze

end Radar.HelmHistory
