import Mathlib.Data.List.Basic
import Mathlib.Data.Int.Notation

/-!
# Timeline events, scopes, presets and query options

The row type shared by every event store, the upsert rule for its owner
tuple, and the two content predicates a query carries: the resource scope
and the compiled filter preset. Times are nanoseconds since the zero time,
so the zero value is the source's unset time.
-/

set_option autoImplicit false

namespace Radar.Timeline

/-- Nanoseconds since January 1 of year 1, UTC. -/
abbrev Time := ℤ

def Time.isZero (t : Time) : Bool := decide (t = 0)

structure OwnerInfo where
  kind : String
  name : String
  apiVersion : String
  uid : String
  deriving DecidableEq, Repr

inductive OwnerEvidence where
  | unset
  | observed
  | reconstructed
  | enriched
  | missed
  | unidentified
  | other (text : String)
      (fresh : text ∉ ["", "observed", "reconstructed", "enriched", "missed", "unidentified"])
  deriving DecidableEq, Repr

inductive EventSource where
  | informer
  | k8sEvent
  | historical
  | other (text : String) (fresh : text ∉ ["informer", "k8s_event", "historical"])
  deriving DecidableEq, Repr

theorem EventSource.unset_fresh : "" ∉ ["informer", "k8s_event", "historical"] := by decide

inductive EventType where
  | add
  | update
  | delete
  | normal
  | warning
  | other (text : String) (fresh : text ∉ ["add", "update", "delete", "Normal", "Warning"])
  deriving DecidableEq, Repr

theorem EventType.unset_fresh : "" ∉ ["add", "update", "delete", "Normal", "Warning"] := by decide

/-- A diff is carried and stored whole, so its marshalled text stands for it. -/
abbrev DiffInfo := String

structure TimelineEvent where
  id : String := ""
  timestamp : Time := 0
  source : EventSource := .other "" EventSource.unset_fresh
  seq : ℕ := 0
  clusterContext : String := ""
  kind : String := ""
  apiVersion : String := ""
  ns : String := ""
  name : String := ""
  uid : String := ""
  createdAt : Option Time := none
  eventType : EventType := .other "" EventType.unset_fresh
  reason : String := ""
  message : String := ""
  diff : Option DiffInfo := none
  healthState : String := ""
  owner : Option OwnerInfo := none
  ownerEvidence : OwnerEvidence := .unset
  labels : Option (List (String × String)) := none
  count : ℤ := 0
  correlationID : String := ""
  deriving DecidableEq, Repr

def TimelineEvent.isManaged (e : TimelineEvent) : Bool :=
  e.owner.isSome || e.kind == "ReplicaSet" || e.kind == "Pod" || e.kind == "Event"

def ownerReplacesOnUpsert (incoming : TimelineEvent) : Bool :=
  match incoming.ownerEvidence with
  | .enriched | .unidentified => true
  | .unset => match incoming.owner with
    | some o => o.kind != ""
    | none => false
  | _ => false

/-- The text before the first slash; no slash means the core group. -/
def groupFromAPIVersion (apiVersion : String) : String :=
  if '/' ∈ apiVersion.toList then String.ofList (apiVersion.toList.takeWhile (· ≠ '/')) else ""

structure Ref where
  group : String
  kind : String
  ns : String
  name : String
  deriving DecidableEq, Repr

def ownerUnknown (e : TimelineEvent) : Bool :=
  !(match e.owner with
    | some o => o.uid != ""
    | none => false) &&
  match e.ownerEvidence with
  | .observed | .enriched | .reconstructed => false
  | _ => true

def rowIsAbout (e : TimelineEvent) (ref : Ref) : Bool :=
  ref.kind == e.kind && ref.ns == e.ns && ref.name == e.name &&
  (e.apiVersion == "" || groupFromAPIVersion e.apiVersion == ref.group)

structure ResourceScope where
  uids : List String := []
  ownerUIDs : List String := []
  refs : List Ref := []
  ownerlessRefs : List Ref := []
  deriving DecidableEq, Repr

def ResourceScope.isZero (s : ResourceScope) : Bool :=
  s.uids.isEmpty && s.ownerUIDs.isEmpty && s.refs.isEmpty && s.ownerlessRefs.isEmpty

def ResourceScope.matches (s : ResourceScope) (e : TimelineEvent) : Bool :=
  if s.isZero then true
  else if e.uid != "" && s.uids.contains e.uid then true
  else if (match e.owner with
    | some o => o.uid != "" && s.ownerUIDs.contains o.uid
    | none => false) then true
  else if s.refs.any (rowIsAbout e) then true
  else if ownerUnknown e then s.ownerlessRefs.any (rowIsAbout e)
  else false

/-- The fragment of regular expressions the presets use: literal characters,
`.` for any character but a newline, and a final `$`. -/
structure NamePattern where
  atoms : List (Option Char)
  atEnd : Bool
  deriving DecidableEq, Repr

def compilePattern (pattern : String) : NamePattern :=
  let cs := pattern.toList
  let body := if cs.getLast? = some '$' then cs.dropLast else cs
  ⟨body.map (fun c => if c = '.' then none else some c), cs.getLast? = some '$'⟩

def matchHere (atEnd : Bool) : List (Option Char) → List Char → Bool
  | [], rest => !atEnd || rest.isEmpty
  | _::_, [] => false
  | none::atoms, c::rest => c != '\n' && matchHere atEnd atoms rest
  | some a::atoms, c::rest => a == c && matchHere atEnd atoms rest

def NamePattern.matchString (p : NamePattern) (name : String) : Bool :=
  name.toList.tails.any (matchHere p.atEnd p.atoms)

structure FilterPreset where
  name : String
  excludeKinds : List String := []
  includeKinds : List String := []
  excludeNamePatterns : List String := []
  excludeOperations : List EventType := []
  includeEventTypes : List EventType := []
  includeManaged : Bool := false
  deriving DecidableEq, Repr

def defaultFilterPresets : String → Option FilterPreset
  | "default" => some {
      name := "default"
      excludeKinds := ["Lease", "Endpoints", "EndpointSlice"]
      excludeNamePatterns := [
        "-lock$", "-lease$", "-leader-election$", "-heartbeat$",
        "cluster-kubestore", "cluster-autoscaler-status",
        "datadog-token", "datadog-operator-lock", "datadog-leader-election",
        "kube-root-ca.certs"]
      includeManaged := false }
  | "all" => some { name := "all", includeManaged := true }
  | "warnings-only" => some {
      name := "warnings-only", includeEventTypes := [.warning], includeManaged := true }
  | "workloads" => some {
      name := "workloads"
      includeKinds := [
        "Deployment", "Rollout", "DaemonSet", "StatefulSet", "ReplicaSet",
        "Job", "CronJob", "Pod"]
      includeManaged := true }
  | _ => none

structure CompiledFilter where
  preset : FilterPreset
  excludePatterns : List NamePattern
  deriving DecidableEq, Repr

def compileFilter (preset : FilterPreset) : CompiledFilter :=
  ⟨preset, preset.excludeNamePatterns.map compilePattern⟩

/-- The include and exclude maps of the source hold exactly the preset's lists. -/
def CompiledFilter.matches (cf : CompiledFilter) (e : TimelineEvent) : Bool :=
  !(!cf.preset.includeKinds.isEmpty && !cf.preset.includeKinds.contains e.kind) &&
  !cf.preset.excludeKinds.contains e.kind &&
  !cf.excludePatterns.any (fun re => re.matchString e.name) &&
  !(!cf.preset.includeEventTypes.isEmpty && !cf.preset.includeEventTypes.contains e.eventType) &&
  !cf.preset.excludeOperations.contains e.eventType

def includesManaged (cf : Option CompiledFilter) : Bool :=
  match cf with
  | some cf => cf.preset.includeManaged
  | none => false

/-- An unknown preset name filters nothing; the per-store cache only saves the compilation. -/
def getOrCompileFilter (presetName : String) : Option CompiledFilter :=
  if presetName = "" then none else (defaultFilterPresets presetName).map compileFilter

inductive SequenceOrder where
  | unset
  | ascending
  | descending
  deriving DecidableEq, Repr

structure QueryOptions where
  namespaces : List String := []
  kinds : List String := []
  names : List String := []
  apiGroups : List String := []
  requireAPIVersion : Bool := false
  sinceTime : Time := 0
  untilTime : Time := 0
  sources : List EventSource := []
  eventTypes : List EventType := []
  clusterContext : String := ""
  sinceSeq : ℤ := 0
  untilSeq : ℤ := 0
  sequenceOrder : SequenceOrder := .unset
  seqPaging : Bool := false
  filterPreset : String := ""
  limit : ℤ := 0
  offset : ℤ := 0
  scope : ResourceScope := {}
  includeManaged : Bool := false
  excludeDeleted : Bool := false
  includeK8sEvents : Bool := false
  deriving DecidableEq, Repr

/-- The page bound both stores use: 200 unless set, at most 10000. -/
def effectiveLimit (opts : QueryOptions) : ℕ :=
  if opts.limit ≤ 0 then 200 else if opts.limit > 10000 then 10000 else opts.limit.toNat

def deltaPaging (opts : QueryOptions) : Bool := opts.seqPaging || decide (opts.sinceSeq > 0)

def deltaAscending (opts : QueryOptions) : Bool :=
  deltaPaging opts || opts.sequenceOrder == .ascending

theorem effective_limit_pos (opts : QueryOptions) : 0 < effectiveLimit opts := by
  unfold effectiveLimit
  split_ifs <;> omega

end Radar.Timeline
