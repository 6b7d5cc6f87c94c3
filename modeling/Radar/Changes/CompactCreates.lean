import Mathlib.Data.List.AList
import Mathlib.Data.List.Lex
import Mathlib.Data.String.Basic
import Radar.Base.Segments
import Radar.Base.SortFunc
import Radar.Base.ZonedTime

/-!
# Compact lists of created objects

Runs of plain creates are moved out of the changes into one line for each object.
The lines are written for a reader that knows the first time of the run and the
API versions of its kinds.
-/

set_option autoImplicit false

namespace Radar.Changes

abbrev Text := List Char

structure ChangeField where
  path : Text
  oldValue : Option Text
  newValue : Option Text
  deriving DecidableEq

structure Withheld where
  count : ℕ
  reason : Text
  deriving DecidableEq

structure RunningPreviousValue where
  workloads : List Text
  withheld : Option Withheld
  pods : ℕ
  keys : List Text
  note : Text
  deriving DecidableEq

structure RecentChange where
  source : Text := []
  kind : Text
  apiVersion : Text := []
  ns : Text := []
  name : Text
  changeType : Text
  summary : Text := []
  timestamp : Text
  changeCategory : Text := []
  rankReason : Text := []
  applicationConfigurationChange : Bool := false
  notLinkedToReturnedIssues : Bool := false
  fields : List ChangeField := []
  consumedBy : List Text := []
  consumedByWithheld : Option Withheld := none
  runningPreviousValue : Option RunningPreviousValue := none
  updatesInWindow : ℕ := 0
  firstUpdateAt : Text := []
  deriving DecidableEq

structure CreatedObjects where
  ns : Text
  first : Text
  count : ℕ
  apiVersions : AList fun _ : Text => Text
  objects : List Text

def lifecycleRankReason : Text :=
  "resource create/delete for config or desired state".toList

def changeCategoryLifecycle : Text := "lifecycle".toList

def createRunMinSize : ℕ := 5

/-- In seconds. -/
def createRunMaxGap : ℤ := 60

def standaloneCreateKinds : List Text :=
  ["NetworkPolicy","ResourceQuota","LimitRange","HorizontalPodAutoscaler","PodDisruptionBudget",
    "ReferenceGrant","MutatingWebhookConfiguration","ValidatingWebhookConfiguration","Application",
    "Kustomization","HelmRelease"].map String.toList

section Plain

def createdObjectNamePlain (s : Text) : Bool := !s.isEmpty && s.all fun c => c ∉ " /(),".toList

def isPlainCreate (c : RecentChange) : Bool :=
  decide (c.source = [] ∧ c.ns ≠ [] ∧ c.changeType = "add".toList ∧ c.summary = "add".toList ∧
    c.changeCategory = changeCategoryLifecycle ∧ c.rankReason = lifecycleRankReason) &&
  !c.applicationConfigurationChange && !c.notLinkedToReturnedIssues && c.fields.isEmpty &&
  c.consumedByWithheld.isNone && decide (c.kind ∉ standaloneCreateKinds) &&
  createdObjectNamePlain c.kind && createdObjectNamePlain c.name

def changeKey (c : RecentChange) : Text :=
  c.kind++"/".toList++c.ns++"/".toList++c.name++"/".toList++c.changeType

def createdObjectLine (c : RecentChange) (offsetSeconds : ℤ) : Text :=
  let line := "+".toList++(toString offsetSeconds).toList++"s ".toList++c.kind++"/".toList++c.name
  if c.consumedBy = [] then line
  else line++" (used by ".toList++", ".toList.intercalate c.consumedBy++")".toList

end Plain

section Runs

structure Candidate where
  index : ℕ
  change : RecentChange
  instant : ℤ
  zone : Text
  deriving DecidableEq

/-- The plain creates whose times can be read. -/
def candidates (changes : List RecentChange) : List Candidate :=
  changes.zipIdx.filterMap fun (change,i) =>
    if isPlainCreate change then
      (ZonedTime.parse change.timestamp).map fun t =>
        ⟨i,change,t.instant,ZonedTime.zoneSuffix change.timestamp⟩
    else none

/-- Those of kinds on whose API version all agree. -/
def oneVersion (cs : List Candidate) : List Candidate :=
  cs.filter fun c => cs.all fun d => d.change.kind ≠ c.change.kind ||
    d.change.apiVersion = c.change.apiVersion

def Before (a b : Candidate) : Prop :=
  a.instant < b.instant ∨ (a.instant = b.instant ∧ changeKey a.change ≤ changeKey b.change)

instance : DecidableRel Before := fun _ _ => inferInstanceAs (Decidable (_ ∨ _))

/-- A namespace's candidates in the order in which runs are looked for. -/
def sortedCandidates (changes : List RecentChange) (ns : Text) : List Candidate :=
  (oneVersion ((candidates changes).filter (·.change.ns = ns))).insertionSort Before

/-- The runs from `start` on, where `run` is what was met of its run. -/
def runsFrom (run : List Candidate) (start previous : Candidate) :
    List Candidate → List (List Candidate)
  | [] => [run]
  | c::cs =>
    if c.instant-previous.instant > createRunMaxGap ∨ c.zone ≠ start.zone then
      run::runsFrom [c] c c cs
    else runsFrom (run++[c]) start c cs

def runs : List Candidate → List (List Candidate)
  | [] => []
  | c::cs => runsFrom [c] c c cs

def addVersion (m : AList fun _ : Text => Text) (c : Candidate) : AList fun _ : Text => Text :=
  if c.change.apiVersion = [] then m else m.insert c.change.kind c.change.apiVersion

def entryOf (first : Candidate) (run : List Candidate) : CreatedObjects where
  ns := first.change.ns
  first := first.change.timestamp
  count := run.length
  apiVersions := run.foldl addVersion ∅
  objects := run.map fun c => createdObjectLine c.change (c.instant-first.instant)

/-- The runs that are long enough. -/
def movedRuns (changes : List RecentChange) (ns : Text) : List (List Candidate) :=
  (runs (sortedCandidates changes ns)).filter fun run => decide (createRunMinSize ≤ run.length)

def entries (changes : List RecentChange) (ns : Text) : List CreatedObjects :=
  (movedRuns changes ns).filterMap fun run => run.head?.map fun first => entryOf first run

end Runs

section Compact

def firstInstant (e : CreatedObjects) : ℤ := ((ZonedTime.parse e.first).map (·.instant)).getD 0

/-- By the first time, then by namespace. -/
def entryOrder : CreatedObjects → CreatedObjects → Ordering :=
  compareLex (compareOn firstInstant) (compareOn CreatedObjects.ns)

def namespaces (changes : List RecentChange) : List Text :=
  ((candidates changes).map (·.change.ns)).dedup

variable (range : List Text → List Text) (sort : SortFunc entryOrder)

/-- The indexes of the rows that are moved. -/
def moved (changes : List RecentChange) : List ℕ :=
  ((namespaces changes).flatMap fun ns => (movedRuns changes ns).flatten).map (·.index)

/-- The rows that stay and the entries. The namespaces are ranged over in any order. -/
def CompactCreates (changes : List RecentChange) : List RecentChange × List CreatedObjects :=
  let created := (range (namespaces changes)).flatMap (entries changes)
  if created = [] then (changes,[])
  else ((changes.zipIdx.filter fun (_,i) => i ∉ moved changes).map Prod.fst,sort.run created)

end Compact

section Expand

def versionOf (e : CreatedObjects) (kind : Text) : Text := (e.apiVersions.lookup kind).getD []

def consumersOf (tail : Text) : List Text :=
  if tail = [] then []
  else
    match ((tail.drop " (used by ".length).dropLast).splitOn ',' with
    | [] => []
    | first::rest => first::rest.map (List.drop 1)

/-- Reads a line back, given the first time of its entry. -/
def expandLine (e : CreatedObjects) (first : ZonedTime.Stamp) (line : Text) : RecentChange :=
  let digits := (line.drop 1).takeWhile Char.isDigit
  let object := ((line.drop 1).dropWhile Char.isDigit).drop 2
  let kind := object.takeWhile (· ≠ '/')
  let rest := (object.dropWhile (· ≠ '/')).drop 1
  let at₀ : ZonedTime.Stamp := ⟨first.seconds+(Nat.ofDigitChars 10 digits 0 : ℕ),first.zone⟩
  { kind := kind
    apiVersion := versionOf e kind
    ns := e.ns
    name := rest.takeWhile (· ≠ ' ')
    changeType := "add".toList
    summary := "add".toList
    timestamp := at₀.text
    changeCategory := changeCategoryLifecycle
    rankReason := lifecycleRankReason
    consumedBy := consumersOf (rest.dropWhile (· ≠ ' ')) }

/-- The rows that an entry stands for. -/
def expand (e : CreatedObjects) : List RecentChange :=
  match ZonedTime.parse e.first with
  | none => []
  | some first => e.objects.map (expandLine e first)

end Expand

end Radar.Changes
