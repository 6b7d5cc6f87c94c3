import Radar.Base.Grouping
import Radar.Base.Join
import Radar.Base.Names
import Radar.Base.SortFunc

/-!
# Policy findings by subject and by policy

Reports are read into findings under the keys of their subjects, duplicates
are collapsed with the groups they came from, and the subjects are ranged over
once more to list the outcomes of each policy. A map is ranged over in any
order, and a sort may leave ties in any.
-/

set_option autoImplicit false

namespace Radar.PolicyFindings

/-- A value of an unstructured object; the kinds that are never read are one. -/
inductive Value where
  | str (s : String)
  | obj (fields : List (String × Value))
  | arr (items : List Value)
  | other

abbrev Object := List (String × Value)

def stringField (m : Object) (key : String) : String :=
  match m.lookup key with
  | some (.str s) => s
  | _ => ""

def Value.asObject : Value → Option Object
  | .obj fields => some fields
  | _ => none

structure Subject where
  group : String
  kind : String
  ns : String
  name : String
  deriving DecidableEq, Repr

structure Finding where
  policy : String
  rule : String
  result : String
  severity : String
  category : String
  message : String
  source : String
  deriving DecidableEq, Repr

/-- `groups` is where the finding was seen. -/
structure SourcedFinding where
  finding : Finding
  groups : List String
  deriving DecidableEq, Repr

structure PolicyOutcome where
  subject : Subject
  finding : Finding
  groups : List String
  deriving DecidableEq, Repr

section Keys

def subjectKey (s : Subject) : String :=
  s.group ++ "/" ++ s.kind ++ "/" ++ s.ns ++ "/" ++ s.name

/-- `SplitN(key, "/", 4)`, with a kind and a name. -/
def parseSubjectKey (key : String) : Option Subject := do
  let (group,rest) ← Join.cut '/' key.toList
  let (kind,rest) ← Join.cut '/' rest
  let (ns,name) ← Join.cut '/' rest
  if kind = [] ∨ name = [] then none
  else some ⟨String.ofList group,String.ofList kind,String.ofList ns,String.ofList name⟩

def groupFromAPIVersion (apiVersion : String) : String :=
  match Join.cut '/' apiVersion.toList with
  | some (group,_) => String.ofList group
  | none => ""

end Keys

section Extract

/-- A subject as a report refers to it. -/
def subjectRef (m : Object) : Subject where
  group := groupFromAPIVersion (stringField m "apiVersion")
  kind := stringField m "kind"
  ns := stringField m "namespace"
  name := stringField m "name"

def reportScope (report : Object) : Subject :=
  match report.lookup "scope" with
  | some (.obj scope) => subjectRef scope
  | _ => ⟨"","","",""⟩

/-- The items that are objects; nothing where `resources` is no list. -/
def resultResources (entry : Object) : Option (List Subject) :=
  match entry.lookup "resources" with
  | some (.arr items) => some ((items.filterMap Value.asObject).map subjectRef)
  | _ => none

def resultsOf (report : Object) : List Object :=
  match report.lookup "results" with
  | some (.arr items) => items.filterMap Value.asObject
  | _ => []

def reportNamespace (report : Object) : String :=
  match report.lookup "metadata" with
  | some (.obj metadata) => stringField metadata "namespace"
  | _ => ""

def reportGroup (report : Object) : String :=
  groupFromAPIVersion (stringField report "apiVersion")

def findingOf (entry : Object) : Finding where
  policy := stringField entry "policy"
  rule := stringField entry "rule"
  result := stringField entry "result"
  severity := stringField entry "severity"
  category := stringField entry "category"
  message := stringField entry "message"
  source := stringField entry "source"

/-- Without a kind and a name there is nothing to index. -/
def Subject.valid (s : Subject) : Bool := decide (s.kind ≠ "") && decide (s.name ≠ "")

def Subject.inNamespace (s : Subject) (ns : String) : Subject :=
  if s.ns = "" then { s with ns := ns } else s

/-- The valid resources of a result, or the scope of its report. -/
def subjectsOf (report entry : Object) : List Subject :=
  let validSubjects := ((resultResources entry).getD []).filter Subject.valid
  if resultResources entry = none ∨ validSubjects = [] then
    if (reportScope report).valid then [(reportScope report).inNamespace (reportNamespace report)]
    else []
  else validSubjects.map fun s => s.inNamespace (reportNamespace report)

/-- What a report appends under which keys; a missing report appends nothing. -/
def extractFindings : Option Object → List (String × SourcedFinding)
  | none => []
  | some report =>
    (resultsOf report).flatMap fun entry =>
      (subjectsOf report entry).map fun s =>
        (subjectKey s,⟨findingOf entry,[reportGroup report]⟩)

end Extract

section Dedupe

/-- Unions two lists of groups. -/
def mergeGroups (a b : List String) : List String :=
  Names.sorted (b.foldl (fun a g => if g ∈ a then a else a++[g]) a)

/-- A finding that is there already only brings its groups. -/
def collapse (out : List SourcedFinding) (sf : SourcedFinding) : List SourcedFinding :=
  if sf.finding ∈ out.map SourcedFinding.finding then
    out.map fun o =>
      if o.finding = sf.finding then { o with groups := mergeGroups o.groups sf.groups } else o
  else out++[sf]

def compareFindings : SourcedFinding → SourcedFinding → Ordering :=
  compareLex (compareOn fun s => s.finding.policy)
    (compareLex (compareOn fun s => s.finding.rule)
    (compareLex (compareOn fun s => s.finding.result)
    (compareLex (compareOn fun s => s.finding.severity)
    (compareLex (compareOn fun s => s.finding.category)
    (compareLex (compareOn fun s => s.finding.message)
    (compareOn fun s => s.finding.source))))))

/-- The severity, the category, the message, the source and the group of the subject are not
compared. -/
def compareOutcomes : PolicyOutcome → PolicyOutcome → Ordering :=
  compareLex (compareOn fun o => o.subject.ns)
    (compareLex (compareOn fun o => o.subject.kind)
    (compareLex (compareOn fun o => o.subject.name)
    (compareLex (compareOn fun o => o.finding.rule)
    (compareOn fun o => o.finding.result))))

end Dedupe

section Index

/-- The findings by key, in some order of the keys. -/
abbrev BySubject := List (String × List SourcedFinding)

/-- What the code leaves open: how ties are sorted and in which order a map is ranged over. -/
structure Choices where
  sortFindings : SortFunc compareFindings
  sortOutcomes : SortFunc compareOutcomes
  range : BySubject → BySubject
  range_perm : ∀ m, (range m).Perm m

structure Index where
  bySubject : BySubject
  byPolicy : String → List PolicyOutcome

variable (c : Choices)

def dedupeFindings (findings : List SourcedFinding) : List SourcedFinding :=
  if findings.length < 2 then findings else c.sortFindings.run (findings.foldl collapse [])

/-- `dst[key] = append(dst[key], sf)`, for every finding of every report. -/
def bySubjectOf (reports : List (Option Object)) : BySubject :=
  (Grouping.collect Prod.fst (fun _ => ()) (reports.flatMap extractFindings)).map fun g =>
    (g.key,g.members.map Prod.snd)

/-- What the findings of one key add to the outcomes of a policy. -/
def outcomesUnder (policy : String) (p : String × List SourcedFinding) : List PolicyOutcome :=
  match parseSubjectKey p.1 with
  | none => []
  | some subject =>
    (p.2.filter fun sf => sf.finding.policy ≠ "" ∧ sf.finding.policy = policy).map fun sf =>
      ⟨subject,sf.finding,sf.groups⟩

def buildPolicyIndex (bySubject : BySubject) (policy : String) : List PolicyOutcome :=
  c.sortOutcomes.run ((c.range bySubject).flatMap (outcomesUnder policy))

def replace (reports : List (Option Object)) : Index :=
  let next := (bySubjectOf reports).map fun p => (p.1,dedupeFindings c p.2)
  ⟨next,buildPolicyIndex c next⟩

def Index.sourcedFindingsFor (i : Index) (s : Subject) : List PolicyOutcome :=
  ((i.bySubject.lookup (subjectKey s)).getD []).map fun sf => ⟨s,sf.finding,sf.groups⟩

def Index.outcomesForPolicy (i : Index) (policy : String) : List PolicyOutcome :=
  if policy = "" then [] else i.byPolicy policy

end Index

end Radar.PolicyFindings
