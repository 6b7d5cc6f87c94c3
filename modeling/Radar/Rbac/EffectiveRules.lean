import Mathlib.Logic.Function.Basic
import Radar.Base.Firsts
import Radar.Base.Names

/-!
# The effective rules of a subject

Roles and bindings are indexed by text keys. The rules of a subject are those
of the roles that its bindings and the bindings of its implicit groups refer
to, and they are flattened: a rule is skipped if its signature was seen, and
after five hundred the rest is cut.
-/

set_option autoImplicit false

namespace Radar.RbacIndex

structure PolicyRule where
  verbs : List String := []
  apiGroups : List String := []
  resources : List String := []
  resourceNames : List String := []
  nonResourceURLs : List String := []
  deriving DecidableEq, Repr

structure Subject where
  kind : String
  ns : String
  name : String
  deriving DecidableEq, Repr

def Subject.key (s : Subject) : String := s.kind ++ "/" ++ s.ns ++ "/" ++ s.name

structure RoleRef where
  kind : String
  ns : String
  name : String
  deriving DecidableEq, Repr

def RoleRef.key (r : RoleRef) : String := r.kind ++ "/" ++ r.ns ++ "/" ++ r.name

structure BindingRef where
  kind : String
  ns : String
  name : String
  roleRef : RoleRef
  deriving DecidableEq, Repr

/-- A Role; of a ClusterRole the namespace is empty. -/
structure Role where
  ns : String := ""
  name : String
  rules : List PolicyRule

/-- A RoleBinding; of a ClusterRoleBinding the namespace is empty. The namespace of the role
reference is not the API's to say. -/
structure Binding where
  ns : String := ""
  name : String
  roleKind : String
  roleName : String
  subjects : List Subject

section Index

structure Index where
  bindingsBySubject : String → List BindingRef := fun _ => []
  bindingsByRole : String → List BindingRef := fun _ => []
  rolesByKey : String → Option Role := fun _ => none
  clusterRolesByKey : String → Option Role := fun _ => none
  roleBindingsByNamespace : String → List BindingRef := fun _ => []

def roleRefFromAPI (roleKind roleName bindingNS : String) : RoleRef :=
  ⟨roleKind,if roleKind = "Role" then bindingNS else "",roleName⟩

/-- `m[key] = append(m[key], ref)` -/
def append (m : String → List BindingRef) (key : String) (ref : BindingRef) :
    String → List BindingRef :=
  Function.update m key (m key++[ref])

def indexBinding (i : Index) (ref : BindingRef) (subjects : List Subject) : Index :=
  { i with
    bindingsByRole := append i.bindingsByRole ref.roleRef.key ref
    bindingsBySubject := subjects.foldl (fun m s => append m s.key ref) i.bindingsBySubject }

def indexRole (i : Index) (r : Role) : Index :=
  { i with rolesByKey := Function.update i.rolesByKey (RoleRef.key ⟨"Role",r.ns,r.name⟩) (some r) }

def indexClusterRole (i : Index) (r : Role) : Index :=
  { i with clusterRolesByKey :=
      Function.update i.clusterRolesByKey (RoleRef.key ⟨"ClusterRole","",r.name⟩) (some r) }

def indexRoleBinding (i : Index) (rb : Binding) : Index :=
  let ref : BindingRef := ⟨"RoleBinding",rb.ns,rb.name,roleRefFromAPI rb.roleKind rb.roleName rb.ns⟩
  let i := indexBinding i ref rb.subjects
  if rb.ns ≠ "" then
    { i with roleBindingsByNamespace := append i.roleBindingsByNamespace rb.ns ref }
  else i

def indexClusterRoleBinding (i : Index) (crb : Binding) : Index :=
  indexBinding i
    ⟨"ClusterRoleBinding","",crb.name,roleRefFromAPI crb.roleKind crb.roleName ""⟩ crb.subjects

/-- A missing object is skipped. -/
def buildIndex (roles clusterRoles : List (Option Role))
    (roleBindings clusterRoleBindings : List (Option Binding)) : Index :=
  let i := (roles.filterMap id).foldl indexRole {}
  let i := (clusterRoles.filterMap id).foldl indexClusterRole i
  let i := (roleBindings.filterMap id).foldl indexRoleBinding i
  (clusterRoleBindings.filterMap id).foldl indexClusterRoleBinding i

end Index

section Flatten

structure BindingRules where
  binding : BindingRef
  role : RoleRef
  rules : List PolicyRule
  scopeNamespace : String
  inheritedFromGroup : String

structure EffectiveRules where
  subject : Subject
  viaBindings : List BindingRules
  flat : List PolicyRule
  truncated : Bool

def maxFlatRules : ℕ := 500

def writeSorted (l : List String) : String :=
  if l = [] then "" else ",".intercalate (Names.sorted l)

def ruleSignature (r : PolicyRule) : String :=
  writeSorted r.verbs ++ "|" ++ writeSorted r.apiGroups ++ "|" ++ writeSorted r.resources ++ "|" ++
    writeSorted r.resourceNames ++ "|" ++ writeSorted r.nonResourceURLs

/-- The loop over the rules of one binding after another. -/
def flattenFrom (limit : ℕ) (seen : List String) (out : List PolicyRule) :
    List PolicyRule → List PolicyRule × Bool
  | [] => (out,false)
  | r::rules =>
    if ruleSignature r ∈ seen then flattenFrom limit seen out rules
    else if limit ≤ (out++[r]).length then (out++[r],true)
    else flattenFrom limit (ruleSignature r::seen) (out++[r]) rules

def flatten (via : List BindingRules) (limit : ℕ) : List PolicyRule × Bool :=
  flattenFrom limit [] [] (via.flatMap BindingRules.rules)

def implicitGroupsForSA (ns : String) : List String :=
  ["system:authenticated","system:serviceaccounts","system:serviceaccounts:" ++ ns]

variable (i : Index)

/-- A reference to a role that is missing has no rules. -/
def Index.roleRules (ref : BindingRef) : List PolicyRule :=
  if ref.roleRef.kind = "Role" then ((i.rolesByKey ref.roleRef.key).map Role.rules).getD []
  else if ref.roleRef.kind = "ClusterRole" then
    ((i.clusterRolesByKey ref.roleRef.key).map Role.rules).getD []
  else []

def Index.expand (ref : BindingRef) (inheritedFromGroup : String) : BindingRules where
  binding := ref
  role := ref.roleRef
  rules := i.roleRules ref
  scopeNamespace :=
    if ref.kind = "RoleBinding" ∧ ref.roleRef.kind = "ClusterRole" then ref.ns else ""
  inheritedFromGroup := inheritedFromGroup

/-- The bindings of a subject, those of its implicit groups after its own, each with the group. -/
def Index.bindingsOf (s : Subject) : List (BindingRef × String) :=
  (i.bindingsBySubject s.key).map (fun ref => (ref,""))++
    if s.kind = "ServiceAccount" then
      (implicitGroupsForSA s.ns).flatMap fun group =>
        (i.bindingsBySubject (Subject.key ⟨"Group","",group⟩)).map fun ref => (ref,group)
    else []

def Index.effectiveRules (s : Subject) : EffectiveRules :=
  let via := (i.bindingsOf s).map fun p => i.expand p.1 p.2
  { subject := s
    viaBindings := via
    flat := (flatten via maxFlatRules).1
    truncated := (flatten via maxFlatRules).2 }

end Flatten

end Radar.RbacIndex
