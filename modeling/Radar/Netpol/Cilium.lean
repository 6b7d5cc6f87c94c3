import Radar.Base.Join
import Radar.Netpol.Explain
import Radar.Netpol.Policy

/-!
# Which pods a Cilium policy selects

A policy is read as the decoded document it is. Its selectors name labels with
their source; Radar strips the source, puts what it can answer into one label
selector and asks the library. The order of a map is left open.
-/

set_option autoImplicit false

namespace Radar.Cilium
open Radar.Netpol

section Documents

/-- A decoded value. A scalar that is no string carries what it prints as. -/
inductive Value where
  | null
  | str (text : String)
  | scalar (text : String)
  | arr (items : List Value)
  | obj (fields : List (String × Value))

abbrev Fields := List (String × Value)

def nestedMap (m : Fields) (key : String) : Option Fields :=
  match m.lookup key with
  | some (.obj fields) => some fields
  | _ => none

def nestedSlice (m : Fields) (key : String) : Option (List Value) :=
  match m.lookup key with
  | some (.arr items) => some items
  | _ => none

/-- The order in which a map is ranged over. -/
structure Range where
  run : Fields → Fields
  perm : ∀ m, (run m).Perm m

/-- `LabelSelectorAsSelector`, and `fmt.Sprint` of a list or a map. -/
structure Lib where
  asSelector : LabelSelector → Except String (Labels → Bool)
  sprint : Value → String

def Lib.text (lib : Lib) (v : Option Value) : String :=
  match v with
  | none => "<nil>"
  | some .null => "<nil>"
  | some (.str text) => text
  | some (.scalar text) => text
  | some v => lib.sprint v

end Documents

section Selectors

/-- The entry of a key is replaced. -/
def insertLabel (key value : String) : List (String × String) → List (String × String)
  | [] => [(key,value)]
  | p::l =>
    if key < p.1 then (key,value)::p::l
    else if key = p.1 then (key,value)::l
    else p::insertLabel key value l

theorem mem_insertLabel {key value : String} {l : List (String × String)}
    (h : (l.map Prod.fst).Pairwise (· < ·)) {p : String × String} :
    p ∈ insertLabel key value l ↔ p = (key,value) ∨ p ∈ l ∧ p.1 ≠ key := by
  induction l with
  | nil => simp [insertLabel]
  | cons q l ih =>
    obtain ⟨hq,hl⟩ := List.pairwise_cons.mp h
    have hafter : ∀ p ∈ l, q.1 < p.1 := fun p hp => hq p.1 (List.mem_map_of_mem hp)
    unfold insertLabel
    split_ifs with hlt heq
    · rw [List.mem_cons]
      constructor
      · rintro (rfl | hp)
        · exact .inl rfl
        · refine .inr ⟨hp,?_⟩
          obtain rfl | hp := List.mem_cons.mp hp
          · exact (ne_of_lt hlt).symm
          · exact (ne_of_lt (hlt.trans (hafter p hp))).symm
      · rintro (rfl | hp)
        · exact .inl rfl
        · exact .inr hp.1
    · rw [List.mem_cons, List.mem_cons]
      constructor
      · rintro (rfl | hp)
        · exact .inl rfl
        · exact .inr ⟨.inr hp,heq ▸ (ne_of_lt (hafter p hp)).symm⟩
      · rintro (rfl | ⟨rfl | hp,hne⟩)
        · exact .inl rfl
        · exact absurd heq.symm hne
        · exact .inr hp
    · rw [List.mem_cons, ih hl, List.mem_cons]
      constructor
      · rintro (rfl | rfl | hp)
        · exact .inr ⟨.inl rfl,fun h => heq h.symm⟩
        · exact .inl rfl
        · exact .inr ⟨.inr hp.1,hp.2⟩
      · rintro (rfl | ⟨rfl | hp,hne⟩)
        · exact .inr (.inl rfl)
        · exact .inl rfl
        · exact .inr (.inr ⟨hp,hne⟩)

theorem insertLabel_sorted {key value : String} {l : List (String × String)}
    (h : (l.map Prod.fst).Pairwise (· < ·)) :
    ((insertLabel key value l).map Prod.fst).Pairwise (· < ·) := by
  induction l with
  | nil => simp [insertLabel]
  | cons q l ih =>
    obtain ⟨hq,hl⟩ := List.pairwise_cons.mp h
    unfold insertLabel
    split_ifs with hlt heq
    · refine List.pairwise_cons.mpr ⟨fun k hk => ?_,h⟩
      obtain rfl | hk := List.mem_cons.mp hk
      · exact hlt
      · exact hlt.trans (hq k hk)
    · refine List.pairwise_cons.mpr ⟨fun k hk => ?_,hl⟩
      exact heq ▸ hq k hk
    · refine List.pairwise_cons.mpr ⟨fun k hk => ?_,ih hl⟩
      obtain ⟨p,hp,rfl⟩ := List.mem_map.mp hk
      obtain rfl | hp := (mem_insertLabel hl).mp hp
      · exact lt_of_le_of_ne (not_lt.mp hlt) fun h => heq h.symm
      · exact hq p.1 (List.mem_map_of_mem hp.1)

def withLabel (sel : LabelSelector) (key value : String) : LabelSelector where
  matchLabels := insertLabel key value sel.matchLabels
  matchExpressions := sel.matchExpressions
  keys_sorted := insertLabel_sorted sel.keys_sorted

def withExpression (sel : LabelSelector) (r : LabelSelectorRequirement) : LabelSelector where
  matchLabels := sel.matchLabels
  matchExpressions := sel.matchExpressions++[r]
  keys_sorted := sel.keys_sorted

end Selectors

section Identity

/-- The labels of a pod and those that Cilium derives for it. -/
structure CiliumIdentity where
  set : Labels
  nsKnown : Bool

def namespaceLabelPrefix : String := "io.cilium.k8s.namespace.labels."

def clusterKey : String := "io.cilium.k8s.policy.cluster"

def ciliumIdentityFor (pod : Pod) (serviceAccountName : String) (ns : Option Namespace) :
    CiliumIdentity where
  set key :=
    let derived :=
      if key = "io.cilium.k8s.policy.serviceaccount" then
        some (if serviceAccountName = "" then "default" else serviceAccountName)
      else if key = "io.kubernetes.pod.namespace" then some pod.ns
      else pod.labels key
    match ns with
    | none => derived
    | some ns =>
      if namespaceLabelPrefix.toList <+: key.toList then
        (ns.labels (String.ofList (key.toList.drop namespaceLabelPrefix.length))).or derived
      else derived
  nsKnown := ns.isSome

/-- The label source of a selector key, if it names one, and the key without it. -/
def cutSource (raw : String) : Option String × String :=
  match Join.cut ':' raw.toList with
  | some (source,key) => (some (String.ofList source),String.ofList key)
  | none => (none,raw)

def isPodSource (source : Option String) : Bool :=
  source = none || source = some "k8s" || source = some "any"

/-- Radar knows what the pod has under the key. -/
def known (id : CiliumIdentity) (key : String) : Bool :=
  key ≠ clusterKey && (!decide (namespaceLabelPrefix.toList <+: key.toList) || id.nsKnown)

def ciliumSelectorKey (raw : String) (id : CiliumIdentity) : Except String String :=
  let (source,key) := cutSource raw
  if !isPodSource source then
    .error ("selects on the " ++ source.getD "" ++ " label source, which Radar does not model")
  else if key = clusterKey then .error "selects on the cluster name, which Radar does not know"
  else if namespaceLabelPrefix.toList <+: key.toList ∧ id.nsKnown = false then
    .error "selects on namespace labels Radar could not read here"
  else .ok key

end Identity

section Matching

variable (lib : Lib) (range : Range) (id : CiliumIdentity)

/-- The selector so far, and why it is left open. -/
structure Reading where
  sel : LabelSelector := { keys_sorted := LabelSelector.empty_sorted }
  openWhy : String := ""

def Reading.leaveOpen (r : Reading) (why : String) : Reading :=
  if r.openWhy = "" then { r with openWhy := why } else r

/-- A value that is no string cannot be read. -/
def readLabel (r : Reading) (entry : String × Value) : Option Reading :=
  match entry.2 with
  | .str s =>
    match ciliumSelectorKey entry.1 id with
    | .ok key => some { r with sel := withLabel r.sel key s }
    | .error why => some (r.leaveOpen why)
  | _ => none

def requirementOf (key : String) (e : Fields) : LabelSelectorRequirement where
  key := key
  operator := lib.text (e.lookup "operator")
  values := ((nestedSlice e "values").getD []).map fun v => lib.text (some v)

def readExpression (r : Reading) (raw : Value) : Option Reading :=
  match raw with
  | .obj e =>
    match ciliumSelectorKey (lib.text (e.lookup "key")) id with
    | .ok key => some { r with sel := withExpression r.sel (requirementOf lib key e) }
    | .error why => some (r.leaveOpen why)
  | _ => none

structure Answer where
  selects : Bool
  decided : Bool
  why : String
  deriving DecidableEq, Repr

def undecided (why : String) : Answer := ⟨false,false,why⟩

def decidedAs (selects : Bool) : Answer := ⟨selects,true,""⟩

def labelsOf (selMap : Fields) : Fields := (nestedMap selMap "matchLabels").getD []

def expressionsOf (selMap : Fields) : List Value := (nestedSlice selMap "matchExpressions").getD []

def ciliumSelectorMatches (selMap : Fields) : Answer :=
  match (range.run (labelsOf selMap)).foldlM (readLabel id) {} with
  | none => undecided "has a matchLabels value Radar could not read"
  | some r =>
    match (expressionsOf selMap).foldlM (readExpression lib id) r with
    | none => undecided "has a matchExpressions entry Radar could not read"
    | some r =>
      match lib.asSelector r.sel with
      | .error _ => undecided "has a selector Radar could not parse"
      | .ok parsed =>
        if !parsed id.set then decidedAs false
        else if r.openWhy ≠ "" then undecided r.openWhy
        else decidedAs true

def asFields (v : Value) : Option Fields :=
  match v with
  | .obj fields => some fields
  | _ => none

def specsOf (obj : Fields) : List Fields :=
  (nestedMap obj "spec").toList++((nestedSlice obj "specs").getD []).filterMap asFields

/-- The loop over the specs. One that selects the pod ends it. -/
def selectsFrom (covers : Fields → Bool) : List Fields → String → Answer
  | [], openWhy => if openWhy ≠ "" then undecided openWhy else decidedAs false
  | spec::specs, openWhy =>
    match nestedMap spec "endpointSelector" with
    | none => selectsFrom covers specs openWhy
    | some selMap =>
      if !covers spec then selectsFrom covers specs openWhy
      else
        let answer := ciliumSelectorMatches lib range id selMap
        if answer.decided && answer.selects then decidedAs true
        else if !answer.decided && openWhy = "" then selectsFrom covers specs answer.why
        else selectsFrom covers specs openWhy

def ciliumSelects (obj : Fields) (covers : Fields → Bool) : Answer :=
  selectsFrom lib range id covers (specsOf obj) ""

def has (spec : Fields) (key : String) : Bool := (spec.lookup key).isSome

def hasNoSection (spec : Fields) : Bool :=
  !has spec "ingress" && !has spec "ingressDeny" && !has spec "egress" && !has spec "egressDeny"

def ciliumSpecCovers (dir : Direction) (spec : Fields) : Bool :=
  if hasNoSection spec then true
  else if dir = .ingress then has spec "ingress" || has spec "ingressDeny"
  else has spec "egress" || has spec "egressDeny"

/-- An empty rule allows nothing. -/
def allows (rule : Value) : Bool :=
  match rule with
  | .obj fields => !fields.isEmpty
  | _ => true

def ciliumSpecMayAllow (dir : Direction) (spec : Fields) : Bool :=
  if hasNoSection spec then true
  else
    let key := if dir = .ingress then "ingress" else "egress"
    match nestedSlice spec key with
    | none => has spec key
    | some rules => rules.any allows

def ciliumGoverns (obj : Fields) (dir : Direction) : Answer :=
  ciliumSelects lib range id obj (ciliumSpecCovers dir)

def ciliumMayAllow (obj : Fields) (dir : Direction) : Answer :=
  ciliumSelects lib range id obj (ciliumSpecMayAllow dir)

end Matching

end Radar.Cilium
