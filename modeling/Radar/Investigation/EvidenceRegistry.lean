import Radar.Investigation.Matches

/-!
# The registry of evidence scopes

`investigationrefs.Registry`. The AI runner begins and closes a scope for each
turn; the transport issues refs while the scope is active and the stream
adapters ask whether a ref was issued for a payload. Operations hold the mutex,
so a history is a list of them.
-/

set_option autoImplicit false

namespace Radar.Investigation

open Radar.Runes Radar.Story

def maxIssuedRefsPerScope : ℕ := 256

abbrev Records := List (Text × Text)

structure ScopeState where
  records : Records := []
  connected : Bool := false

/-- The value that `Begin` hands out; `once` guards its close. -/
structure Scope where
  id : Text
  once : Bool := false
  records : Option Records := none

/-- The active scopes, and every `Scope` handed out so far. -/
structure Registry where
  scopes : Text → Option ScopeState := fun _ => none
  owners : List Scope := []

inductive BeginError where
  | invalidScope | scopeActive

def newRef (scope nonce : Text) : Text := scopePrefix scope++nonce

namespace Registry

def begin (r : Registry) (scope : Text) : Registry × Except BeginError ℕ :=
  if trimSpace scope = [] then (r,.error .invalidScope)
  else if (r.scopes scope).isSome then (r,.error .scopeActive)
  else
    (⟨Function.update r.scopes scope (some {}),r.owners++[{ id := scope }]⟩,.ok r.owners.length)

def markConnected (r : Registry) (scope : Text) : Registry × Bool :=
  match r.scopes scope with
  | none => (r,false)
  | some state =>
    ({ r with scopes := Function.update r.scopes scope (some { state with connected := true }) },
      true)

def active (r : Registry) (scope : Text) : Bool := (r.scopes scope).isSome

/-- The nonces are the random ones drawn; the first ref that does not collide is taken. -/
def issue (r : Registry) (scope payload : Text) (nonces : List Text) : Registry × Option Text :=
  match r.scopes scope with
  | none => (r,none)
  | some state =>
    if state.records.length ≥ maxIssuedRefsPerScope then (r,none)
    else
      match (nonces.map (newRef scope)).find? fun ref => state.records.lookup ref = none with
      | none => (r,none)
      | some ref =>
        let records := state.records++[(ref,payload)]
        ({ r with scopes := Function.update r.scopes scope (some { state with records := records }) },
          some ref)

def matched (r : Registry) (scope ref payload : Text) : Bool :=
  match r.scopes scope with
  | none => false
  | some state => state.records.lookup ref == some payload

def close (r : Registry) (owner : ℕ) : Registry × Option Records :=
  match r.owners[owner]? with
  | none => (r,none)
  | some scope =>
    if scope.once then (r,scope.records)
    else
      let records := (r.scopes scope.id).map ScopeState.records
      (⟨Function.update r.scopes scope.id none,
        r.owners.set owner { scope with once := true, records := records }⟩,records)

end Registry

inductive Op where
  | begin (scope : Text)
  | markConnected (scope : Text)
  | active (scope : Text)
  | issue (scope payload : Text) (nonces : List Text)
  | matched (scope ref payload : Text)
  | close (owner : ℕ)

/-- An operation with its answer. -/
inductive Event where
  | begin (scope : Text) (answer : Except BeginError ℕ)
  | markConnected (scope : Text) (answer : Bool)
  | active (scope : Text) (answer : Bool)
  | issue (scope payload : Text) (answer : Option Text)
  | matched (scope ref payload : Text) (answer : Bool)
  | close (owner : ℕ) (answer : Option Records)

def apply (r : Registry) : Op → Registry × Event
  | .begin scope => ((r.begin scope).1,.begin scope (r.begin scope).2)
  | .markConnected scope => ((r.markConnected scope).1,.markConnected scope (r.markConnected scope).2)
  | .active scope => (r,.active scope (r.active scope))
  | .issue scope payload nonces =>
    ((r.issue scope payload nonces).1,.issue scope payload (r.issue scope payload nonces).2)
  | .matched scope ref payload => (r,.matched scope ref payload (r.matched scope ref payload))
  | .close owner => ((r.close owner).1,.close owner (r.close owner).2)

/-- The registry after a history and what was answered, the latest first. -/
def run (ops : List Op) : Registry × List Event :=
  ops.foldl (fun w op => ((apply w.1 op).1,(apply w.1 op).2::w.2)) ({},[])

def trace (ops : List Op) : List Event := (run ops).2

section Spec

/-- The scope `s` was begun under an id and has not been closed. -/
def live (s : ℕ) (id : Text) : List Event → Bool
  | [] => false
  | .begin scope (.ok n)::past => (n == s && scope == id) || live s id past
  | .close n _::past => n != s && live s id past
  | _::past => live s id past

/-- The refs issued for the scope `s`, with their payloads. -/
def issues (s : ℕ) : List Event → Records
  | [] => []
  | .issue id payload (some ref)::past =>
    if live s id past then issues s past++[(ref,payload)] else issues s past
  | _::past => issues s past

/-- What holds after every history of the registry. -/
structure Accountable (ops : List Op) : Prop where
  one_payload : ∀ s, ((issues s (trace ops)).map Prod.fst).Nodup
  for_ever : ∀ s later, issues s (trace ops) <+: issues s (trace (ops++later))
  cap : ∀ s, (issues s (trace ops)).length ≤ maxIssuedRefsPerScope
  issued : ∀ id payload nonces ref,
    trace (ops++[.issue id payload nonces]) = .issue id payload (some ref)::trace ops →
      ∃ s, live s id (trace ops) = true
  matched_iff : ∀ id ref payload answer,
    trace (ops++[.matched id ref payload]) = .matched id ref payload answer::trace ops →
      (answer = true ↔ ∃ s, live s id (trace ops) = true ∧ (ref,payload) ∈ issues s (trace ops))
  alone : ∀ s t id, live s id (trace ops) = true → live t id (trace ops) = true → s = t
  closed : ∀ s later, (∃ id, live s id (trace ops) = true) →
    (∀ id, live s id (trace (ops++.close s::later)) = false) ∧
      issues s (trace (ops++.close s::later)) = issues s (trace ops)
  snapshot : ∀ s later answer, (∃ id, live s id (trace ops) = true) →
    trace (ops++.close s::later++[.close s]) = .close s answer::trace (ops++.close s::later) →
      answer = some (issues s (trace ops))

end Spec

end Radar.Investigation
