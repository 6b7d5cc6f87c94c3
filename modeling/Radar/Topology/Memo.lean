import Mathlib.Logic.Function.Basic
import Radar.Base.Run
import Radar.Topology.BuildOptions

/-!
# The topology memoizer

Concurrent calls look a key up, run one build per key at a time and share its
result, and may ask for the index of what they got. Topologies and entries
are objects: a topology is compared by identity, an entry keeps its place on
a heap. `built` and `cached` record which call built what and when a cached
answer was looked up; no operation branches on them.
-/

set_option autoImplicit false

namespace Radar.Topology

/-- What a caller passes. The summary mode is set by the build alone. -/
structure Query where
  scope : ℕ
  opts : BuildOptions
  summary_unset : opts.summaryMode = false

def Query.key (q : Query) : String := scopedKey q.scope q.opts

structure MemoEntry (T X : Type) where
  topo : T
  builtAt : ℤ
  index : Option X

/-- A topology and, when it came from the cache, its age: when it was built and looked up. -/
structure Served (T : Type) where
  topo : T
  cached : Option (ℤ × ℤ)

/-- One function of the singleflight group; no result yet while it runs. -/
structure Flight (T : Type) where
  key : String
  result : Option (Option (Served T))

inductive Call (T X : Type) where
  | idle
  /-- Caching is disabled and the build runs for this call alone. -/
  | direct (q : Query) (withIndex : Bool)
  | missed (q : Query) (withIndex : Bool)
  /-- Inside the function of a flight: before its own look-up, before and after its build, done. -/
  | leading (q : Query) (withIndex : Bool) (flight : ℕ)
  | building (q : Query) (withIndex : Bool) (flight : ℕ)
  | storing (q : Query) (withIndex : Bool) (flight : ℕ) (topo : T)
  | finishing (q : Query) (withIndex : Bool) (flight : ℕ) (result : Option (Served T))
  | waiting (q : Query) (withIndex : Bool) (flight : ℕ)
  /-- `GetWithIndexScoped` with its topology, and with the entry it found. -/
  | got (q : Query) (served : Served T)
  | entryRead (q : Query) (served : Served T) (entry : ℕ)
  | returned (q : Query) (withIndex : Bool) (result : Option (Served T)) (index : Option X)

structure Memoizer (T X : Type) where
  ttl : ℤ
  now : ℤ
  entries : String → Option ℕ
  heap : List (MemoEntry T X)
  group : String → Option ℕ
  flights : List (Flight T)
  calls : ℕ → Call T X
  built : List (Query × T)

def newMemoizer {T X : Type} (ttl now : ℤ) : Memoizer T X where
  ttl := ttl
  now := now
  entries := fun _ => none
  heap := []
  group := fun _ => none
  flights := []
  calls := fun _ => .idle
  built := []

section Operations

variable {T X : Type} [DecidableEq T]

def entryAt (s : Memoizer T X) (key : String) : Option (MemoEntry T X) := do
  let ref ← s.entries key
  s.heap[ref]?

def lookup (s : Memoizer T X) (key : String) : Option (Served T) := do
  let e ← entryAt s key
  if s.now-e.builtAt < s.ttl then some ⟨e.topo,some (e.builtAt, s.now)⟩ else none

def tooOld (s : Memoizer T X) (heap : List (MemoEntry T X)) (ref : ℕ) : Bool :=
  match heap[ref]? with
  | some e => decide (s.now-e.builtAt > 2*s.ttl)
  | none => false

def store (s : Memoizer T X) (key : String) (topo : T) : Memoizer T X :=
  let heap := s.heap++[⟨topo,s.now,none⟩]
  { s with
    heap := heap
    entries := fun k =>
      (if k = key then some s.heap.length else s.entries k).filter fun ref => !tooOld s heap ref }

/-- `Do` for a key nobody runs: a new flight. -/
def lead (s : Memoizer T X) (key : String) : Memoizer T X :=
  { s with
    flights := s.flights++[⟨key,none⟩]
    group := Function.update s.group key (some s.flights.length) }

def setResult (r : Option (Served T)) (f : Flight T) : Flight T := { f with result := some r }

/-- The function of a flight returned: its result is handed out and the key is free again. -/
def land (s : Memoizer T X) (key : String) (flight : ℕ) (r : Option (Served T)) : Memoizer T X :=
  { s with
    flights := s.flights.modify flight (setResult r)
    group := Function.update s.group key none }

def built (s : Memoizer T X) (q : Query) (topo : T) : Memoizer T X :=
  { s with built := s.built++[(q, topo)] }

def setIndex (x : X) (e : MemoEntry T X) : MemoEntry T X := { e with index := some x }

/-- The index of an entry is built once. -/
def withIndexAt (s : Memoizer T X) (ref : ℕ) (x : X) : Memoizer T X :=
  { s with heap := s.heap.modify ref (setIndex x) }

def setCall (s : Memoizer T X) (i : ℕ) (c : Call T X) : Memoizer T X :=
  { s with calls := Function.update s.calls i c }

/-- `GetScoped` returned: an error or the bare topology goes out, the index is still to come. -/
def afterScoped (q : Query) (withIndex : Bool) (r : Option (Served T)) : Call T X :=
  match r with
  | some served => if withIndex then .got q served else .returned q false (some served) none
  | none => .returned q withIndex none none

inductive Act (T : Type) where
  | tick (d : ℕ)
  | call (i : ℕ) (q : Query) (withIndex : Bool)
  | join (i : ℕ)
  | recheck (i : ℕ)
  /-- The build closure returns a topology or fails. -/
  | build (i : ℕ) (r : Option T)
  | store (i : ℕ)
  | finish (i : ℕ)
  | receive (i : ℕ)
  | readEntry (i : ℕ)
  | index (i : ℕ)

variable (indexByResource : T → X)

/-- The entry of the key still holds this very topology, or the index is built inline. -/
def readEntry (s : Memoizer T X) (q : Query) (served : Served T) : Call T X :=
  let inline := .returned q true (some served) (some (indexByResource served.topo))
  if s.ttl ≤ 0 then inline
  else match s.entries q.key with
    | none => inline
    | some ref => match s.heap[ref]? with
      | some e => if e.topo ≠ served.topo then inline else .entryRead q served ref
      | none => inline

def step (s : Memoizer T X) : Act T → Option (Memoizer T X)
  | .tick d => some { s with now := s.now+d }
  | .call i q withIndex =>
    match s.calls i with
    | .idle =>
      if s.ttl ≤ 0 then some (setCall s i (.direct q withIndex))
      else match lookup s q.key with
        | some served => some (setCall s i (afterScoped q withIndex (some served)))
        | none => some (setCall s i (.missed q withIndex))
    | _ => none
  | .join i =>
    match s.calls i with
    | .missed q withIndex => match s.group q.key with
      | some flight => some (setCall s i (.waiting q withIndex flight))
      | none => some (setCall (lead s q.key) i (.leading q withIndex s.flights.length))
    | _ => none
  | .recheck i =>
    match s.calls i with
    | .leading q withIndex flight => match lookup s q.key with
      | some served => some (setCall s i (.finishing q withIndex flight (some served)))
      | none => some (setCall s i (.building q withIndex flight))
    | _ => none
  | .build i r =>
    match s.calls i with
    | .building q withIndex flight => match r with
      | some topo => some (setCall (built s q topo) i (.storing q withIndex flight topo))
      | none => some (setCall s i (.finishing q withIndex flight none))
    | .direct q withIndex => match r with
      | some topo => some (setCall (built s q topo) i (afterScoped q withIndex (some ⟨topo,none⟩)))
      | none => some (setCall s i (afterScoped q withIndex none))
    | _ => none
  | .store i =>
    match s.calls i with
    | .storing q withIndex flight topo =>
      some (setCall (store s q.key topo) i (.finishing q withIndex flight (some ⟨topo,none⟩)))
    | _ => none
  | .finish i =>
    match s.calls i with
    | .finishing q withIndex flight r =>
      some (setCall (land s q.key flight r) i (afterScoped q withIndex r))
    | _ => none
  | .receive i =>
    match s.calls i with
    | .waiting q withIndex flight => do
      let f ← s.flights[flight]?
      let r ← f.result
      some (setCall s i (afterScoped q withIndex r))
    | _ => none
  | .readEntry i =>
    match s.calls i with
    | .got q served => some (setCall s i (readEntry indexByResource s q served))
    | _ => none
  | .index i =>
    match s.calls i with
    | .entryRead q served ref => do
      let e ← s.heap[ref]?
      match e.index with
      | some x => some (setCall s i (.returned q true (some served) (some x)))
      | none =>
        let x := indexByResource e.topo
        some (setCall (withIndexAt s ref x) i (.returned q true (some served) (some x)))
    | _ => none

end Operations

section Claim

variable {T X : Type} [DecidableEq T] (indexByResource : T → X)

def Act.query : Act T → Option Query
  | .call _ q _ => some q
  | _ => none

/-- No two calls of one scope share a key while their options mean different things. -/
def Separated (as : List (Act T)) : Prop :=
  ∀ q ∈ as.filterMap Act.query, ∀ p ∈ as.filterMap Act.query,
    q.scope = p.scope → memoKey q.opts = memoKey p.opts → Equivalent q.opts p.opts

/-- What a call returned was built for the same scope and equivalent options, was young when it
was looked up in the cache, and comes with its own index. -/
def Sound (s : Memoizer T X) : Prop :=
  ∀ i q withIndex served index, s.calls i = .returned q withIndex (some served) index →
    (∃ b ∈ s.built, b.2 = served.topo ∧ b.1.scope = q.scope ∧ Equivalent b.1.opts q.opts) ∧
    (∀ builtAt lookedUp, served.cached = some (builtAt, lookedUp) →
      builtAt ≤ lookedUp ∧ lookedUp-builtAt < s.ttl) ∧
    (withIndex = true → index = some (indexByResource served.topo))

end Claim

end Radar.Topology
