import Mathlib.Logic.Function.Basic
import Radar.Base.Run

/-!
# The broadcaster's relationship cache and its publishers

One worker runs broadcast cycles, readers rebuild the cached graph on demand,
stream handlers send a first frame, and the cluster view is reset at any
moment. Every step of one of them is one action, and the critical sections of
the cache lock are single steps. The clock numbers the actions and with them
the cluster changes: a build sees the changes numbered before it began.
`settled`, `sent`, `lastCycle`, `lastMark` and `stored` only record what
happened.
-/

set_option autoImplicit false

namespace Radar.Sse

/-- A built graph, named by the moment it was finished and tagged with the epoch its build
captured. -/
structure Graph where
  id : ℕ
  epoch : ℕ
  began : ℕ
  deriving DecidableEq, Repr

/-- The fields under `cachedTopologyMu`. -/
structure RelationshipCache (X : Type) where
  topology : Option Graph := none
  index : Option X := none
  dirty : Bool := false

/-- One broadcast cycle; `start` is its first moment, `n` the client groups that remain. -/
inductive Cycle where
  | idle
  | begun (epoch start clients : ℕ)
  | checked (epoch start : ℕ)
  | building (epoch start began : ℕ)
  | built (start : ℕ) (g : Graph)
  | rejected (epoch start : ℕ)
  | grouping (epoch start : ℕ)
  | groups (epoch start n : ℕ)
  | groupBuilding (epoch start n began : ℕ)
  | groupBuilt (start n : ℕ) (g : Graph)
  /-- Past its epoch check: the clients are authorized, then each frame is sent. -/
  | authorizing (start n : ℕ) (g : Graph)
  | sending (start n : ℕ) (g : Graph) (frames : ℕ)
  | abandoning (start : ℕ)
  | ending (start : ℕ)
  deriving DecidableEq, Repr

/-- A call of `GetCachedTopology`, or of `GetCachedTopologyWithIndex` when `w` is set. `since`
is the last epoch whose reset had completed when the call began. -/
inductive Reader (X : Type) where
  | idle
  | gating (w : Bool) (since : ℕ)
  | loading (w : Bool) (since : ℕ)
  | building (w : Bool) (since epoch began : ℕ)
  | built (w : Bool) (since : ℕ) (g : Graph)
  | redirty (w : Bool) (since : ℕ)
  | rereading (w : Bool) (since : ℕ)
  | got (since : ℕ) (g : Graph)
  | indexing (since : ℕ) (g : Graph)
  | returned (w : Bool) (since : ℕ) (topo : Option Graph) (index : Option X)

/-- The first frame of `HandleSSE`. -/
inductive Handler where
  | idle
  | building (epoch began : ℕ)
  | built (g : Graph)
  | checked (g : Graph)
  | done
  deriving DecidableEq, Repr

/-- A frame that was sent, and the last epoch whose reset had completed by then. -/
structure Frame where
  graph : Graph
  settled : ℕ
  deriving DecidableEq, Repr

structure Broadcaster (X : Type) where
  clock : ℕ := 0
  topoEpoch : ℕ := 0
  cache : RelationshipCache X := {}
  /-- Resets that have bumped the epoch and not yet cleared the cache. -/
  resets : ℕ → Option ℕ := fun _ => none
  worker : Cycle := .idle
  readers : ℕ → Reader X := fun _ => .idle
  handlers : ℕ → Handler := fun _ => .idle
  settled : ℕ := 0
  sent : List Frame := []
  lastCycle : Option ℕ := none
  lastMark : Option ℕ := none
  stored : List Graph := []

inductive Act where
  | change
  | resetBump (j : ℕ)
  | resetClear (j : ℕ)
  /-- The worker's next step; `k` counts clients, groups or frames, `flag` is whether a build
  succeeds or, at the warm-up check, whether it is still warming up. -/
  | work (k : ℕ) (flag : Bool)
  /-- `up` is whether there is a resource cache. -/
  | get (i : ℕ) (w up : Bool)
  | read (i : ℕ) (flag : Bool)
  | openStream (i : ℕ)
  | handle (i : ℕ) (flag : Bool)
  deriving DecidableEq, Repr

section Model

variable {X : Type}

def markCachedTopologyDirty (s : Broadcaster X) : Broadcaster X :=
  { s with cache := { s.cache with dirty := true }, lastMark := some s.clock }

/-- `updateCachedTopology` once its epoch check has passed. -/
def storeGraph (s : Broadcaster X) (g : Graph) : Broadcaster X :=
  { s with cache := { topology := some g, index := none, dirty := false }, stored := g::s.stored }

def send (s : Broadcaster X) (g : Graph) : Broadcaster X :=
  { s with sent := ⟨g,s.settled⟩::s.sent }

def setWorker (s : Broadcaster X) (c : Cycle) : Broadcaster X := { s with worker := c }

def setReader (s : Broadcaster X) (i : ℕ) (r : Reader X) : Broadcaster X :=
  { s with readers := Function.update s.readers i r }

def setHandler (s : Broadcaster X) (i : ℕ) (h : Handler) : Broadcaster X :=
  { s with handlers := Function.update s.handlers i h }

def setDirty (s : Broadcaster X) (dirty : Bool) : Broadcaster X :=
  { s with cache := { s.cache with dirty := dirty } }

def storeIndex (s : Broadcaster X) (x : X) : Broadcaster X :=
  { s with cache := { s.cache with index := some x } }

/-- A build that ends now. -/
def finished (s : Broadcaster X) (epoch began : ℕ) : Graph := ⟨s.clock,epoch,began⟩

/-- The next step of a broadcast cycle. Every return but the first check's marks or has stored. -/
def work (s : Broadcaster X) (k : ℕ) (flag : Bool) : Broadcaster X :=
  match s.worker with
  | .idle => setWorker s (.begun s.topoEpoch s.clock k)
  | .begun epoch start clients =>
    if clients = 0 then setWorker (markCachedTopologyDirty s) (.ending start)
    else if s.topoEpoch ≠ epoch then setWorker s (.abandoning start)
    else setWorker s (.checked epoch start)
  | .checked epoch start =>
    if flag then setWorker (markCachedTopologyDirty s) (.grouping epoch start)
    else setWorker s (.building epoch start s.clock)
  | .building epoch start began =>
    if flag then setWorker s (.built start (finished s epoch began))
    else setWorker s (.grouping epoch start)
  | .built start g =>
    if s.topoEpoch ≠ g.epoch then setWorker s (.rejected g.epoch start)
    else setWorker (storeGraph s g) (.grouping g.epoch start)
  | .rejected epoch start => setWorker (markCachedTopologyDirty s) (.grouping epoch start)
  | .grouping epoch start =>
    if s.topoEpoch ≠ epoch then setWorker s (.abandoning start)
    else setWorker s (.groups epoch start k)
  | .groups epoch start n =>
    match n with
    | 0 => setWorker s (.ending start)
    | n+1 =>
      if s.topoEpoch ≠ epoch then setWorker s (.abandoning start)
      else setWorker s (.groupBuilding epoch start n s.clock)
  | .groupBuilding epoch start n began =>
    if flag then setWorker s (.groupBuilt start n (finished s epoch began))
    else setWorker s (.groups epoch start n)
  | .groupBuilt start n g =>
    if s.topoEpoch ≠ g.epoch then setWorker s (.abandoning start)
    else setWorker s (.authorizing start n g)
  | .authorizing start n g => setWorker s (.sending start n g k)
  | .sending start n g frames =>
    match frames with
    | 0 => setWorker s (.groups g.epoch start n)
    | m+1 => setWorker (send s g) (.sending start n g m)
  | .abandoning start => setWorker (markCachedTopologyDirty s) (.ending start)
  | .ending start => setWorker { s with lastCycle := some start } .idle

/-- What is left to do for a call that has its topology. -/
def afterGet (w : Bool) (since : ℕ) (topo : Option Graph) : Reader X :=
  match topo with
  | some g => if w then .got since g else .returned false since (some g) none
  | none => .returned w since none none

/-- The first critical section of a read. -/
def get (s : Broadcaster X) (i : ℕ) (w up : Bool) : Broadcaster X :=
  if s.cache.dirty ∧ up then setReader s i (.gating w s.settled)
  else setReader s i (afterGet w s.settled s.cache.topology)

variable (indexByResource : Graph → X)

/-- The next step of a read; loading the epoch and beginning the build are one step. -/
def read (s : Broadcaster X) (i : ℕ) (flag : Bool) : Option (Broadcaster X) :=
  match s.readers i with
  | .gating w since =>
    if ¬s.cache.dirty then some (setReader s i (afterGet w since s.cache.topology))
    else some (setReader (setDirty s false) i (.loading w since))
  | .loading w since =>
    if flag then some (setReader s i (.building w since s.topoEpoch s.clock))
    else some (setReader s i (.redirty w since))
  | .building w since epoch began =>
    if flag then some (setReader s i (.built w since (finished s epoch began)))
    else some (setReader s i (.redirty w since))
  | .built w since g =>
    if s.topoEpoch ≠ g.epoch then some (setReader s i (.redirty w since))
    else some (setReader (storeGraph s g) i (.rereading w since))
  | .redirty w since => some (setReader (setDirty s true) i (.rereading w since))
  | .rereading w since => some (setReader s i (afterGet w since s.cache.topology))
  | .got since g =>
    match s.cache.index with
    | some x =>
      if s.cache.topology = some g then some (setReader s i (.returned true since (some g) (some x)))
      else some (setReader s i (.indexing since g))
    | none => some (setReader s i (.indexing since g))
  | .indexing since g =>
    let built := indexByResource g
    if s.cache.topology = some g then
      some (setReader (storeIndex s built) i (.returned true since (some g) (some built)))
    else some (setReader s i (.returned true since (some g) (some built)))
  | _ => none

def handle (s : Broadcaster X) (i : ℕ) (flag : Bool) : Option (Broadcaster X) :=
  match s.handlers i with
  | .building epoch began =>
    if flag then some (setHandler s i (.built (finished s epoch began)))
    else some (setHandler s i .done)
  | .built g =>
    if s.topoEpoch ≠ g.epoch then some (setHandler s i .done)
    else some (setHandler s i (.checked g))
  | .checked g => some (setHandler (send s g) i .done)
  | _ => none

/-- `resetCacheView`: the epoch first, then the cache. -/
def resetBump (s : Broadcaster X) (j : ℕ) : Broadcaster X :=
  { s with topoEpoch := s.topoEpoch+1, resets := Function.update s.resets j (some (s.topoEpoch+1)) }

def resetClear (s : Broadcaster X) (j e : ℕ) : Broadcaster X :=
  { s with
    cache := {}
    resets := Function.update s.resets j none
    settled := max s.settled e }

def act (s : Broadcaster X) : Act → Option (Broadcaster X)
  | .change => some s
  | .resetBump j =>
    match s.resets j with
    | none => some (resetBump s j)
    | some _ => none
  | .resetClear j =>
    match s.resets j with
    | some e => some (resetClear s j e)
    | none => none
  | .work k flag => some (work s k flag)
  | .get i w up =>
    match s.readers i with
    | .idle => some (get s i w up)
    | _ => none
  | .read i flag => read indexByResource s i flag
  | .openStream i =>
    match s.handlers i with
    | .idle => some (setHandler s i (.building s.topoEpoch s.clock))
    | _ => none
  | .handle i flag => handle s i flag

def tick (s : Broadcaster X) : Broadcaster X := { s with clock := s.clock+1 }

def step (s : Broadcaster X) (a : Act) : Option (Broadcaster X) := (act indexByResource s a).map tick

end Model

variable {X : Type} {indexByResource : Graph → X} {s : Broadcaster X}

theorem step_act {t : Broadcaster X} {a : Act} (ht : step indexByResource s a = some t) :
    ∃ u, act indexByResource s a = some u ∧ t = tick u := by
  obtain ⟨u,hu,rfl⟩ := Option.map_eq_some_iff.mp ht
  exact ⟨u,hu,rfl⟩

/-- A read touches neither the publishers nor what they sent. -/
theorem read_publishers {t : Broadcaster X} {i : ℕ} {flag : Bool}
    (ht : read indexByResource s i flag = some t) :
    t.worker = s.worker ∧ t.handlers = s.handlers ∧ t.settled = s.settled ∧ t.sent = s.sent := by
  unfold read at ht
  grind [setReader, setDirty, storeGraph, storeIndex]

/-- Only the end of a step moves the clock. -/
theorem act_clock {t : Broadcaster X} {a : Act} (ht : act indexByResource s a = some t) :
    t.clock = s.clock := by
  unfold act get read handle at ht
  grind [work, setWorker, setReader, setHandler, setDirty, storeGraph, storeIndex, send,
    markCachedTopologyDirty, resetBump, resetClear]

end Radar.Sse
