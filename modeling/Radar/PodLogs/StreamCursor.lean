import Mathlib.Data.Int.Notation
import Mathlib.Data.Nat.Notation
import Mathlib.Logic.Function.Basic

/-!
# A resumed log stream

The follows of one container of a Pod read its log one after another and queue
what they read. The main loop consumes the queue and forwards what the cursor
of the container admits. Times are nanoseconds after the zero time.
-/

set_option autoImplicit false

namespace Radar.PodLogs

/-- What is queued of a line. The timestamp is none if it does not parse. -/
structure Entry where
  timestamp : Option ℤ
  content : String
  follow : ℕ
  deriving DecidableEq, Repr

/-- The maps are none before they are made. -/
structure StreamCursor where
  uid : String
  firstFollow : ℕ
  last : ℤ := 0
  delivered : Option (String → ℕ) := none
  seen : Option (String → ℕ) := none
  seenIn : ℕ := 0

structure PodLogOptions where
  container : String
  timestamps : Bool := true
  follow : Bool := true
  tailLines : Option ℤ := none
  sinceSeconds : Option ℤ := none
  sinceTime : Option ℤ := none
  deriving DecidableEq, Repr

/-- The cursor of a container, which is stored where `found` was looked up. -/
def cursorFor (found : Option StreamCursor) (uid : String) (follow : ℕ) : StreamCursor :=
  match found with
  | some c => if c.uid = uid then c else { uid := uid, firstFollow := follow }
  | none => { uid := uid, firstFollow := follow }

def second : ℤ := 1000000000

namespace StreamCursor

def restartOptions (c : StreamCursor) (container : String) (tailLines : ℤ)
    (sinceSeconds : Option ℤ) : PodLogOptions :=
  if c.last = 0 then
    { container := container, tailLines := some tailLines, sinceSeconds := sinceSeconds }
  else { container := container, sinceTime := some (c.last-c.last%second) }

def fromCurrentPod (c : StreamCursor) (entry : Entry) : Bool := c.firstFollow ≤ entry.follow

/-- What `Admit` makes of the cursor before it counts a line that is not older than the last. -/
def turnTo (c : StreamCursor) (ts : ℤ) (follow : ℕ) : StreamCursor :=
  if c.last < ts then
    { c with last := ts, delivered := some fun _ => 0, seen := some fun _ => 0, seenIn := follow }
  else if follow ≠ c.seenIn then { c with seen := some fun _ => 0, seenIn := follow }
  else c

/-- Whether a line is new, and the cursor after it is counted; none where a map is written that was
not made. -/
def count (c : StreamCursor) (content : String) : Option (Bool × StreamCursor) :=
  match c.seen with
  | none => none
  | some seen =>
    let seen := Function.update seen content (seen content+1)
    if seen content ≤ (c.delivered.map fun delivered => delivered content).getD 0 then
      some (false,{ c with seen := some seen })
    else
      match c.delivered with
      | none => none
      | some delivered =>
        some (true,{ c with
          seen := some seen
          delivered := some (Function.update delivered content (seen content)) })

def admits (c : StreamCursor) (entry : Entry) : Option (Bool × StreamCursor) :=
  if c.fromCurrentPod entry = false then some (true,c)
  else
    match entry.timestamp with
    | none => some (true,c)
    | some ts => if ts < c.last then some (false,c) else (c.turnTo ts entry.follow).count entry.content

end StreamCursor

/-- A line of a container's log. -/
structure Line where
  ts : ℤ
  content : String
  deriving DecidableEq, Repr

/-- An entry, with the line of the Pod's log that it was read from, which the code does not keep; an
entry of a replaced Pod has none. -/
structure Item where
  entry : Entry
  line : Option ℕ
  deriving DecidableEq, Repr

/-- `starts`, `consumed` and `forwarded` are not kept by the code: the line each follow began with,
what was taken from the queue, and what of it was sent. -/
structure Stream where
  container : String
  tailLines : ℤ
  sinceSeconds : Option ℤ
  uid : String
  log : List Line := []
  cursor : StreamCursor
  follows : ℕ
  starts : ℕ → ℕ := fun _ => 0
  pos : ℕ := 0
  running : Bool := false
  queue : List Item := []
  consumed : List Item := []
  forwarded : List Item := []
  panicked : Bool := false

/-- Before the first follow of a Pod, whose number is `follows+1`. -/
def opened (container : String) (tailLines : ℤ) (sinceSeconds : Option ℤ)
    (found : Option StreamCursor) (uid : String) (follows : ℕ) : Stream where
  container := container
  tailLines := tailLines
  sinceSeconds := sinceSeconds
  uid := uid
  cursor := cursorFor found uid (follows+1)
  follows := follows

inductive Act where
  /-- The container writes a line. -/
  | append (l : Line)
  /-- A follow is opened; `window` is where the caller's tail and since begin. -/
  | start (window : ℕ)
  | read
  | stop
  /-- A follow of a replaced Pod queues what it has read. -/
  | readReplaced (entry : Entry)
  | consume
  deriving DecidableEq, Repr

namespace Stream

variable (s : Stream)

/-- Where the log that is served for a request begins. -/
def served (opts : PodLogOptions) (window : ℕ) : ℕ :=
  match opts.sinceTime with
  | some since => (s.log.takeWhile fun l => l.ts < since).length
  | none => window

def append (l : Line) : Option Stream :=
  if ∀ m ∈ s.log.getLast?, m.ts ≤ l.ts then some { s with log := s.log++[l] } else none

/-- The follow before has stopped, and has queued what it read. -/
def start (window : ℕ) : Option Stream :=
  if s.running ∨ s.log.length < window then none
  else
    let cursor := cursorFor (some s.cursor) s.uid (s.follows+1)
    let opts := cursor.restartOptions s.container s.tailLines s.sinceSeconds
    let begin := s.served opts window
    some { s with
      cursor := cursor, follows := s.follows+1, pos := begin, running := true
      starts := Function.update s.starts (s.follows+1) begin }

def read : Option Stream :=
  if s.running then
    match s.log[s.pos]? with
    | some l =>
      some { s with
        queue := s.queue++[⟨⟨some l.ts,l.content,s.follows⟩,some s.pos⟩], pos := s.pos+1 }
    | none => none
  else none

def stop : Option Stream := if s.running then some { s with running := false } else none

def readReplaced (entry : Entry) : Option Stream :=
  if s.cursor.fromCurrentPod entry then none else some { s with queue := s.queue++[⟨entry,none⟩] }

/-- The log case of the main loop. -/
def consume : Option Stream :=
  match s.queue with
  | [] => none
  | i::queue =>
    match s.cursor.admits i.entry with
    | none => some { s with panicked := true }
    | some (admitted,cursor) =>
      some { s with
        cursor := cursor, queue := queue, consumed := s.consumed++[i]
        forwarded := if admitted then s.forwarded++[i] else s.forwarded }

def step (a : Act) : Option Stream :=
  if s.panicked then none
  else
    match a with
    | .append l => s.append l
    | .start window => s.start window
    | .read => s.read
    | .stop => s.stop
    | .readReplaced entry => s.readReplaced entry
    | .consume => s.consume

end Stream

end Radar.PodLogs
