import Mathlib.Logic.Function.Basic
import Radar.Auth.PermissionCache
import Radar.Base.Expiry
import Radar.Base.Run

/-!
# The authorization memo of a change stream

A lookup reads the context name and the clock, looks under both in the memo
and asks the cluster outside the lock when it finds nothing; the answer is
stored unless the context name has changed. Lookups of several goroutines
interleave with each other, with context switches and with the clock. A
verdict records when it was given and which contexts were active while it was
being decided; the code has neither, and no operation branches on them.
-/

set_option autoImplicit false

namespace Radar.ChangeAuth

open Radar.Auth

/-- What an access review came to. One that could not be carried out denies. -/
structure Answer where
  allowed : Bool
  authoritative : Bool
  failClosed : authoritative = false → allowed = false

/-- Without a client, or when the review fails, the denial is not authoritative. -/
def canReadUserSAR (client : Option Answers) (t : Attributes) : Answer :=
  match client with
  | none => ⟨false,false,fun _ => rfl⟩
  | some sar =>
    match sar t with
    | none => ⟨false,false,fun _ => rfl⟩
    | some allowed => ⟨allowed,true,nofun⟩

structure Verdict where
  tuple : Attributes
  answer : Answer
  during : List String
  time : Time

structure AuthMemoEntry where
  allowed : Bool
  expires : Time
  verdict : Verdict

abbrev AuthMemo := Expiry.Table String AuthMemoEntry

def memoKey (ctxName : String) (t : Attributes) : String :=
  ctxName ++ cacheKeySep ++ t.verb ++ cacheKeySep ++ t.group ++ cacheKeySep ++ t.resource
    ++ cacheKeySep ++ t.ns

/-- The memo without its expired entries, and how many these were. -/
def sweepExpiredAuthMemo (memo : AuthMemo) (now : Time) : AuthMemo × ℕ :=
  (Expiry.sweep AuthMemoEntry.expires memo now,
    Expiry.size memo-Expiry.size (Expiry.sweep AuthMemoEntry.expires memo now))

structure Authorizer where
  ttl : Time
  negativeTTL : Time
  maxEntries : ℤ

def second : Time := 1000000000

/-- The authorizer of a stream of changes. -/
def sseChangeAuth : Authorizer where
  ttl := 120*second
  negativeTTL := 10*second
  maxEntries := 8192

def Authorizer.expiry (p : Authorizer) (a : Answer) : Time :=
  if a.authoritative then p.ttl else p.negativeTTL

inductive Call where
  | idle
  | named (t : Attributes) (ctxName : String)
  | timed (t : Attributes) (ctxName : String) (now : Time)
  | asking (t : Attributes) (ctxName : String) (now : Time) (during : List String)
  | answered (t : Attributes) (ctxName : String) (now : Time) (v : Verdict)
  /-- The context name was the same as before. -/
  | storing (t : Attributes) (ctxName : String) (now : Time) (v : Verdict)

/-- A context has become active. -/
def Call.sees (name : String) : Call → Call
  | .asking t ctxName now during => .asking t ctxName now (name::during)
  | c => c

/-- What a lookup returned, with the verdict it rests on. -/
structure Reply where
  tuple : Attributes
  ctxName : String
  time : Time
  allowed : Bool
  verdict : Option Verdict

/-- `verdicts` and `replies` are what was answered so far. -/
structure State where
  contextName : String
  clock : Time
  memo : AuthMemo := ∅
  lastSweep : Option Time := none
  calls : ℕ → Call := fun _ => .idle
  verdicts : List Verdict := []
  replies : List Reply := []

inductive Act where
  | lookup (i : ℕ) (t : Attributes)
  | readClock (i : ℕ)
  | readMemo (i : ℕ)
  | answer (i : ℕ) (a : Answer)
  | compare (i : ℕ)
  | store (i : ℕ)
  | switchContext (name : String)
  | advance (elapsed : ℕ)

namespace State

variable (p : Authorizer) (s : State)

def setCall (i : ℕ) (c : Call) : State := { s with calls := Function.update s.calls i c }

/-- The call is over. -/
def reply (i : ℕ) (r : Reply) : State := { s.setCall i .idle with replies := r::s.replies }

/-- Whether a store at `now` has to sweep first. -/
def sweepDue (now : Time) : Bool :=
  decide (p.maxEntries > 0) && decide ((Expiry.size s.memo : ℤ) ≥ p.maxEntries) &&
    match s.lastSweep with
    | none => true
    | some last => decide (now-last ≥ p.negativeTTL)

def sweepIfDue (now : Time) : State :=
  if s.sweepDue p now then
    { s with memo := (sweepExpiredAuthMemo s.memo now).1, lastSweep := some now }
  else s

def remember (t : Attributes) (ctxName : String) (now : Time) (v : Verdict) : State :=
  { s.sweepIfDue p now with
    memo := (s.sweepIfDue p now).memo.insert (memoKey ctxName t)
      ⟨v.answer.allowed,now+p.expiry v.answer,v⟩ }

/-- A lookup of `memoizedAuthorizer` moves, or what is around it does. -/
def step : Act → Option State
  | .lookup i t =>
    match s.calls i with
    | .idle => some (s.setCall i (.named t s.contextName))
    | _ => none
  | .readClock i =>
    match s.calls i with
    | .named t ctxName => some (s.setCall i (.timed t ctxName s.clock))
    | _ => none
  | .readMemo i =>
    match s.calls i with
    | .timed t ctxName now =>
      match Expiry.live AuthMemoEntry.expires s.memo now (memoKey ctxName t) with
      | some e => some (s.reply i ⟨t,ctxName,now,e.allowed,some e.verdict⟩)
      | none => some (s.setCall i (.asking t ctxName now [s.contextName]))
    | _ => none
  | .answer i a =>
    match s.calls i with
    | .asking t ctxName now during =>
      let v : Verdict := ⟨t,a,during,s.clock⟩
      some { s.setCall i (.answered t ctxName now v) with verdicts := v::s.verdicts }
    | _ => none
  | .compare i =>
    match s.calls i with
    | .answered t ctxName now v =>
      if s.contextName ≠ ctxName then some (s.reply i ⟨t,ctxName,now,false,none⟩)
      else some (s.setCall i (.storing t ctxName now v))
    | _ => none
  | .store i =>
    match s.calls i with
    | .storing t ctxName now v =>
      some ((s.remember p t ctxName now v).reply i ⟨t,ctxName,now,v.answer.allowed,some v⟩)
    | _ => none
  | .switchContext name =>
    some { s with contextName := name, calls := fun i => (s.calls i).sees name }
  | .advance elapsed => some { s with clock := s.clock+elapsed }

/-- The key that an action writes. -/
def written : Act → Option String
  | .store i =>
    match s.calls i with
    | .storing t ctxName _ _ => some (memoKey ctxName t)
    | _ => none
  | _ => none

end State

end Radar.ChangeAuth
