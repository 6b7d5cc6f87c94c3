import Mathlib.Data.Int.Notation
import Mathlib.Logic.Function.Basic
import Radar.Base.Run

/-!
# Back-channel logout

The revoker keeps what was revoked and which logout tokens were seen. Logout
tokens are delivered, possibly again and at the same time, and requests show
session cookies, which may be issued again for the same session. The clock
counts nanoseconds; a cookie keeps its expiry in seconds. `position` counts
the steps taken, and cookies, requests and answers remember where they began.
-/

set_option autoImplicit false

namespace Radar.Session

def second : ℕ := 1000000000

/-- A verified token; a claim that is missing is empty. -/
structure LogoutToken where
  sid : String
  sub : String
  jti : String
  expiry : Option ℕ
  deriving DecidableEq, Repr

structure MemoryRevoker where
  revoked : String → Option ℕ := fun _ => none
  jtis : String → Option ℕ := fun _ => none

namespace MemoryRevoker

def revoke (r : MemoryRevoker) (sid : String) (expiry : ℕ) : MemoryRevoker :=
  { r with revoked := Function.update r.revoked sid (some expiry) }

def isRevoked (r : MemoryRevoker) (now : ℕ) (sid : String) : Bool :=
  if sid = "" then false
  else
    match r.revoked sid with
    | none => false
    | some expiry => now < expiry

def seenJTI (r : MemoryRevoker) (jti : String) : Bool :=
  jti ≠ "" ∧ (r.jtis jti).isSome

def recordJTI (r : MemoryRevoker) (jti : String) (expiry : ℕ) : MemoryRevoker :=
  if jti = "" then r else { r with jtis := Function.update r.jtis jti (some expiry) }

/-- What has not expired at `now`. -/
def unexpired (now : ℕ) (entries : String → Option ℕ) (name : String) : Option ℕ :=
  (entries name).filter fun expiry => now ≤ expiry

def gc (r : MemoryRevoker) (now : ℕ) : MemoryRevoker where
  revoked := unexpired now r.revoked
  jtis := unexpired now r.jtis

end MemoryRevoker

/-- `origin` is where the cookie was issued, or where the request that issued it again began. -/
structure Cookie where
  sid : String
  expiresAt : ℕ
  origin : ℕ
  deriving DecidableEq, Repr

def Cookie.accepted (c : Cookie) (now : ℕ) : Bool := now / second ≤ c.expiresAt

inductive Delivery where
  | idle
  | verified (token : LogoutToken)
  /-- The token is new to `seenJTI`. -/
  | unseen (token : LogoutToken)
  | expiring (token : LogoutToken) (revocationExpiry : ℕ)
  | revoked (token : LogoutToken) (revocationExpiry : ℕ)
  | responded (status : ℕ)
  deriving DecidableEq, Repr

inductive Request where
  | idle
  | parsed (c : Cookie) (began : ℕ)
  | checked (c : Cookie) (began : ℕ)
  | reissuing (c : Cookie) (began : ℕ)
  | finished
  deriving DecidableEq, Repr

/-- A token that was answered with 200, and the entry for its sid at that moment. -/
structure Answer where
  token : LogoutToken
  position : ℕ
  time : ℕ
  expiry : Option ℕ
  deriving DecidableEq, Repr

structure Admission where
  cookie : Cookie
  began : ℕ
  deriving DecidableEq, Repr

structure Server where
  cookieTTL : ℕ
  now : ℕ
  position : ℕ := 1
  revoker : MemoryRevoker := {}
  deliveries : ℕ → Delivery := fun _ => .idle
  requests : ℕ → Request := fun _ => .idle
  cookies : List Cookie
  answers : List Answer := []
  admitted : List Admission := []

/-- A server starts with cookies that were issued before. -/
def started (cookieTTL now : ℕ) (issued : List (String × ℕ)) : Server where
  cookieTTL := cookieTTL
  now := now
  cookies := issued.map fun c => ⟨c.1,c.2,0⟩

inductive Act where
  | tick (elapsed : ℕ)
  | gc
  /-- A login; a session has an identifier. -/
  | login (sid : String)
  | deliver (i : ℕ) (token : LogoutToken)
  /-- The next step of `HandleBackchannelLogout`. -/
  | logout (i : ℕ)
  /-- `ParseSessionCookie` -/
  | request (i : ℕ) (c : Cookie)
  | check (i : ℕ)
  /-- What follows the check, by whether the identity is allowed. -/
  | slide (i : ℕ) (allowed : Bool)
  /-- `CreateSessionCookie` for the session's sid, or for a new one if the cookie had none. -/
  | reissue (i : ℕ) (minted : String)
  deriving DecidableEq, Repr

namespace Server

def setDelivery (s : Server) (i : ℕ) (d : Delivery) : Server :=
  { s with deliveries := Function.update s.deliveries i d }

def setRequest (s : Server) (i : ℕ) (r : Request) : Server :=
  { s with requests := Function.update s.requests i r }

def setRevoker (s : Server) (r : MemoryRevoker) : Server := { s with revoker := r }

def createSessionCookie (s : Server) (sid : String) (origin : ℕ) : Server :=
  { s with cookies := ⟨sid,(s.now+s.cookieTTL)/second,origin⟩::s.cookies }

def ok (s : Server) (token : LogoutToken) : Server :=
  { s with answers := ⟨token,s.position,s.now,s.revoker.revoked token.sid⟩::s.answers }

def serve (s : Server) (i : ℕ) (c : Cookie) (began : ℕ) : Server :=
  { s.setRequest i .finished with admitted := ⟨c,began⟩::s.admitted }

/-- A sid nobody has seen. -/
def newSessionID (s : Server) (minted : String) : Prop :=
  minted ≠ "" ∧ (∀ c ∈ s.cookies, c.sid ≠ minted) ∧ ∀ a ∈ s.answers, a.token.sid ≠ minted

instance (s : Server) (minted : String) : Decidable (s.newSessionID minted) :=
  inferInstanceAs (Decidable (_ ∧ _ ∧ _))

def handleBackchannelLogout (s : Server) (i : ℕ) : Option Server :=
  match s.deliveries i with
  | .verified token =>
    if token.sid = "" ∧ token.sub = "" then some (s.setDelivery i (.responded 400))
    else if s.revoker.seenJTI token.jti then some ((s.ok token).setDelivery i (.responded 200))
    else
      some ((s.setRevoker (s.revoker.recordJTI token.jti
        (token.expiry.getD (s.now+s.cookieTTL)))).setDelivery i (.unseen token))
  | .unseen token =>
    if token.sid = "" then some (s.setDelivery i (.responded 501))
    else some (s.setDelivery i (.expiring token (s.now+s.cookieTTL)))
  | .expiring token expiry =>
    some ((s.setRevoker (s.revoker.revoke token.sid expiry)).setDelivery i (.revoked token expiry))
  | .revoked token _ => some ((s.ok token).setDelivery i (.responded 200))
  | _ => none

/-- Past half of the TTL, or left from a longer one. -/
def slides (s : Server) (c : Cookie) : Prop :=
  let remaining : ℤ := (c.expiresAt*second : ℕ)-s.now
  remaining < (s.cookieTTL/2 : ℕ) ∨ (s.cookieTTL : ℤ) < remaining

instance (s : Server) (c : Cookie) : Decidable (s.slides c) :=
  inferInstanceAs (Decidable (_ ∨ _))

def act (s : Server) : Act → Option Server
  | .tick elapsed => some { s with now := s.now+elapsed }
  | .gc => some (s.setRevoker (s.revoker.gc s.now))
  | .login sid => if sid = "" then none else some (s.createSessionCookie sid s.position)
  | .deliver i token =>
    match s.deliveries i with
    | .idle => some (s.setDelivery i (.verified token))
    | _ => none
  | .logout i => s.handleBackchannelLogout i
  | .request i c =>
    match s.requests i with
    | .idle =>
      if c ∈ s.cookies ∧ c.accepted s.now then some (s.setRequest i (.parsed c s.position))
      else none
    | _ => none
  | .check i =>
    match s.requests i with
    | .parsed c began =>
      if s.revoker.isRevoked s.now c.sid then some (s.setRequest i .finished)
      else some (s.setRequest i (.checked c began))
    | _ => none
  | .slide i allowed =>
    match s.requests i with
    | .checked c began =>
      if ¬allowed then some (s.setRequest i .finished)
      else if s.slides c then some (s.setRequest i (.reissuing c began))
      else some (s.serve i c began)
    | _ => none
  | .reissue i minted =>
    match s.requests i with
    | .reissuing c began =>
      if c.sid = "" then
        if s.newSessionID minted then
          some ((s.createSessionCookie minted began).serve i c began)
        else none
      else some ((s.createSessionCookie c.sid began).serve i c began)
    | _ => none

def advance (s : Server) : Server := { s with position := s.position+1 }

def step (s : Server) (a : Act) : Option Server := (s.act a).map advance

end Server

end Radar.Session
