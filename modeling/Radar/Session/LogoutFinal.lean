import Mathlib.Order.Lattice.Nat
import Mathlib.Tactic.SplitIfs
import Radar.Session.Revocation

/-!
# A session that was logged out

A 200 for a session is final if it is given while the session's entry is in
force and outlives every cookie issued so far, no request past its check can
issue another one, no later delivery shortens the entry, and no request is
checked after the last second of its cookie.
-/

set_option autoImplicit false

namespace Radar.Session

open Radar.Run

/-- The cookie a request holds, and where the request began. -/
def Request.holding : Request → Option (Cookie × ℕ)
  | .parsed c began => some (c,began)
  | .checked c began => some (c,began)
  | .reissuing c began => some (c,began)
  | _ => none

/-- The same, once the cookie was found not to be revoked. -/
def Request.passed : Request → Option (Cookie × ℕ)
  | .checked c began => some (c,began)
  | .reissuing c began => some (c,began)
  | _ => none

def Delivery.revoking : Delivery → Option String
  | .expiring token _ => some token.sid
  | .revoked token _ => some token.sid
  | _ => none

/-- Every token answered with 200 carries a sid, which was revoked then and stays so until the
entry expires. -/
def Revoked (s : Server) : Prop :=
  ∀ a ∈ s.answers, a.token.sid ≠ "" ∧ ∃ e, a.expiry = some e ∧ a.time < e ∧
    (s.now < e → s.revoker.isRevoked s.now a.token.sid = true)

/-- No request that began after the answer was admitted with a cookie of the session issued before
it, or by a request that began before it. -/
def Final (s : Server) : Prop :=
  ∀ a ∈ s.answers, ∀ r ∈ s.admitted, r.cookie.sid = a.token.sid → a.position < r.began →
    a.position ≤ r.cookie.origin

/-- An entry that expires at `e` has not expired and outlives the cookies of the session, and no
request past its check can issue another one. -/
def Outlives (s : Server) (sid : String) (e : ℕ) : Prop :=
  s.now < e ∧ (∀ c ∈ s.cookies, c.sid = sid → (c.expiresAt+1)*second ≤ e) ∧
    ∀ i c began, (s.requests i).passed = some (c,began) → c.sid ≠ sid

/-- A token seen before is for a revoked session, the entry outlives the session when 200 is
answered, a revocation does not shorten an entry, and a request is checked while its cookie is
accepted. -/
def Finalizes (s : Server) : Act → Prop
  | .logout i =>
    match s.deliveries i with
    | .verified token => s.revoker.seenJTI token.jti = true → token.sid ≠ "" ∧
        ∃ e, s.revoker.revoked token.sid = some e ∧ Outlives s token.sid e
    | .expiring token e => ∀ e', s.revoker.revoked token.sid = some e' → e' ≤ e
    | .revoked token e => Outlives s token.sid e
    | _ => True
  | .check i =>
    match s.requests i with
    | .parsed c _ => c.accepted s.now = true
    | _ => True
  | _ => True

/-- Until `e` the session is revoked, at least until then. -/
def InForce (s : Server) (sid : String) (e : ℕ) : Prop :=
  s.now < e → ∃ e', s.revoker.revoked sid = some e' ∧ e ≤ e'

/-- What is known of a 200 once it has been given. -/
structure Answer.Holds (s : Server) (a : Answer) : Prop where
  given : a.position ≤ s.position
  sid : a.token.sid ≠ ""
  entry : ∃ e, a.expiry = some e ∧ a.time < e ∧ InForce s a.token.sid e ∧
    ∀ c ∈ s.cookies, c.sid = a.token.sid → c.origin < a.position →
      (c.expiresAt+1)*second ≤ e

structure LogoutInv (s : Server) : Prop where
  cookies : ∀ c ∈ s.cookies, c.origin ≤ s.position
  admitted : ∀ r ∈ s.admitted, r.began ≤ s.position
  requests : ∀ i c began, (s.requests i).holding = some (c,began) →
    c ∈ s.cookies ∧ c.origin ≤ began ∧ began ≤ s.position
  deliveries : ∀ i sid, (s.deliveries i).revoking = some sid → sid ≠ ""
  revoked : ∀ i token e, s.deliveries i = .revoked token e → InForce s token.sid e
  answers : ∀ a ∈ s.answers, a.Holds s
  passed : ∀ i c began, (s.requests i).passed = some (c,began) →
    ∀ a ∈ s.answers, c.sid = a.token.sid → a.position ≤ c.origin
  final : Final s

section Entries

variable {s : Server} {sid : String} {e : ℕ}

theorem isRevoked_of {r : MemoryRevoker} {now e' : ℕ} (hsid : sid ≠ "")
    (hr : r.revoked sid = some e') (hnow : now < e') : r.isRevoked now sid = true := by
  simp only [MemoryRevoker.isRevoked, if_neg hsid, hr, hnow, decide_true]

theorem InForce.isRevoked (h : InForce s sid e) (hsid : sid ≠ "") (hnow : s.now < e) :
    s.revoker.isRevoked s.now sid = true := by
  obtain ⟨e',hr,he⟩ := h hnow
  exact isRevoked_of hsid hr (lt_of_lt_of_le hnow he)

theorem InForce.tick (h : InForce s sid e) (elapsed : ℕ) :
    InForce { s with now := s.now+elapsed } sid e :=
  fun hnow => h (lt_of_le_of_lt (Nat.le_add_right _ _) hnow)

theorem InForce.gc (h : InForce s sid e) : InForce (s.setRevoker (s.revoker.gc s.now)) sid e := by
  intro hnow
  obtain ⟨e',hr,he⟩ := h hnow
  refine ⟨e',?_,he⟩
  have hlate : s.now ≤ e' := le_trans (le_of_lt hnow) he
  simp [Server.setRevoker, MemoryRevoker.gc, MemoryRevoker.unexpired, hr, hlate]

theorem InForce.recordJTI (h : InForce s sid e) (jti : String) (expiry : ℕ) :
    InForce (s.setRevoker (s.revoker.recordJTI jti expiry)) sid e := by
  intro hnow
  obtain ⟨e',hr,he⟩ := h hnow
  refine ⟨e',?_,he⟩
  show (s.revoker.recordJTI jti expiry).revoked sid = some e'
  unfold MemoryRevoker.recordJTI
  split_ifs <;> exact hr

/-- A revocation that shortens nothing keeps what is in force. -/
theorem InForce.revoke (h : InForce s sid e) {other : String} {expiry : ℕ}
    (hlater : ∀ e', s.revoker.revoked other = some e' → e' ≤ expiry) :
    InForce (s.setRevoker (s.revoker.revoke other expiry)) sid e := by
  intro hnow
  obtain ⟨e',hr,he⟩ := h hnow
  by_cases hs : sid = other
  · subst hs
    exact ⟨expiry,Function.update_self sid _ _,le_trans he (hlater e' hr)⟩
  · exact ⟨e',(Function.update_of_ne hs _ _).trans hr,he⟩

end Entries

section Steps

variable {s : Server}

theorem LogoutInv.advance (h : LogoutInv s) : LogoutInv s.advance where
  cookies c hc := le_trans (h.cookies c hc) (Nat.le_succ _)
  admitted r hr := le_trans (h.admitted r hr) (Nat.le_succ _)
  requests := by
    intro i c began hi
    obtain ⟨hc,ho,hb⟩ := h.requests i c began hi
    exact ⟨hc,ho,le_trans hb (Nat.le_succ _)⟩
  deliveries := h.deliveries
  revoked := h.revoked
  answers := by
    intro a ha
    obtain ⟨hgiven,hsid,hentry⟩ := h.answers a ha
    exact ⟨le_trans hgiven (Nat.le_succ _),hsid,hentry⟩
  passed := h.passed
  final := h.final

theorem LogoutInv.tick (h : LogoutInv s) (elapsed : ℕ) :
    LogoutInv { s with now := s.now+elapsed } where
  cookies := h.cookies
  admitted := h.admitted
  requests := h.requests
  deliveries := h.deliveries
  revoked i token e hi := (h.revoked i token e hi).tick elapsed
  answers := by
    intro a ha
    obtain ⟨hgiven,hsid,e,he,htime,hforce,hlive⟩ := h.answers a ha
    exact ⟨hgiven,hsid,e,he,htime,hforce.tick elapsed,hlive⟩
  passed := h.passed
  final := h.final

theorem LogoutInv.setRevoker (h : LogoutInv s) {r : MemoryRevoker}
    (hr : ∀ sid e, InForce s sid e → InForce (s.setRevoker r) sid e) :
    LogoutInv (s.setRevoker r) where
  cookies := h.cookies
  admitted := h.admitted
  requests := h.requests
  deliveries := h.deliveries
  revoked i token e hi := hr token.sid e (h.revoked i token e hi)
  answers := by
    intro a ha
    obtain ⟨hgiven,hsid,e,he,htime,hforce,hlive⟩ := h.answers a ha
    exact ⟨hgiven,hsid,e,he,htime,hr a.token.sid e hforce,hlive⟩
  passed := h.passed
  final := h.final

theorem LogoutInv.setDelivery (h : LogoutInv s) (i : ℕ) {d : Delivery}
    (hd : ∀ sid, d.revoking = some sid → sid ≠ "")
    (hr : ∀ token e, d = .revoked token e → InForce s token.sid e) :
    LogoutInv (s.setDelivery i d) where
  cookies := h.cookies
  admitted := h.admitted
  requests := h.requests
  deliveries := by
    intro j sid hj
    by_cases hji : j = i
    · subst hji
      exact hd sid (by simpa only [Server.setDelivery, Function.update_self] using hj)
    · exact h.deliveries j sid
        (by simpa only [Server.setDelivery, Function.update_of_ne hji] using hj)
  revoked := by
    intro j token e hj
    by_cases hji : j = i
    · subst hji
      exact hr token e (by simpa only [Server.setDelivery, Function.update_self] using hj)
    · exact h.revoked j token e
        (by simpa only [Server.setDelivery, Function.update_of_ne hji] using hj)
  answers a ha := ⟨(h.answers a ha).given,(h.answers a ha).sid,(h.answers a ha).entry⟩
  passed := h.passed
  final := h.final

/-- A 200 for a session whose entry outlives it. -/
theorem LogoutInv.ok (h : LogoutInv s) {token : LogoutToken} {e : ℕ} (hsid : token.sid ≠ "")
    (hentry : s.revoker.revoked token.sid = some e) (hlive : Outlives s token.sid e) :
    LogoutInv (s.ok token) where
  cookies := h.cookies
  admitted := h.admitted
  requests := h.requests
  deliveries := h.deliveries
  revoked := h.revoked
  answers := by
    intro a ha
    obtain rfl | ha := List.mem_cons.mp ha
    · exact ⟨le_rfl,hsid,e,hentry,hlive.1,fun _ => ⟨e,hentry,le_rfl⟩,
        fun c hc hcs _ => hlive.2.1 c hc hcs⟩
    · exact ⟨(h.answers a ha).given,(h.answers a ha).sid,(h.answers a ha).entry⟩
  passed := by
    intro i c began hi a ha hs
    obtain rfl | ha := List.mem_cons.mp ha
    · exact absurd hs (hlive.2.2 i c began hi)
    · exact h.passed i c began hi a ha hs
  final := by
    intro a ha r hr hs hlt
    obtain rfl | ha := List.mem_cons.mp ha
    · exact absurd (h.admitted r hr) (not_le_of_gt hlt)
    · exact h.final a ha r hr hs hlt

theorem LogoutInv.setRequest (h : LogoutInv s) (i : ℕ) {r : Request}
    (hh : ∀ c began, r.holding = some (c,began) →
      c ∈ s.cookies ∧ c.origin ≤ began ∧ began ≤ s.position)
    (hp : ∀ c began, r.passed = some (c,began) →
      ∀ a ∈ s.answers, c.sid = a.token.sid → a.position ≤ c.origin) :
    LogoutInv (s.setRequest i r) where
  cookies := h.cookies
  admitted := h.admitted
  requests := by
    intro j c began hj
    by_cases hji : j = i
    · subst hji
      exact hh c began (by simpa only [Server.setRequest, Function.update_self] using hj)
    · exact h.requests j c began
        (by simpa only [Server.setRequest, Function.update_of_ne hji] using hj)
  deliveries := h.deliveries
  revoked := h.revoked
  answers a ha := ⟨(h.answers a ha).given,(h.answers a ha).sid,(h.answers a ha).entry⟩
  passed := by
    intro j c began hj
    by_cases hji : j = i
    · subst hji
      exact hp c began (by simpa only [Server.setRequest, Function.update_self] using hj)
    · exact h.passed j c began
        (by simpa only [Server.setRequest, Function.update_of_ne hji] using hj)
  final := h.final

theorem LogoutInv.finish (h : LogoutInv s) (i : ℕ) : LogoutInv (s.setRequest i .finished) :=
  h.setRequest i (fun _ _ hr => nomatch hr) (fun _ _ hr => nomatch hr)

theorem LogoutInv.createSessionCookie (h : LogoutInv s) {sid : String} {origin : ℕ}
    (ho : origin ≤ s.position) (ha : ∀ a ∈ s.answers, sid = a.token.sid → a.position ≤ origin) :
    LogoutInv (s.createSessionCookie sid origin) where
  cookies := List.forall_mem_cons.mpr ⟨ho,h.cookies⟩
  admitted := h.admitted
  requests := by
    intro i c began hi
    obtain ⟨hc,hrest⟩ := h.requests i c began hi
    exact ⟨List.mem_cons_of_mem _ hc,hrest⟩
  deliveries := h.deliveries
  revoked := h.revoked
  answers := by
    intro a hmem
    obtain ⟨hgiven,hsid,e,he,htime,hforce,hlive⟩ := h.answers a hmem
    refine ⟨hgiven,hsid,e,he,htime,hforce,?_⟩
    intro c hc hs hlt
    obtain rfl | hc := List.mem_cons.mp hc
    · exact absurd (ha a hmem hs) (not_le_of_gt hlt)
    · exact hlive c hc hs hlt
  passed := h.passed
  final := h.final

theorem LogoutInv.serve (h : LogoutInv s) (i : ℕ) {c : Cookie} {began : ℕ}
    (hb : began ≤ s.position)
    (ha : ∀ a ∈ s.answers, c.sid = a.token.sid → a.position ≤ c.origin) :
    LogoutInv (s.serve i c began) where
  cookies := h.cookies
  admitted := List.forall_mem_cons.mpr ⟨hb,h.admitted⟩
  requests := (h.finish i).requests
  deliveries := h.deliveries
  revoked := h.revoked
  answers a ha := ⟨(h.answers a ha).given,(h.answers a ha).sid,(h.answers a ha).entry⟩
  passed := (h.finish i).passed
  final := by
    intro a hmem r hr hs hlt
    obtain rfl | hr := List.mem_cons.mp hr
    · exact ha a hmem hs
    · exact h.final a hmem r hr hs hlt

/-- A cookie from before an answer is rejected while it is accepted at all. -/
theorem LogoutInv.unrevoked (h : LogoutInv s) {c : Cookie} (hc : c ∈ s.cookies)
    (haccepted : c.accepted s.now = true) (hr : ¬s.revoker.isRevoked s.now c.sid = true)
    (a : Answer) (ha : a ∈ s.answers) (hs : c.sid = a.token.sid) : a.position ≤ c.origin := by
  by_contra hlt
  obtain ⟨-,hsid,e,-,-,hforce,hlive⟩ := h.answers a ha
  have hlast : (c.expiresAt+1)*second ≤ e := hlive c hc hs (Nat.lt_of_not_le hlt)
  have hnow : s.now < (c.expiresAt+1)*second :=
    Nat.lt_mul_of_div_lt (Nat.lt_succ_of_le (of_decide_eq_true haccepted)) (by decide)
  rw [hs] at hr
  exact hr (hforce.isRevoked hsid (lt_of_lt_of_le hnow hlast))

end Steps

section Runs

variable {s t : Server}

theorem logout_inv (h : LogoutInv s) {i : ℕ} (hok : Finalizes s (.logout i))
    (ht : s.handleBackchannelLogout i = some t) : LogoutInv t := by
  have hquiet : ∀ status sid, (Delivery.responded status).revoking = some sid → sid ≠ "" :=
    fun _ _ hd => nomatch hd
  cases hi : s.deliveries i with
  | verified token =>
    simp only [Server.handleBackchannelLogout, hi] at ht
    simp only [Finalizes, hi] at hok
    split_ifs at ht with hempty hseen
    · obtain rfl := Option.some.inj ht
      exact h.setDelivery i (hquiet 400) (fun _ _ hd => nomatch hd)
    · obtain rfl := Option.some.inj ht
      obtain ⟨hsid,e,hentry,hlive⟩ := hok hseen
      exact (h.ok hsid hentry hlive).setDelivery i (hquiet 200) (fun _ _ hd => nomatch hd)
    · obtain rfl := Option.some.inj ht
      exact (h.setRevoker fun _ _ hf => hf.recordJTI _ _).setDelivery i (fun _ hd => nomatch hd)
        (fun _ _ hd => nomatch hd)
  | unseen token =>
    simp only [Server.handleBackchannelLogout, hi] at ht
    split_ifs at ht with hsid
    · obtain rfl := Option.some.inj ht
      exact h.setDelivery i (hquiet 501) (fun _ _ hd => nomatch hd)
    · obtain rfl := Option.some.inj ht
      exact h.setDelivery i (fun sid hd => Option.some.inj hd ▸ hsid) (fun _ _ hd => nomatch hd)
  | expiring token e =>
    simp only [Server.handleBackchannelLogout, hi] at ht
    simp only [Finalizes, hi] at hok
    obtain rfl := Option.some.inj ht
    have hsid : token.sid ≠ "" := h.deliveries i token.sid (by rw [hi]; rfl)
    refine (h.setRevoker fun _ _ hf => hf.revoke hok).setDelivery i
      (fun sid hd => Option.some.inj hd ▸ hsid) ?_
    intro token' e' hd
    injection hd with htoken he
    subst htoken he
    exact fun _ => ⟨e,Function.update_self token.sid _ _,le_rfl⟩
  | revoked token e =>
    simp only [Server.handleBackchannelLogout, hi] at ht
    simp only [Finalizes, hi] at hok
    obtain rfl := Option.some.inj ht
    have hsid : token.sid ≠ "" := h.deliveries i token.sid (by rw [hi]; rfl)
    obtain ⟨e',hentry,he⟩ := h.revoked i token e hi hok.1
    have hlive : Outlives s token.sid e' :=
      ⟨lt_of_lt_of_le hok.1 he,fun c hc hs => le_trans (hok.2.1 c hc hs) he,hok.2.2⟩
    exact (h.ok hsid hentry hlive).setDelivery i (hquiet 200) (fun _ _ hd => nomatch hd)
  | idle => simp [Server.handleBackchannelLogout, hi] at ht
  | responded status => simp [Server.handleBackchannelLogout, hi] at ht

theorem act_inv (h : LogoutInv s) {a : Act} (hok : Finalizes s a) (ht : s.act a = some t) :
    LogoutInv t := by
  cases a with
  | tick elapsed =>
    obtain rfl := Option.some.inj ht
    exact h.tick elapsed
  | gc =>
    obtain rfl := Option.some.inj ht
    exact h.setRevoker fun _ _ hf => hf.gc
  | login sid =>
    simp only [Server.act] at ht
    split_ifs at ht
    obtain rfl := Option.some.inj ht
    exact h.createSessionCookie le_rfl fun a ha _ => (h.answers a ha).given
  | deliver i token =>
    cases hi : s.deliveries i with
    | idle =>
      simp only [Server.act, hi] at ht
      obtain rfl := Option.some.inj ht
      exact h.setDelivery i (fun _ hd => nomatch hd) (fun _ _ hd => nomatch hd)
    | _ => simp [Server.act, hi] at ht
  | logout i => exact logout_inv h hok ht
  | request i c =>
    cases hi : s.requests i with
    | idle =>
      simp only [Server.act, hi] at ht
      split_ifs at ht with hc
      obtain rfl := Option.some.inj ht
      refine h.setRequest i ?_ (fun _ _ hr => nomatch hr)
      intro c' began hr
      obtain ⟨rfl,rfl⟩ := Prod.mk.inj (Option.some.inj hr)
      exact ⟨hc.1,h.cookies c hc.1,le_rfl⟩
    | _ => simp [Server.act, hi] at ht
  | check i =>
    cases hi : s.requests i with
    | parsed c began =>
      simp only [Server.act, hi] at ht
      simp only [Finalizes, hi] at hok
      have hheld := h.requests i c began (by rw [hi]; rfl)
      split_ifs at ht with hr
      · obtain rfl := Option.some.inj ht
        exact h.finish i
      · obtain rfl := Option.some.inj ht
        apply h.setRequest i
        · intro c' began' hr'
          obtain ⟨rfl,rfl⟩ := Prod.mk.inj (Option.some.inj hr')
          exact hheld
        · intro c' began' hr' a ha hs
          obtain ⟨rfl,rfl⟩ := Prod.mk.inj (Option.some.inj hr')
          exact h.unrevoked hheld.1 hok hr a ha hs
    | _ => simp [Server.act, hi] at ht
  | slide i allowed =>
    cases hi : s.requests i with
    | checked c began =>
      simp only [Server.act, hi] at ht
      have hheld := h.requests i c began (by rw [hi]; rfl)
      have hpassed := h.passed i c began (by rw [hi]; rfl)
      split_ifs at ht with ha hs
      · obtain rfl := Option.some.inj ht
        apply h.setRequest i
        · intro c' began' hr'
          obtain ⟨rfl,rfl⟩ := Prod.mk.inj (Option.some.inj hr')
          exact hheld
        · intro c' began' hr'
          obtain ⟨rfl,rfl⟩ := Prod.mk.inj (Option.some.inj hr')
          exact hpassed
      · obtain rfl := Option.some.inj ht
        exact h.serve i hheld.2.2 hpassed
      · obtain rfl := Option.some.inj ht
        exact h.finish i
    | _ => simp [Server.act, hi] at ht
  | reissue i minted =>
    cases hi : s.requests i with
    | reissuing c began =>
      simp only [Server.act, hi] at ht
      have hheld := h.requests i c began (by rw [hi]; rfl)
      have hpassed := h.passed i c began (by rw [hi]; rfl)
      split_ifs at ht with hsid hnew
      · obtain rfl := Option.some.inj ht
        have hcookie := h.createSessionCookie hheld.2.2
          fun a ha hs => absurd hs.symm (hnew.2.2 a ha)
        exact hcookie.serve i hheld.2.2 hpassed
      · obtain rfl := Option.some.inj ht
        have hcookie := h.createSessionCookie hheld.2.2
          fun a ha hs => le_trans (hpassed a ha hs) hheld.2.1
        exact hcookie.serve i hheld.2.2 hpassed
    | _ => simp [Server.act, hi] at ht

theorem step_inv (h : LogoutInv s) {a : Act} (hok : Finalizes s a) (ht : s.step a = some t) :
    LogoutInv t := by
  obtain ⟨u,hu,rfl⟩ := Option.map_eq_some_iff.mp ht
  exact (act_inv h hok hu).advance

theorem started_inv (cookieTTL now : ℕ) (issued : List (String × ℕ)) :
    LogoutInv (started cookieTTL now issued) where
  cookies := by
    intro c hc
    obtain ⟨p,-,rfl⟩ := List.mem_map.mp hc
    exact Nat.zero_le _
  admitted _ hr := nomatch hr
  requests _ _ _ hi := nomatch hi
  deliveries _ _ hi := nomatch hi
  revoked _ _ _ hi := nomatch hi
  answers _ ha := nomatch ha
  passed _ _ _ hi := nomatch hi
  final _ ha := nomatch ha

theorem LogoutInv.revokedNow (h : LogoutInv s) : Revoked s := by
  intro a ha
  obtain ⟨-,hsid,e,he,htime,hforce,-⟩ := h.answers a ha
  exact ⟨hsid,e,he,htime,fun hnow => hforce.isRevoked hsid hnow⟩

/-- Back-channel logout is final in every run whose steps finalize. -/
theorem logout_final {cookieTTL now : ℕ} {issued : List (String × ℕ)} {as : List Act}
    (hm : Meets Server.step Finalizes (started cookieTTL now issued) as)
    (hr : run Server.step (started cookieTTL now issued) as = some s) : Revoked s ∧ Final s := by
  have h := meets_invariant (fun _ _ _ h hok ht => step_inv h hok ht)
    (started_inv cookieTTL now issued) hm hr
  exact ⟨h.revokedNow,h.final⟩

/-- A session of a login at 0.2 s, with a TTL of ten seconds, is logged out at 1.2 s. -/
def loggedOut : List Act :=
  [.login "s",.tick second,.deliver 0 ⟨"s","u","j",none⟩,.logout 0,.logout 0,.logout 0,.logout 0,
    .request 0 ⟨"s",10,1⟩,.check 0]

theorem logout_final_loggedOut : ∃ s,
    run Server.step (started (10*second) (second/5) []) loggedOut = some s ∧
      Revoked s ∧ Final s := by
  have hr : ∃ s, run Server.step (started (10*second) (second/5) []) loggedOut = some s := ⟨_,rfl⟩
  obtain ⟨s,hs⟩ := hr
  refine ⟨s,hs,logout_final ?_ hs⟩
  refine meets_cons trivial rfl (meets_cons trivial rfl (meets_cons trivial rfl ?_))
  refine meets_cons (fun hseen => nomatch hseen) rfl (meets_cons trivial rfl ?_)
  refine meets_cons (fun _ he => nomatch he) rfl (meets_cons ⟨by decide,?_,fun _ _ _ hi => nomatch hi⟩ rfl ?_)
  · intro c hc _
    obtain rfl := List.mem_singleton.mp hc
    decide
  · exact meets_cons trivial rfl (meets_cons rfl rfl trivial)

/-- A token without a sid is refused, and its retry is answered with 200. -/
def retried : List Act :=
  [.deliver 0 ⟨"","u","j",none⟩,.logout 0,.logout 0,.deliver 1 ⟨"","u","j",none⟩,.logout 1]

/-- The entry of a session of 0.2 s ends at 10.3 s, its cookie is accepted up to 11 s. -/
def lastSecond : List Act :=
  [.login "s",.tick (second/10),.deliver 0 ⟨"s","u","j",none⟩,.logout 0,.logout 0,.logout 0,
    .logout 0,.tick (10*second+second/5),.request 0 ⟨"s",10,1⟩,.check 0,.slide 0 true,.reissue 0 ""]

theorem logout_not_final :
    (∃ s, run Server.step (started (10*second) 0 []) retried = some s ∧ ¬Revoked s) ∧
    ∃ s, run Server.step (started (10*second) (second/5) []) lastSecond = some s ∧ ¬Final s := by
  constructor
  · exact ⟨_,rfl,fun h => (h _ List.mem_cons_self).1 rfl⟩
  · refine ⟨_,rfl,fun h => ?_⟩
    exact absurd (h _ List.mem_cons_self _ List.mem_cons_self rfl (by decide)) (by decide)

end Runs

end Radar.Session
