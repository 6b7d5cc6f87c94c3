import Radar.Auth.ChangeAuthorizer

/-!
# What the authorization memo serves

The context name is compared before and after the question only, so a switch
away and back in between is not seen. In runs without one every answer is a
verdict of the right cluster for the right tuple and young enough, and the
memo loses nothing but what has expired or was written anew.
-/

set_option autoImplicit false

namespace Radar.ChangeAuth

open Radar.Auth Radar.Run

def Clean (t : Attributes) : Prop := Join.Free nul [t.verb,t.group,t.resource,t.ns]

instance (t : Attributes) : Decidable (Clean t) :=
  inferInstanceAs (Decidable (Join.Free nul [t.verb,t.group,t.resource,t.ns]))

theorem memoKey_inj {c c' : String} {t t' : Attributes} (ht : Clean t) (ht' : Clean t')
    (h : memoKey c t = memoKey c' t') : c = c' ∧ t = t' := by
  obtain ⟨verb,group,resource,ns⟩ := t
  obtain ⟨verb',group',resource',ns'⟩ := t'
  simp only [Clean, Join.Free, List.forall_mem_cons] at ht ht'
  have hns := Join.last_part_inj ht.2.2.2.1 ht'.2.2.2.1 h
  have hresource := Join.last_part_inj ht.2.2.1 ht'.2.2.1 hns.1
  have hgroup := Join.last_part_inj ht.2.1 ht'.2.1 hresource.1
  have hverb := Join.last_part_inj ht.1 ht'.1 hgroup.1
  refine ⟨hverb.1,?_⟩
  rw [hverb.2, hgroup.2, hresource.2, hns.2]

/-- The names that an action brings hold no separator. -/
def Act.Clean : Act → Prop
  | .lookup _ t => ChangeAuth.Clean t
  | _ => True

/-- Where the name compared is the one read before, no other context was active in between. -/
def Undisturbed (s : State) : Act → Prop
  | .compare i =>
    match s.calls i with
    | .answered _ ctxName _ v => s.contextName = ctxName → ∀ c ∈ v.during, c = ctxName
    | _ => True
  | _ => True

/-- The verdict `v` is what the reply says, given for the tuple and in the context of the lookup,
and not too old at its time. -/
structure Reply.Backed (p : Authorizer) (verdicts : List Verdict) (r : Reply) (v : Verdict) :
    Prop where
  given : v ∈ verdicts
  tuple : v.tuple = r.tuple
  context : ∀ c ∈ v.during, c = r.ctxName
  allowed : r.allowed = v.answer.allowed
  fresh : r.time ≤ v.time ∨ r.time < v.time+p.expiry v.answer
  failClosed : v.answer.authoritative = false → r.allowed = false

/-- A reply that rests on no verdict denies. -/
def Reply.Sound (p : Authorizer) (verdicts : List Verdict) (r : Reply) : Prop :=
  match r.verdict with
  | none => r.allowed = false
  | some v => r.Backed p verdicts v

def Verdict.For (v : Verdict) (verdicts : List Verdict) (t : Attributes) (ctxName : String) : Prop :=
  v ∈ verdicts ∧ v.tuple = t ∧ ∀ c ∈ v.during, c = ctxName

def Call.Ok (verdicts : List Verdict) (clock : Time) : Call → Prop
  | .idle => True
  | .named t _ => Clean t
  | .timed t _ now => Clean t ∧ now ≤ clock
  | .asking t _ now _ => Clean t ∧ now ≤ clock
  | .answered t _ now v => Clean t ∧ now ≤ clock ∧ v ∈ verdicts ∧ v.tuple = t ∧ now ≤ v.time
  | .storing t ctxName now v => Clean t ∧ now ≤ clock ∧ v.For verdicts t ctxName ∧ now ≤ v.time

structure AuthMemoEntry.Ok (p : Authorizer) (verdicts : List Verdict) (k : String)
    (e : AuthMemoEntry) : Prop where
  found : ∃ t ctxName, Clean t ∧ k = memoKey ctxName t ∧ e.verdict.For verdicts t ctxName
  allowed : e.allowed = e.verdict.answer.allowed
  expires : e.expires ≤ e.verdict.time+p.expiry e.verdict.answer

structure MemoInv (p : Authorizer) (s : State) : Prop where
  calls : ∀ i, (s.calls i).Ok s.verdicts s.clock
  memo : ∀ k e, e ∈ s.memo.lookup k → e.Ok p s.verdicts k
  replies : ∀ r ∈ s.replies, r.Sound p s.verdicts

section More

variable {p : Authorizer} {verdicts : List Verdict} {clock : Time}

theorem Verdict.For.more {v : Verdict} {t : Attributes} {ctxName : String}
    (h : v.For verdicts t ctxName) (w : Verdict) : v.For (w::verdicts) t ctxName :=
  ⟨List.mem_cons_of_mem w h.1,h.2⟩

theorem Call.Ok.more {c : Call} (h : c.Ok verdicts clock) (w : Verdict) :
    c.Ok (w::verdicts) clock := by
  cases c with
  | answered t ctxName now v => exact ⟨h.1,h.2.1,List.mem_cons_of_mem w h.2.2.1,h.2.2.2⟩
  | storing t ctxName now v => exact ⟨h.1,h.2.1,h.2.2.1.more w,h.2.2.2⟩
  | _ => exact h

theorem Call.Ok.later {c : Call} (h : c.Ok verdicts clock) {clock' : Time} (hc : clock ≤ clock') :
    c.Ok verdicts clock' := by
  cases c with
  | idle => trivial
  | named t ctxName => exact h
  | timed t ctxName now => exact ⟨h.1,h.2.trans hc⟩
  | asking t ctxName now during => exact ⟨h.1,h.2.trans hc⟩
  | answered t ctxName now v => exact ⟨h.1,h.2.1.trans hc,h.2.2⟩
  | storing t ctxName now v => exact ⟨h.1,h.2.1.trans hc,h.2.2⟩

theorem Call.Ok.sees {c : Call} (h : c.Ok verdicts clock) (name : String) :
    (c.sees name).Ok verdicts clock := by
  cases c <;> exact h

theorem AuthMemoEntry.Ok.more {k : String} {e : AuthMemoEntry} (h : e.Ok p verdicts k)
    (w : Verdict) : e.Ok p (w::verdicts) k where
  found := by
    obtain ⟨t,ctxName,ht,hk,hv⟩ := h.found
    exact ⟨t,ctxName,ht,hk,hv.more w⟩
  allowed := h.allowed
  expires := h.expires

theorem Reply.Sound.more {r : Reply} (h : r.Sound p verdicts) (w : Verdict) :
    r.Sound p (w::verdicts) := by
  unfold Reply.Sound at h ⊢
  cases hr : r.verdict with
  | none =>
    rw [hr] at h
    exact h
  | some v =>
    rw [hr] at h
    exact ⟨List.mem_cons_of_mem w h.given,h.tuple,h.context,h.allowed,h.fresh,h.failClosed⟩

end More

section Steps

variable {p : Authorizer} {s t : State}

theorem MemoInv.setCall (h : MemoInv p s) (i : ℕ) {c : Call} (hc : c.Ok s.verdicts s.clock) :
    MemoInv p (s.setCall i c) where
  calls j := by
    by_cases hj : j = i
    · subst hj
      simpa [State.setCall] using hc
    · simpa [State.setCall, hj] using h.calls j
  memo := h.memo
  replies := h.replies

theorem MemoInv.reply (h : MemoInv p s) (i : ℕ) {r : Reply} (hr : r.Sound p s.verdicts) :
    MemoInv p (s.reply i r) where
  calls := (h.setCall i (c := .idle) trivial).calls
  memo := h.memo
  replies := List.forall_mem_cons.mpr ⟨hr,h.replies⟩

/-- A new verdict. -/
theorem MemoInv.more (h : MemoInv p s) (v : Verdict) :
    MemoInv p { s with verdicts := v::s.verdicts } where
  calls i := (h.calls i).more v
  memo k e he := (h.memo k e he).more v
  replies r hr := (h.replies r hr).more v

@[simp] theorem sweepIfDue_frame (p : Authorizer) (s : State) (now : Time) :
    (s.sweepIfDue p now).calls = s.calls ∧ (s.sweepIfDue p now).verdicts = s.verdicts ∧
    (s.sweepIfDue p now).clock = s.clock ∧ (s.sweepIfDue p now).replies = s.replies := by
  unfold State.sweepIfDue
  split <;> exact ⟨rfl,rfl,rfl,rfl⟩

theorem mem_sweepIfDue {now : Time} {k : String} {e : AuthMemoEntry}
    (h : e ∈ (s.sweepIfDue p now).memo.lookup k) : e ∈ s.memo.lookup k := by
  unfold State.sweepIfDue at h
  split at h
  · exact (Expiry.mem_sweep.mp h).1
  · exact h

theorem sweepIfDue_kept {now : Time} (h : now ≤ s.clock) (written : Option String) :
    Expiry.Kept AuthMemoEntry.expires s.clock written s.memo (s.sweepIfDue p now).memo := by
  unfold State.sweepIfDue
  split
  · exact Expiry.sweep_kept s.memo h written
  · exact Expiry.Kept.refl _ _ _

theorem MemoInv.remember (h : MemoInv p s) {i : ℕ} {a : Attributes} {ctxName : String} {now : Time}
    {v : Verdict} (hi : s.calls i = .storing a ctxName now v) :
    MemoInv p (s.remember p a ctxName now v) := by
  have hc : (Call.storing a ctxName now v).Ok s.verdicts s.clock := hi ▸ h.calls i
  have hframe := sweepIfDue_frame p s now
  refine ⟨fun j => ?_,fun k e he => ?_,fun r hr => ?_⟩
  · simpa [State.remember] using h.calls j
  · simp only [State.remember, hframe] at he ⊢
    obtain ⟨rfl,rfl⟩ | hold := Expiry.mem_insert he
    · exact ⟨⟨a,ctxName,hc.1,rfl,hc.2.2.1⟩,rfl,Int.add_le_add_right hc.2.2.2 _⟩
    · exact h.memo k e (mem_sweepIfDue hold)
  · simp only [State.remember, hframe] at hr ⊢
    exact h.replies r hr

/-- What is found under the key of a lookup backs its reply. -/
theorem MemoInv.backed (h : MemoInv p s) {a : Attributes} {ctxName : String} {now : Time}
    {e : AuthMemoEntry} (ha : Clean a)
    (he : e ∈ Expiry.live AuthMemoEntry.expires s.memo now (memoKey ctxName a)) :
    Reply.Sound p s.verdicts ⟨a,ctxName,now,e.allowed,some e.verdict⟩ := by
  obtain ⟨hfound,hlive⟩ := Expiry.mem_live.mp he
  have hok := h.memo _ e hfound
  obtain ⟨a',ctxName',ha',hk,hv⟩ := hok.found
  obtain ⟨rfl,rfl⟩ := memoKey_inj ha ha' hk
  exact ⟨hv.1,hv.2.1,hv.2.2,hok.allowed,.inr (hlive.trans_le hok.expires),
    fun hf => hok.allowed.trans (e.verdict.answer.failClosed hf)⟩

theorem step_inv (h : MemoInv p s) {a : Act} (ha : a.Clean) (hok : Undisturbed s a)
    (ht : s.step p a = some t) : MemoInv p t := by
  cases a with
  | lookup i a =>
    simp only [State.step] at ht
    split at ht
    · obtain rfl := Option.some.inj ht
      exact h.setCall i ha
    · cases ht
  | readClock i =>
    simp only [State.step] at ht
    split at ht
    · rename_i a ctxName hi
      have hc : (Call.named a ctxName).Ok s.verdicts s.clock := hi ▸ h.calls i
      obtain rfl := Option.some.inj ht
      exact h.setCall i ⟨hc,le_refl s.clock⟩
    · cases ht
  | readMemo i =>
    simp only [State.step] at ht
    split at ht
    · rename_i a ctxName now hi
      have hc : (Call.timed a ctxName now).Ok s.verdicts s.clock := hi ▸ h.calls i
      split at ht
      · rename_i e he
        obtain rfl := Option.some.inj ht
        exact h.reply i (h.backed hc.1 he)
      · obtain rfl := Option.some.inj ht
        exact h.setCall i hc
    · cases ht
  | answer i b =>
    simp only [State.step] at ht
    split at ht
    · rename_i a ctxName now during hi
      have hc : (Call.asking a ctxName now during).Ok s.verdicts s.clock := hi ▸ h.calls i
      obtain rfl := Option.some.inj ht
      have hmore := h.more ⟨a,b,during,s.clock⟩
      exact hmore.setCall i ⟨hc.1,hc.2,List.mem_cons_self,rfl,hc.2⟩
    · cases ht
  | compare i =>
    simp only [State.step] at ht
    split at ht
    · rename_i a ctxName now v hi
      have hc : (Call.answered a ctxName now v).Ok s.verdicts s.clock := hi ▸ h.calls i
      split at ht
      · obtain rfl := Option.some.inj ht
        exact h.reply i rfl
      · rename_i hsame
        obtain rfl := Option.some.inj ht
        simp only [Undisturbed, hi] at hok
        have hduring := hok (not_not.mp hsame)
        exact h.setCall i ⟨hc.1,hc.2.1,⟨hc.2.2.1,hc.2.2.2.1,hduring⟩,hc.2.2.2.2⟩
    · cases ht
  | store i =>
    simp only [State.step] at ht
    split at ht
    · rename_i a ctxName now v hi
      have hc : (Call.storing a ctxName now v).Ok s.verdicts s.clock := hi ▸ h.calls i
      obtain rfl := Option.some.inj ht
      apply (h.remember hi).reply i
      have hframe := sweepIfDue_frame p s now
      simp only [State.remember, hframe]
      exact ⟨hc.2.2.1.1,hc.2.2.1.2.1,hc.2.2.1.2.2,rfl,.inl hc.2.2.2,v.answer.failClosed⟩
    · cases ht
  | switchContext name =>
    obtain rfl := Option.some.inj ht
    exact ⟨fun i => (h.calls i).sees name,h.memo,h.replies⟩
  | advance elapsed =>
    obtain rfl := Option.some.inj ht
    have hclock := Int.le_add_of_nonneg_right (a := s.clock) (Int.natCast_nonneg elapsed)
    exact ⟨fun i => (h.calls i).later hclock,h.memo,h.replies⟩

/-- An action writes one key, and what else it drops has expired. -/
theorem step_kept (h : MemoInv p s) {a : Act} (ht : s.step p a = some t) :
    Expiry.Kept AuthMemoEntry.expires s.clock (s.written a) s.memo t.memo := by
  by_cases hm : t.memo = s.memo
  · rw [hm]
    exact Expiry.Kept.refl _ _ _
  cases a with
  | store i =>
    simp only [State.step] at ht
    split at ht
    · rename_i a ctxName now v hi
      have hc : (Call.storing a ctxName now v).Ok s.verdicts s.clock := hi ▸ h.calls i
      obtain rfl := Option.some.inj ht
      simp only [State.written, hi]
      exact (sweepIfDue_kept hc.2.1 _).trans (Expiry.insert_kept _ _ _ _)
    · cases ht
  | switchContext name => exact absurd (Option.some.inj ht ▸ rfl) hm
  | advance elapsed => exact absurd (Option.some.inj ht ▸ rfl) hm
  | _ =>
    simp only [State.step] at ht
    exfalso
    repeat' split at ht
    all_goals first
      | exact hm (Option.some.inj ht ▸ rfl)
      | cases ht

end Steps

def start (contextName : String) (clock : Time) : State where
  contextName := contextName
  clock := clock

theorem start_inv (p : Authorizer) (contextName : String) (clock : Time) :
    MemoInv p (start contextName clock) where
  calls _ := trivial
  memo _ _ he := nomatch he
  replies _ hr := nomatch hr

/-- In every run that meets the condition every reply is sound, and whatever comes next takes
nothing from the memo that has not expired, but the entry of the key that it writes. -/
theorem authorizations_sound {p : Authorizer} {contextName : String} {clock : Time} {as : List Act}
    {s : State} (hclean : ∀ a ∈ as, a.Clean)
    (hm : Meets (State.step p) Undisturbed (start contextName clock) as)
    (hr : run (State.step p) (start contextName clock) as = some s) :
    (∀ r ∈ s.replies, r.Sound p s.verdicts) ∧
    ∀ a t, s.step p a = some t →
      Expiry.Kept AuthMemoEntry.expires s.clock (s.written a) s.memo t.memo := by
  have hinv : MemoInv p s :=
    meets_invariant (fun _ _ _ h hok ht => step_inv h hok.1 hok.2 ht) (start_inv p contextName clock)
      (meets_and hclean hm) hr
  exact ⟨hinv.replies,fun _ _ ht => step_kept hinv ht⟩

def getPods : Attributes := ⟨"get","","pods","default"⟩

def yes : Answer := ⟨true,true,nofun⟩

/-- A switch while the cluster is asked, another after the answer is stored, and a way back. -/
def switches : List Act :=
  [.lookup 0 getPods,.readClock 0,.readMemo 0,.switchContext "y",.answer 0 yes,.compare 0,
    .lookup 1 getPods,.readClock 1,.readMemo 1,.answer 1 yes,.compare 1,.store 1,
    .switchContext "x",.switchContext "y",.lookup 2 getPods,.readClock 2,.readMemo 2]

theorem authorizations_sound_switches : ∃ s,
    run (State.step sseChangeAuth) (start "x" 0) switches = some s ∧ s.replies.length = 3 ∧
    ∀ r ∈ s.replies, r.Sound sseChangeAuth s.verdicts := by
  have hpods : Clean getPods := by decide
  have hclean : ∀ a ∈ switches, a.Clean := by simp [switches, Act.Clean, hpods]
  have hr : ∃ s, run (State.step sseChangeAuth) (start "x" 0) switches = some s ∧
      s.replies.length = 3 := ⟨_,rfl,rfl⟩
  obtain ⟨s,hs,hlength⟩ := hr
  refine ⟨s,hs,hlength,(authorizations_sound hclean ?_ hs).1⟩
  refine meets_cons trivial rfl (meets_cons trivial rfl (meets_cons trivial rfl ?_))
  refine meets_cons trivial rfl (meets_cons trivial rfl (meets_cons ?_ rfl ?_))
  · exact fun h => absurd h (by decide)
  refine meets_cons trivial rfl (meets_cons trivial rfl (meets_cons trivial rfl ?_))
  refine meets_cons trivial rfl (meets_cons ?_ rfl ?_)
  · exact fun _ => List.forall_mem_singleton.mpr rfl
  refine meets_cons trivial rfl (meets_cons trivial rfl (meets_cons trivial rfl ?_))
  exact meets_cons trivial rfl (meets_cons trivial rfl (meets_cons trivial rfl trivial))

/-- The other cluster is asked between a switch and the switch back; a later lookup is served its
verdict as well. -/
def thereAndBack : List Act :=
  [.lookup 0 getPods,.readClock 0,.readMemo 0,.switchContext "y",.answer 0 yes,.switchContext "x",
    .compare 0,.store 0,.lookup 1 getPods,.readClock 1,.readMemo 1]

theorem authorizations_not_sound : ∃ s,
    run (State.step sseChangeAuth) (start "x" 0) thereAndBack = some s ∧
    ∃ r ∈ s.replies, r.allowed = true ∧ ¬r.Sound sseChangeAuth s.verdicts := by
  refine ⟨_,rfl,_,List.mem_cons_self,rfl,fun h => ?_⟩
  exact absurd (h.context "y" (by decide)) (by decide)

end Radar.ChangeAuth
