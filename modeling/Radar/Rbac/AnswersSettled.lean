import Mathlib.Tactic.SplitIfs
import Radar.Rbac.CapabilityCaches

/-!
# What a cached capability was granted by

A cached answer is of the cluster of the last completed switch as long as no
call stores what another cluster granted, or stores into a cache that the
running switch has begun to clear.
-/

set_option autoImplicit false

namespace Radar.Rbac

open Radar.Auth Radar.Run

/-- The review that `g` answers decides `cap` in an answer to `q`. -/
structure Supports (cfg : Config) (q : Query) (cap : Capability) (g : Grant) : Prop where
  check : g.check ∈ q.checks cfg
  result : g.check.result = cap
  subject : SameSubject g.subject q.subject
  ns : ∀ ns, q.namespace? = some ns → g.ns = ns

/-- Every capability that a cache answered with after a switch was granted by that switch's
cluster. -/
def AnswersSettled (s : Server) : Prop :=
  ∀ a ∈ s.answers, ∀ cluster, a.settled = some cluster → ∀ cap, a.caps cap = true →
    cap ≠ .localTerminal → ∃ g ∈ a.grants, Supports s.cfg a.query cap g ∧ g.cluster = cluster

/-- The keys that the running switch may still find in a cache it has begun to clear. -/
def Phase.remaining : Phase → Cache → Option (List String)
  | .idle, _ => none
  | .cancelled _, _ => none
  | .swapped _, _ => none
  | .clearedGlobal _, .cachedCapabilities => some []
  | .clearedGlobal _, _ => none
  | .clearedNamespaces _, .cachedCapabilities => some []
  | .clearedNamespaces _, .nsCapCache => some []
  | .clearedNamespaces _, _ => none
  | .rangingUsers _ remaining, .userCapabilitiesCache => some remaining
  | .rangingUsers _ _, .userNamespaceCapabilitiesCache => none
  | .rangingUsers _ _, _ => some []
  | .clearedUsers _, .userNamespaceCapabilitiesCache => none
  | .clearedUsers _, _ => some []
  | .rangingUserNamespaces _ remaining, .userNamespaceCapabilitiesCache => some remaining
  | .rangingUserNamespaces _ _, _ => some []

/-- Every grant that is reported is of the cluster of the last completed switch. -/
def FromSettled (cfg : Config) (settled : Option String) (q : Query) (grants : List Grant) : Prop :=
  ∀ cluster, settled = some cluster → ∀ g ∈ grants, q.forcedOff cfg g.check.result = false →
    g.cluster = cluster

/-- A namespace asked for on behalf of a user has no NUL byte. -/
def Query.Clean : Query → Prop
  | .namespaceCapabilitiesForUser _ ns => nul ∉ ns.toList
  | _ => True

/-- A call stores only what the cluster of the last completed switch granted, and not into a cache
that the running switch has begun to clear. -/
def StoresSettled (s : Server) : Act → Prop
  | .lookup _ q => q.Clean
  | .store i =>
    match s.threads i with
    | .checking c =>
      FromSettled s.cfg s.settled c.query c.grants ∧ s.phase.remaining c.query.cache = none
    | _ => True
  | _ => True

instance : ∀ q : Query, Decidable q.Clean
  | .capabilities => isTrue trivial
  | .namespaceCapabilities _ => isTrue trivial
  | .capabilitiesForUser _ => isTrue trivial
  | .namespaceCapabilitiesForUser _ ns => inferInstanceAs (Decidable (nul ∉ ns.toList))

instance (cfg : Config) (settled : Option String) (q : Query) (grants : List Grant) :
    Decidable (FromSettled cfg settled q grants) :=
  match settled with
  | none => isTrue fun _ hc => nomatch hc
  | some cluster =>
    decidable_of_iff (∀ g ∈ grants, q.forcedOff cfg g.check.result = false → g.cluster = cluster)
      ⟨fun h _ hc => Option.some.inj hc ▸ h,fun h => h cluster rfl⟩

instance (s : Server) : ∀ a : Act, Decidable (StoresSettled s a)
  | .lookup _ q => inferInstanceAs (Decidable q.Clean)
  | .store i =>
    match h : s.threads i with
    | .checking c =>
      decidable_of_iff (FromSettled s.cfg s.settled c.query c.grants ∧
        s.phase.remaining c.query.cache = none) (by simp [StoresSettled, h])
    | .idle => isTrue (by simp [StoresSettled, h])
    | .missed _ => isTrue (by simp [StoresSettled, h])
    | .connected _ _ => isTrue (by simp [StoresSettled, h])
    | .returned => isTrue (by simp [StoresSettled, h])
  | .tick _ => isTrue trivial
  | .getClient _ _ => isTrue trivial
  | .newOperationContext _ _ => isTrue trivial
  | .ask _ _ => isTrue trivial
  | .answer _ _ _ => isTrue trivial
  | .fallback _ _ _ => isTrue trivial
  | .cancelOngoingOperations _ => isTrue trivial
  | .switchContext => isTrue trivial
  | .invalidate => isTrue trivial
  | .delete _ => isTrue trivial

structure Entry.Ok (cfg : Config) (settled : Option String) (e : Entry) : Prop where
  clean : e.query.Clean
  caps : ∀ cap, e.caps cap = true → cap ≠ .localTerminal →
    e.query.forcedOff cfg cap = false ∧ ∃ g ∈ e.grants, Supports cfg e.query cap g
  settled : FromSettled cfg settled e.query e.grants

/-- The fallback namespace is only asked for where the call has none of its own. -/
structure Call.Ok (cfg : Config) (c : Call) : Prop where
  clean : c.query.Clean
  result : ∀ cap, c.result cap = true → ∃ g ∈ c.grants, Supports cfg c.query cap g
  refused : ∀ k apiErr, c.progress k = .refused apiErr → c.query.namespace? = none
  askedAgain : ∀ k cluster ns apiErr, c.progress k = .askedAgain cluster ns apiErr →
    c.query.namespace? = none

def Thread.Ok (cfg : Config) : Thread → Prop
  | .missed q => q.Clean
  | .connected q _ => q.Clean
  | .checking c => c.Ok cfg
  | _ => True

structure SettledInv (s : Server) : Prop where
  entries : ∀ c key e, s.load c key = some e →
    e.query.cache = c ∧ e.query.key = key ∧ e.Ok s.cfg s.settled
  threads : ∀ i, (s.threads i).Ok s.cfg
  clearing : ∀ c remaining, s.phase.remaining c = some remaining → ∀ key e,
    s.load c key = some e → key ∈ remaining
  answers : AnswersSettled s

section Queries

theorem SameSubject.refl (u : Subject) : SameSubject u u := by
  cases u with
  | self => trivial
  | user u => exact SameIdentity.refl u

theorem SameSubject.trans {u v w : Subject} (h : SameSubject u v) (h' : SameSubject v w) :
    SameSubject u w := by
  cases u with
  | self =>
    cases v with
    | self => exact h'
    | user v => exact h.elim
  | user u =>
    cases v with
    | self => exact h.elim
    | user v =>
      cases w with
      | self => exact h'.elim
      | user w => exact SameIdentity.trans h h'

/-- A cache's key tells the calls of different identities and namespaces apart. -/
theorem same_of_key {q r : Query} (hq : q.Clean) (hr : r.Clean) (hc : q.cache = r.cache)
    (hk : q.key = r.key) : SameSubject q.subject r.subject ∧ q.namespace? = r.namespace? := by
  cases q with
  | capabilities =>
    cases r with
    | capabilities => exact ⟨trivial,rfl⟩
    | _ => nomatch hc
  | namespaceCapabilities ns =>
    cases r with
    | namespaceCapabilities ns' => exact ⟨trivial,congrArg some hk⟩
    | _ => nomatch hc
  | capabilitiesForUser u =>
    cases r with
    | capabilitiesForUser v => exact ⟨(cacheKey_eq_iff u v).mp hk,rfl⟩
    | _ => nomatch hc
  | namespaceCapabilitiesForUser u ns =>
    cases r with
    | namespaceCapabilitiesForUser v ns' =>
      obtain ⟨hkey,hns⟩ := Join.last_part_inj hq hr hk
      exact ⟨(cacheKey_eq_iff u v).mp hkey,congrArg some hns⟩
    | _ => nomatch hc

theorem Supports.of_same {cfg : Config} {q r : Query} {cap : Capability} {g : Grant}
    (h : Supports cfg q cap g) (hs : SameSubject q.subject r.subject)
    (hn : q.namespace? = r.namespace?) : Supports cfg r cap g where
  check := by
    have hcheck := h.check
    simp only [Query.checks, hn] at hcheck
    exact hcheck
  result := h.result
  subject := h.subject.trans hs
  ns ns hr := h.ns ns (hn.trans hr)

theorem namespaceChecks_fallback {cfg : Config} {check : Check}
    (h : check ∈ namespaceChecks cfg) : check.namespaceFallback = false := by
  have hall : (namespaceChecks cfg).all (fun check => !check.namespaceFallback) = true := by
    obtain ⟨_,helm,exec,_⟩ := cfg
    cases helm <;> cases exec <;> rfl
  simpa using List.all_eq_true.mp hall check h

end Queries

section Calls

variable {cfg : Config} {c : Call} {k : ℕ}

theorem setProgress_self (c : Call) (k : ℕ) (p : Progress) :
    (c.setProgress k p).progress k = p := by simp [Call.setProgress]

theorem setProgress_of_ne (c : Call) {j : ℕ} (p : Progress) (h : j ≠ k) :
    (c.setProgress k p).progress j = c.progress j := by simp [Call.setProgress, h]

theorem Call.Ok.setProgress (h : c.Ok cfg) {p : Progress}
    (hr : ∀ apiErr, p = .refused apiErr → c.query.namespace? = none)
    (ha : ∀ cluster ns apiErr, p = .askedAgain cluster ns apiErr → c.query.namespace? = none) :
    (c.setProgress k p).Ok cfg where
  clean := h.clean
  result := h.result
  refused := by
    intro j apiErr hj
    rcases eq_or_ne j k with rfl | hjk
    · exact hr apiErr ((setProgress_self c j p).symm.trans hj)
    · exact h.refused j apiErr ((setProgress_of_ne c p hjk).symm.trans hj)
  askedAgain := by
    intro j cluster ns apiErr hj
    rcases eq_or_ne j k with rfl | hjk
    · exact ha cluster ns apiErr ((setProgress_self c j p).symm.trans hj)
    · exact h.askedAgain j cluster ns apiErr
        ((setProgress_of_ne c p hjk).symm.trans hj)

theorem Call.Ok.finish (h : c.Ok cfg) : (c.setProgress k .finished).Ok cfg :=
  h.setProgress (fun _ hp => nomatch hp) (fun _ _ _ hp => nomatch hp)

theorem Call.Ok.grant (h : c.Ok cfg) {g : Grant}
    (hg : Supports cfg c.query g.check.result g) : (c.grant k g).Ok cfg where
  clean := h.clean
  result := by
    intro cap hcap
    rcases eq_or_ne cap g.check.result with rfl | hne
    · exact ⟨g,List.mem_cons_self,hg⟩
    · obtain ⟨g',hg',hs⟩ := h.result cap ((Function.update_of_ne hne _ _).symm.trans hcap)
      exact ⟨g',List.mem_cons_of_mem g hg',hs⟩
  refused := (h.finish (k := k)).refused
  askedAgain := (h.finish (k := k)).askedAgain

theorem Call.Ok.deny (h : c.Ok cfg) (check : Check) (apiErr : Bool) :
    (c.deny k check apiErr).Ok cfg := by
  have hfinish : (c.setProgress k .finished).Ok cfg := h.finish
  cases apiErr with
  | false => exact hfinish
  | true => exact ⟨h.clean,h.result,hfinish.refused,hfinish.askedAgain⟩

theorem Call.Ok.refuse (h : c.Ok cfg) {check : Check} (hcheck : check ∈ c.query.checks cfg)
    (apiErr : Bool) : (c.refuse k check apiErr).Ok cfg := by
  unfold Call.refuse
  split_ifs with hf
  · apply h.setProgress
    · intro _ _
      by_contra hns
      obtain ⟨ns,hns⟩ := Option.ne_none_iff_exists'.mp hns
      rw [Query.checks, hns] at hcheck
      rw [namespaceChecks_fallback hcheck] at hf
      cases hf
    · exact fun _ _ _ hp => by cases hp
  · exact h.deny check apiErr

/-- Each step of a check keeps what is known of its call. -/
theorem review_ok {s : Server} {c c' : Call} {k : ℕ} {check : Check} {a : Act} (h : c.Ok s.cfg)
    (hcheck : check ∈ c.query.checks s.cfg) (ht : s.review c k check a = some c') :
    c'.Ok s.cfg := by
  cases a with
  | ask _ _ =>
    cases hp : c.progress k with
    | waiting =>
      cases hasks : s.asks c with
      | none =>
        simp only [Server.review, hp, hasks] at ht
        obtain rfl := Option.some.inj ht
        exact h.refuse hcheck true
      | some cluster =>
        simp only [Server.review, hp, hasks] at ht
        obtain rfl := Option.some.inj ht
        exact h.setProgress (fun _ hp => nomatch hp) (fun _ _ _ hp => nomatch hp)
    | _ => simp [Server.review, hp] at ht
  | answer _ _ o =>
    cases hp : c.progress k with
    | asked cluster =>
      simp only [Server.review, hp] at ht
      cases o with
      | granted =>
        obtain rfl := Option.some.inj ht
        exact h.grant ⟨hcheck,rfl,SameSubject.refl _,fun ns hns => by simp [hns]⟩
      | denied =>
        obtain rfl := Option.some.inj ht
        exact h.refuse hcheck false
      | failed =>
        obtain rfl := Option.some.inj ht
        exact h.refuse hcheck true
    | askedAgain cluster ns apiErr =>
      have hnone := h.askedAgain k cluster ns apiErr hp
      simp only [Server.review, hp] at ht
      cases o with
      | granted =>
        obtain rfl := Option.some.inj ht
        exact h.grant ⟨hcheck,rfl,SameSubject.refl _,fun ns hns => by simp [hnone] at hns⟩
      | denied =>
        obtain rfl := Option.some.inj ht
        exact h.deny check apiErr
      | failed =>
        obtain rfl := Option.some.inj ht
        exact h.deny check true
    | _ => simp [Server.review, hp] at ht
  | fallback _ _ effectiveNamespace =>
    cases hp : c.progress k with
    | refused apiErr =>
      have hnone := h.refused k apiErr hp
      simp only [Server.review, hp] at ht
      split_ifs at ht
      · obtain rfl := Option.some.inj ht
        exact h.deny check apiErr
      · cases hasks : s.asks c with
        | none =>
          simp only [hasks] at ht
          obtain rfl := Option.some.inj ht
          exact h.deny check true
        | some cluster =>
          simp only [hasks] at ht
          obtain rfl := Option.some.inj ht
          exact h.setProgress (fun _ hp => nomatch hp) (fun _ _ _ _ => hnone)
    | _ => simp [Server.review, hp] at ht
  | _ => nomatch ht

/-- What a finished call stores is what its grants say. -/
theorem Call.Ok.reported (h : c.Ok cfg) {cap : Capability} (hcap : c.reported cfg cap = true)
    (hlocal : cap ≠ .localTerminal) :
    c.query.forcedOff cfg cap = false ∧ ∃ g ∈ c.grants, Supports cfg c.query cap g := by
  have hrest : !c.query.forcedOff cfg cap && c.result cap := by
    unfold Call.reported at hcap
    split at hcap
    · exact absurd rfl hlocal
    · exact hcap
  rw [Bool.and_eq_true, Bool.not_eq_true'] at hrest
  exact ⟨hrest.1,h.result cap hrest.2⟩

end Calls

section Steps

variable {s t : Server}

theorem SettledInv.call (h : SettledInv s) {i : ℕ} {c : Call} (hi : s.threads i = .checking c) :
    c.Ok s.cfg := by
  have hc := h.threads i
  rw [hi] at hc
  exact hc

theorem SettledInv.setThread (h : SettledInv s) (i : ℕ) {r : Thread} (hr : r.Ok s.cfg) :
    SettledInv (s.setThread i r) where
  entries := h.entries
  threads := by
    intro j
    rcases eq_or_ne j i with rfl | hj
    · have hself : (s.setThread j r).threads j = r := by simp [Server.setThread]
      rw [hself]
      exact hr
    · have hother : (s.setThread i r).threads j = s.threads j := by simp [Server.setThread, hj]
      rw [hother]
      exact h.threads j
  clearing := h.clearing
  answers := h.answers

/-- A step that at most forgets entries. The last completed switch changes only when none is
left. -/
theorem SettledInv.forget (h : SettledInv s) (hcfg : t.cfg = s.cfg) (hthreads : t.threads = s.threads)
    (hanswers : t.answers = s.answers)
    (hload : ∀ c key e, t.load c key = some e → s.load c key = some e ∧ t.settled = s.settled)
    (hclearing : ∀ c remaining, t.phase.remaining c = some remaining → ∀ key e,
      t.load c key = some e → key ∈ remaining) : SettledInv t where
  entries := by
    intro c key e he
    obtain ⟨hold,hsettled⟩ := hload c key e he
    obtain ⟨hc,hkey,hok⟩ := h.entries c key e hold
    refine ⟨hc,hkey,hok.clean,?_,?_⟩
    · rw [hcfg]
      exact hok.caps
    · intro cluster ht
      rw [hcfg]
      exact hok.settled cluster (hsettled.symm.trans ht)
  threads i := by
    rw [hcfg, hthreads]
    exact h.threads i
  clearing := hclearing
  answers := by
    intro a ha
    rw [hcfg]
    exact h.answers a (hanswers ▸ ha)

/-- A hit is an answer to the same identity. -/
theorem SettledInv.hit (h : SettledInv s) {q : Query} {e : Entry} (hq : q.Clean)
    (he : s.load q.cache q.key = some e) :
    SettledInv { s with answers := ⟨q,e.caps,e.errors,e.grants,s.settled⟩::s.answers } where
  entries := h.entries
  threads := h.threads
  clearing := h.clearing
  answers := by
    intro a ha cluster hcluster cap hcap hlocal
    obtain rfl | ha := List.mem_cons.mp ha
    · obtain ⟨hc,hkey,hok⟩ := h.entries q.cache q.key e he
      obtain ⟨hsame,hns⟩ := same_of_key hok.clean hq hc hkey
      obtain ⟨hon,g,hg,hs⟩ := hok.caps cap hcap hlocal
      refine ⟨g,hg,hs.of_same hsame hns,hok.settled cluster hcluster g hg ?_⟩
      rw [hs.result]
      exact hon
    · exact h.answers a ha cluster hcluster cap hcap hlocal

theorem load_storeEntry {e e' : Entry} {c : Cache} {key : String}
    (h : (s.storeEntry e).load c key = some e') :
    (c = e.query.cache ∧ key = e.query.key ∧ e' = e) ∨ s.load c key = some e' := by
  unfold Server.load Server.storeEntry Server.setCache at h
  rcases eq_or_ne c e.query.cache with rfl | hc
  · simp only [Function.update_self] at h
    rcases eq_or_ne key e.query.key with rfl | hkey
    · rw [AList.lookup_insert] at h
      exact .inl ⟨rfl,rfl,(Option.some.inj h).symm⟩
    · rw [AList.lookup_insert_ne hkey] at h
      exact .inr h
  · simp only [Function.update_of_ne hc] at h
    exact .inr h

theorem SettledInv.storeEntry (h : SettledInv s) {e : Entry} (he : e.Ok s.cfg s.settled)
    (hphase : s.phase.remaining e.query.cache = none) : SettledInv (s.storeEntry e) where
  entries := by
    intro c key e' hload
    obtain ⟨rfl,rfl,rfl⟩ | hold := load_storeEntry hload
    · exact ⟨rfl,rfl,he.clean,he.caps,he.settled⟩
    · obtain ⟨hc,hkey,hok⟩ := h.entries c key e' hold
      exact ⟨hc,hkey,hok.clean,hok.caps,hok.settled⟩
  threads := h.threads
  clearing := by
    intro c remaining hc key e' hload
    obtain ⟨rfl,-,-⟩ | hold := load_storeEntry hload
    · exact absurd (hphase.symm.trans hc) (by simp)
    · exact h.clearing c remaining hc key e' hold
  answers := h.answers

theorem load_clear {c c' : Cache} {key : String} {e : Entry}
    (h : (s.setCache c ∅).load c' key = some e) : c' ≠ c ∧ s.load c' key = some e := by
  unfold Server.load Server.setCache at h
  rcases eq_or_ne c' c with rfl | hc
  · simp only [Function.update_self, AList.lookup_empty] at h
    cases h
  · simp only [Function.update_of_ne hc] at h
    exact ⟨hc,h⟩

theorem load_delete {c c' : Cache} {key key' : String} {e : Entry}
    (h : (s.setCache c ((s.caches c).erase key)).load c' key' = some e) :
    (c' = c → key' ≠ key) ∧ s.load c' key' = some e := by
  unfold Server.load Server.setCache at h
  rcases eq_or_ne c' c with rfl | hc
  · simp only [Function.update_self] at h
    rcases eq_or_ne key' key with rfl | hkey
    · rw [AList.lookup_erase] at h
      cases h
    · rw [AList.lookup_erase_ne hkey] at h
      exact ⟨fun _ => hkey,h⟩
  · simp only [Function.update_of_ne hc] at h
    exact ⟨fun heq => absurd heq hc,h⟩

theorem mem_keys_of_load {c : Cache} {key : String} {e : Entry} (h : s.load c key = some e) :
    key ∈ (s.caches c).keys := by
  have hsome : ((s.caches c).lookup key).isSome = true := by
    rw [show (s.caches c).lookup key = some e from h]
    rfl
  exact AList.lookup_isSome.mp hsome

/-- Once the last cache has been gone through no entry is left. -/
theorem SettledInv.emptied (h : SettledInv s) {target : String}
    (hi : s.phase = .rangingUserNamespaces target []) (c : Cache) (key : String) :
    s.load c key = none := by
  by_contra hne
  obtain ⟨e,he⟩ := Option.ne_none_iff_exists'.mp hne
  have hkey : key ∈ [] := by
    cases c with
    | cachedCapabilities => exact h.clearing .cachedCapabilities [] (by rw [hi]; rfl) key e he
    | nsCapCache => exact h.clearing .nsCapCache [] (by rw [hi]; rfl) key e he
    | userCapabilitiesCache =>
      exact h.clearing .userCapabilitiesCache [] (by rw [hi]; rfl) key e he
    | userNamespaceCapabilitiesCache =>
      exact h.clearing .userNamespaceCapabilitiesCache [] (by rw [hi]; rfl) key e he
  cases hkey

theorem invalidate_inv (h : SettledInv s) (ht : s.invalidateCapabilitiesCache = some t) :
    SettledInv t := by
  cases hi : s.phase with
  | swapped target =>
    simp only [Server.invalidateCapabilitiesCache, hi] at ht
    obtain rfl := Option.some.inj ht
    refine h.forget rfl rfl rfl (fun c key e he => ⟨(load_clear he).2,rfl⟩) ?_
    intro c remaining hc key e he
    cases c with
    | cachedCapabilities => exact absurd rfl (load_clear he).1
    | _ => cases hc
  | clearedGlobal target =>
    simp only [Server.invalidateCapabilitiesCache, hi] at ht
    obtain rfl := Option.some.inj ht
    refine h.forget rfl rfl rfl (fun c key e he => ⟨(load_clear he).2,rfl⟩) ?_
    intro c remaining hc key e he
    cases c with
    | cachedCapabilities =>
      exact h.clearing .cachedCapabilities remaining (by rw [hi]; exact hc) key e (load_clear he).2
    | nsCapCache => exact absurd rfl (load_clear he).1
    | _ => cases hc
  | clearedNamespaces target =>
    simp only [Server.invalidateCapabilitiesCache, hi] at ht
    obtain rfl := Option.some.inj ht
    refine h.forget rfl rfl rfl (fun c key e he => ⟨he,rfl⟩) ?_
    intro c remaining hc key e he
    cases c with
    | userCapabilitiesCache => exact Option.some.inj hc ▸ mem_keys_of_load he
    | userNamespaceCapabilitiesCache => cases hc
    | _ => exact h.clearing _ remaining (by rw [hi]; exact hc) key e he
  | rangingUsers target left =>
    cases left with
    | nil =>
      simp only [Server.invalidateCapabilitiesCache, hi] at ht
      obtain rfl := Option.some.inj ht
      refine h.forget rfl rfl rfl (fun c key e he => ⟨he,rfl⟩) ?_
      intro c remaining hc key e he
      cases c with
      | userNamespaceCapabilitiesCache => cases hc
      | _ => exact h.clearing _ remaining (by rw [hi]; exact hc) key e he
    | cons key left => simp [Server.invalidateCapabilitiesCache, hi] at ht
  | clearedUsers target =>
    simp only [Server.invalidateCapabilitiesCache, hi] at ht
    obtain rfl := Option.some.inj ht
    refine h.forget rfl rfl rfl (fun c key e he => ⟨he,rfl⟩) ?_
    intro c remaining hc key e he
    cases c with
    | userNamespaceCapabilitiesCache => exact Option.some.inj hc ▸ mem_keys_of_load he
    | _ => exact h.clearing _ remaining (by rw [hi]; exact hc) key e he
  | rangingUserNamespaces target left =>
    cases left with
    | nil =>
      simp only [Server.invalidateCapabilitiesCache, hi] at ht
      obtain rfl := Option.some.inj ht
      have hnone := h.emptied hi
      refine h.forget rfl rfl rfl (fun c key e he => ?_) (fun _ _ hc => by cases hc)
      exact absurd ((hnone c key).symm.trans he) (by simp)
    | cons key left => simp [Server.invalidateCapabilitiesCache, hi] at ht
  | _ => simp [Server.invalidateCapabilitiesCache, hi] at ht

theorem delete_inv (h : SettledInv s) {key : String} (ht : s.rangeDelete key = some t) :
    SettledInv t := by
  cases hi : s.phase with
  | rangingUsers target left =>
    simp only [Server.rangeDelete, hi] at ht
    split_ifs at ht
    obtain rfl := Option.some.inj ht
    refine h.forget rfl rfl rfl (fun c key e he => ⟨(load_delete he).2,rfl⟩) ?_
    intro c remaining hc key' e he
    obtain ⟨hne,hold⟩ := load_delete he
    cases c with
    | userCapabilitiesCache =>
      have hmem : key' ∈ left := h.clearing .userCapabilitiesCache left (by rw [hi]; rfl) key' e hold
      rw [← Option.some.inj hc]
      exact (List.mem_erase_of_ne (hne rfl)).mpr hmem
    | userNamespaceCapabilitiesCache => nomatch hc
    | _ => exact h.clearing _ remaining (by rw [hi]; exact hc) key' e hold
  | rangingUserNamespaces target left =>
    simp only [Server.rangeDelete, hi] at ht
    split_ifs at ht
    obtain rfl := Option.some.inj ht
    refine h.forget rfl rfl rfl (fun c key e he => ⟨(load_delete he).2,rfl⟩) ?_
    intro c remaining hc key' e he
    obtain ⟨hne,hold⟩ := load_delete he
    cases c with
    | userNamespaceCapabilitiesCache =>
      have hmem : key' ∈ left :=
        h.clearing .userNamespaceCapabilitiesCache left (by rw [hi]; rfl) key' e hold
      rw [← Option.some.inj hc]
      exact (List.mem_erase_of_ne (hne rfl)).mpr hmem
    | _ => exact h.clearing _ remaining (by rw [hi]; exact hc) key' e hold
  | _ => simp [Server.rangeDelete, hi] at ht

theorem check_inv (h : SettledInv s) {i k : ℕ} {a : Act} (ht : s.check i k a = some t) :
    SettledInv t := by
  cases hi : s.threads i with
  | checking c =>
    cases hk : (c.query.checks s.cfg)[k]? with
    | none => simp [Server.check, hi, hk] at ht
    | some check =>
      simp only [Server.check, hi, hk] at ht
      obtain ⟨c',hc,rfl⟩ := Option.map_eq_some_iff.mp ht
      exact h.setThread i (review_ok (h.call hi) (List.mem_of_getElem? hk) hc)
  | _ => simp [Server.check, hi] at ht

theorem lookup_inv (h : SettledInv s) {i : ℕ} {q : Query} (hq : q.Clean)
    (ht : s.step (.lookup i q) = some t) : SettledInv t := by
  cases hi : s.threads i with
  | idle =>
    simp only [Server.step, hi] at ht
    split_ifs at ht
    · obtain rfl := Option.some.inj ht
      exact h.setThread i trivial
    · cases he : s.load q.cache q.key with
      | none =>
        simp only [he] at ht
        obtain rfl := Option.some.inj ht
        exact h.setThread i hq
      | some e =>
        simp only [he] at ht
        split_ifs at ht
        · obtain rfl := Option.some.inj ht
          exact (h.setThread i (r := .returned) trivial).hit hq he
        · obtain rfl := Option.some.inj ht
          exact h.setThread i hq
  | _ => simp [Server.step, hi] at ht

theorem step_inv (h : SettledInv s) {a : Act} (hok : StoresSettled s a) (ht : s.step a = some t) :
    SettledInv t := by
  cases a with
  | tick elapsed =>
    obtain rfl := Option.some.inj ht
    exact h.forget rfl rfl rfl (fun _ _ _ he => ⟨he,rfl⟩) h.clearing
  | lookup i q => exact lookup_inv h hok ht
  | getClient i disconnected =>
    cases hi : s.threads i with
    | missed q =>
      have hq : (Thread.missed q).Ok s.cfg := hi ▸ h.threads i
      cases hc : s.client with
      | none =>
        simp only [Server.step, hi, hc] at ht
        obtain rfl := Option.some.inj ht
        exact h.setThread i trivial
      | some client =>
        simp only [Server.step, hi, hc] at ht
        split_ifs at ht
        · obtain rfl := Option.some.inj ht
          exact h.setThread i trivial
        · obtain rfl := Option.some.inj ht
          exact h.setThread i hq
    | _ => simp [Server.step, hi] at ht
  | newOperationContext i effectiveNamespace =>
    cases hi : s.threads i with
    | connected q client =>
      have hq : (Thread.connected q client).Ok s.cfg := hi ▸ h.threads i
      simp only [Server.step, hi] at ht
      obtain rfl := Option.some.inj ht
      exact h.setThread i ⟨hq,fun _ hcap => (nomatch hcap),fun _ _ hp => (nomatch hp),
        fun _ _ _ _ hp => (nomatch hp)⟩
    | _ => simp [Server.step, hi] at ht
  | ask i k => exact check_inv h ht
  | answer i k o => exact check_inv h ht
  | fallback i k effectiveNamespace => exact check_inv h ht
  | store i =>
    cases hi : s.threads i with
    | checking c =>
      have hc := h.call hi
      simp only [StoresSettled, hi] at hok
      simp only [Server.step, hi] at ht
      split_ifs at ht
      obtain rfl := Option.some.inj ht
      have hentry : (c.entry s.cfg s.now).Ok s.cfg s.settled :=
        ⟨hc.clean,fun _ hcap hlocal => hc.reported hcap hlocal,hok.1⟩
      exact (h.storeEntry hentry hok.2).setThread i trivial
    | _ => simp [Server.step, hi] at ht
  | cancelOngoingOperations target =>
    cases hi : s.phase with
    | idle =>
      simp only [Server.step, hi] at ht
      split_ifs at ht
      obtain rfl := Option.some.inj ht
      exact h.forget rfl rfl rfl (fun _ _ _ he => ⟨he,rfl⟩) (fun _ _ hc => nomatch hc)
    | _ => simp [Server.step, hi] at ht
  | switchContext =>
    cases hi : s.phase with
    | cancelled target =>
      simp only [Server.step, hi] at ht
      obtain rfl := Option.some.inj ht
      exact h.forget rfl rfl rfl (fun _ _ _ he => ⟨he,rfl⟩) (fun _ _ hc => nomatch hc)
    | _ => simp [Server.step, hi] at ht
  | invalidate => exact invalidate_inv h ht
  | delete key => exact delete_inv h ht

theorem started_inv (cfg : Config) (now : ℕ) (client : Option String) :
    SettledInv (started cfg now client) where
  entries _ _ _ he := nomatch he
  threads _ := trivial
  clearing _ _ hc := nomatch hc
  answers _ ha := nomatch ha

/-- No cached verdict outlives a switch in a run whose calls store what the last switch's cluster
granted. -/
theorem answers_settled {cfg : Config} {now : ℕ} {client : Option String} {as : List Act}
    (hm : Meets Server.step StoresSettled (started cfg now client) as)
    (hr : run Server.step (started cfg now client) as = some s) : AnswersSettled s :=
  (meets_invariant (fun _ _ _ h hok ht => step_inv h hok ht) (started_inv cfg now client) hm
    hr).answers

def switchTo (cluster : String) : List Act :=
  [Act.cancelOngoingOperations cluster,.switchContext]++List.replicate 6 Act.invalidate

/-- A namespace-scoped call up to its last review, of which only the one for exec says yes. -/
def reviewing (i : ℕ) (q : Query) : List Act :=
  [Act.lookup i q,.getClient i false,.newOperationContext i ""]++(List.range 8).map (Act.ask i)
    ++[Act.answer i 0 .granted]++(List.range 7).map (fun k => Act.answer i (k+1) .denied)

def prod : Query := .namespaceCapabilities "prod"

/-- A call after a switch to `y`, and another one that its cache answers. -/
def quiet : List Act := switchTo "y"++reviewing 0 prod++[Act.store 0,.lookup 1 prod]

theorem answers_settled_quiet : ∃ s,
    run Server.step (started {} 0 (some "x")) quiet = some s ∧ AnswersSettled s := by
  have hr : ∃ s, run Server.step (started {} 0 (some "x")) quiet = some s := ⟨_,rfl⟩
  obtain ⟨s,hs⟩ := hr
  exact ⟨s,hs,answers_settled (by decide +kernel) hs⟩

/-- The call asked `x`, and stores after the caches were cleared for `y`. -/
def straddling : List Act := reviewing 0 prod++switchTo "y"++[Act.store 0,.lookup 1 prod]

def member : User := ⟨"u",["g"],by decide,by decide⟩

def operator : User := ⟨"u",["g","h"],by decide,by decide⟩

/-- The member's namespace ends the key as the operator's group and namespace do. -/
def collided : List Act :=
  switchTo "y"++reviewing 0 (.namespaceCapabilitiesForUser member "h\x00prod")
    ++[Act.store 0,.lookup 1 (.namespaceCapabilitiesForUser operator "prod")]

theorem answers_not_settled :
    (∃ s, run Server.step (started {} 0 (some "x")) straddling = some s ∧ ¬AnswersSettled s) ∧
    ∃ s, run Server.step (started {} 0 (some "x")) collided = some s ∧ ¬AnswersSettled s := by
  constructor
  · refine ⟨_,rfl,fun h => ?_⟩
    obtain ⟨g,hg,-,hc⟩ := h _ List.mem_cons_self "y" rfl .exec rfl (by decide)
    obtain rfl := List.mem_singleton.mp hg
    exact absurd hc (by decide)
  · refine ⟨_,rfl,fun h => ?_⟩
    obtain ⟨g,hg,hs,-⟩ := h _ List.mem_cons_self "y" rfl .exec rfl (by decide)
    obtain rfl := List.mem_singleton.mp hg
    exact absurd ((hs.subject.2 "h" (by decide)).mpr (by decide)) (by decide)

end Steps

end Radar.Rbac
