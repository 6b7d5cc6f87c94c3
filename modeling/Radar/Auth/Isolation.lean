import Mathlib.Tactic.SplitIfs
import Radar.Auth.Requests

/-!
# Isolation of cached verdicts

Every entry on the heap is stamped with the cluster its reviews ran against,
and keeps that stamp while verdicts are added to it, as long as each result
is stored under the context of the client that computed it. Looking an entry
up then compares the stamp with the active context and the key with the
principal.
-/

set_option autoImplicit false

namespace Radar.Auth

open Radar.Run

/-- Everything in the entry was computed for the cluster it is stamped with. -/
structure Stamped (pc : PermissionCache) (now : Time) (perms : UserPermissions) : Prop where
  discovery : perms.discovery.cluster = perms.contextName
  expires : perms.expiresAt = perms.storedAt+pc.ttl
  stored : perms.storedAt ≤ now
  verdicts : ∀ k d, perms.canI k = some d →
    d.review.cluster = perms.contextName ∧ SameIdentity d.review.user perms.discovery.user

theorem Stamped.of_ttl {pc : PermissionCache} {now : Time} {perms : UserPermissions}
    (h : Stamped pc now perms) (pc' : PermissionCache) (httl : pc'.ttl = pc.ttl) (later : Time)
    (hnow : now ≤ later) : Stamped pc' later perms where
  discovery := h.discovery
  expires := by rw [httl, h.expires]
  stored := le_trans h.stored hnow
  verdicts := h.verdicts

/-- The request still holds an entry it read. -/
def Holds (r : Request) (user : User) (ref : ℕ) : Prop :=
  match r with
  | .undecided u _ perms => u = user ∧ perms = some ref
  | .asking u _ perms _ => u = user ∧ perms = some ref
  | .asked u _ perms _ _ => u = user ∧ perms = some ref
  | _ => False

/-- The entry at `ref` belongs to the principal. -/
def Owns (heap : List UserPermissions) (user : User) (ref : ℕ) : Prop :=
  ∃ perms, heap[ref]? = some perms ∧ SameIdentity perms.discovery.user user

structure CacheInv (s : Server) : Prop where
  stamped : ∀ perms ∈ s.permCache.heap, Stamped s.permCache s.now perms
  keyed : ∀ k ref, s.permCache.cache k = some ref → ∃ perms, s.permCache.heap[ref]? = some perms ∧
    k = cacheKey perms.discovery.user.username perms.discovery.user.groups
  held : ∀ i user ref, Holds (s.requests i) user ref → Owns s.permCache.heap user ref

theorem get_spec {s : Server} {user : User} {ref : ℕ} (h : s.get user = some ref) :
    ∃ perms, s.permCache.cache (cacheKey user.username user.groups) = some ref ∧
      s.permCache.heap[ref]? = some perms ∧ s.now ≤ perms.expiresAt ∧
      perms.contextName = s.context := by
  obtain ⟨r,hcache,h⟩ := Option.bind_eq_some_iff.mp h
  obtain ⟨perms,hheap,h⟩ := Option.bind_eq_some_iff.mp h
  split_ifs at h with hexp hctx
  obtain rfl := Option.some.inj h
  exact ⟨perms,hcache,hheap,not_lt.mp hexp,not_not.mp hctx⟩

theorem get_owns {s : Server} (hinv : CacheInv s) {user : User} {ref : ℕ}
    (h : s.get user = some ref) : Owns s.permCache.heap user ref := by
  obtain ⟨perms,hcache,hheap,-,-⟩ := get_spec h
  obtain ⟨perms',hheap',hkey⟩ := hinv.keyed _ ref hcache
  obtain rfl : perms = perms' := Option.some.inj (hheap.symm.trans hheap')
  exact ⟨perms,hheap,((cacheKey_eq_iff _ _).mp hkey).symm⟩

/-- The invariant says what a read returns. -/
theorem isolated_of_inv {s : Server} (hinv : CacheInv s) : Isolated s := by
  intro user ref hget
  obtain ⟨perms,-,hheap,hexp,hctx⟩ := get_spec hget
  obtain ⟨perms',hheap',hid⟩ := get_owns hinv hget
  obtain rfl : perms = perms' := Option.some.inj (hheap.symm.trans hheap')
  have hst := hinv.stamped perms (List.mem_of_getElem? hheap)
  refine ⟨perms,hheap,⟨hst.discovery.trans hctx,hid⟩,?_,hst.stored,hst.expires ▸ hexp⟩
  intro k d hd
  have hv := hst.verdicts k d hd
  exact ⟨hv.1.trans hctx,hv.2.trans hid⟩

theorem started_inv (context : String) (now ttl : Time) : CacheInv (started context now ttl) where
  stamped := by simp [started, newPermissionCache]
  keyed := by simp [started, newPermissionCache]
  held := by simp [started, Holds]

/-- A request moves on without touching the cache; what it holds now it held before or has just
read. -/
theorem setRequest_inv {s : Server} (hinv : CacheInv s) (i : ℕ) (r : Request)
    (hr : ∀ user ref, Holds r user ref → Owns s.permCache.heap user ref) :
    CacheInv (s.setRequest i r) where
  stamped := hinv.stamped
  keyed := hinv.keyed
  held := by
    intro j user ref hh
    by_cases hj : j = i
    · subst hj
      simp only [Server.setRequest, Function.update_self] at hh
      exact hr user ref hh
    · simp only [Server.setRequest, Function.update_of_ne hj] at hh
      exact hinv.held j user ref hh

theorem owns_append {heap : List UserPermissions} {user : User} {ref : ℕ} (p : UserPermissions)
    (h : Owns heap user ref) : Owns (heap++[p]) user ref := by
  obtain ⟨perms,hheap,hid⟩ := h
  refine ⟨perms,?_,hid⟩
  rw [List.getElem?_append_left (List.getElem?_eq_some_iff.mp hheap).1]
  exact hheap

theorem set_inv {s : Server} (hinv : CacheInv s) (user : User) (allowed : Option (List String)) :
    CacheInv (s.setCache (s.permCache.set s.now s.context user.username user.groups allowed
      ⟨s.context,user⟩)) where
  stamped := by
    intro perms hmem
    cases List.mem_append.mp hmem with
    | inl hold =>
      have hst := hinv.stamped perms hold
      exact hst.of_ttl (s.permCache.set s.now s.context user.username user.groups allowed
        ⟨s.context,user⟩) rfl s.now (le_refl _)
    | inr hnew =>
      obtain rfl := List.mem_singleton.mp hnew
      exact ⟨rfl,rfl,le_refl _,fun k d hd => nomatch hd⟩
  keyed := by
    intro k ref hk
    simp only [Server.setCache, PermissionCache.set] at hk ⊢
    split_ifs at hk with hkey
    · obtain rfl := Option.some.inj hk
      exact ⟨_,by rw [List.getElem?_append_right (le_refl _), Nat.sub_self]; rfl,hkey⟩
    · obtain ⟨perms,hheap,hkey'⟩ := hinv.keyed k ref (Option.filter_eq_some_iff.mp hk).1
      refine ⟨perms,?_,hkey'⟩
      rw [List.getElem?_append_left (List.getElem?_eq_some_iff.mp hheap).1]
      exact hheap
  held i u ref hh := owns_append _ (hinv.held i u ref hh)

theorem getElem?_modify_decision (heap : List UserPermissions) (ref r : ℕ) (t : Attributes)
    (d : Decision) {perms : UserPermissions} (h : heap[r]? = some perms) :
    (heap.modify ref (PermissionCache.setDecision t d))[r]? =
      some (if r = ref then PermissionCache.setDecision t d perms else perms) := by
  rw [List.getElem?_modify, h]
  by_cases hr : ref = r <;> simp [hr, eq_comm]

theorem setDecision_discovery (t : Attributes) (d : Decision) (c : Prop) [Decidable c]
    (perms : UserPermissions) :
    (if c then PermissionCache.setDecision t d perms else perms).discovery = perms.discovery := by
  split_ifs <;> rfl

theorem setDecision_stamped {pc : PermissionCache} {now : Time} {perms : UserPermissions}
    (h : Stamped pc now perms) (t : Attributes) (d : Decision)
    (hcluster : d.review.cluster = perms.contextName)
    (hid : SameIdentity d.review.user perms.discovery.user) :
    Stamped pc now (PermissionCache.setDecision t d perms) where
  discovery := h.discovery
  expires := h.expires
  stored := h.stored
  verdicts := by
    intro k e he
    simp only [PermissionCache.setDecision] at he
    split_ifs at he with hk
    · obtain rfl := Option.some.inj he
      exact ⟨hcluster,hid⟩
    · exact h.verdicts k e he

theorem setCanI_inv {s : Server} (hinv : CacheInv s) {ref : ℕ} (t : Attributes)
    (d : Decision) {perms : UserPermissions} (hheap : s.permCache.heap[ref]? = some perms)
    (hcluster : d.review.cluster = perms.contextName)
    (hid : SameIdentity d.review.user perms.discovery.user) :
    CacheInv (s.setCache (s.permCache.setCanI ref t d)) where
  stamped := by
    intro p hmem
    obtain ⟨r,hr⟩ := List.mem_iff_getElem?.mp hmem
    cases hold : s.permCache.heap[r]? with
    | none => simp [Server.setCache, PermissionCache.setCanI, List.getElem?_modify, hold] at hr
    | some q =>
      have hst := hinv.stamped q (List.mem_of_getElem? hold)
      have hq := (getElem?_modify_decision s.permCache.heap ref r t d hold).symm.trans hr
      by_cases href : r = ref
      · subst href
        obtain rfl : perms = q := Option.some.inj (hheap.symm.trans hold)
        obtain rfl : PermissionCache.setDecision t d perms = p := by simpa using hq
        exact setDecision_stamped
          (hst.of_ttl (s.permCache.setCanI r t d) rfl s.now (le_refl _)) t d hcluster hid
      · obtain rfl : q = p := by simpa [href] using hq
        exact hst.of_ttl (s.permCache.setCanI ref t d) rfl s.now (le_refl _)
  keyed := by
    intro k r hk
    obtain ⟨p,hp,hkey⟩ := hinv.keyed k r hk
    refine ⟨_,getElem?_modify_decision s.permCache.heap ref r t d hp,?_⟩
    rw [setDecision_discovery]
    exact hkey
  held := by
    intro i u r hh
    obtain ⟨p,hp,hsame⟩ := hinv.held i u r hh
    refine ⟨_,getElem?_modify_decision s.permCache.heap ref r t d hp,?_⟩
    rw [setDecision_discovery]
    exact hsame

/-- A request that holds no entry adds nothing to keep. -/
theorem move_inv {s : Server} (hinv : CacheInv s) (i : ℕ) (r : Request)
    (hr : ∀ user ref, ¬Holds r user ref) : CacheInv (s.setRequest i r) :=
  setRequest_inv hinv i r fun user ref hh => absurd hh (hr user ref)

theorem filtered_holds (s : Server) (requested : Option (List String)) (ref : ℕ) (user : User)
    (r : ℕ) : ¬Holds (s.filtered requested ref) user r := by
  rw [Server.filtered]
  cases s.permCache.heap[ref]? <;> exact id

theorem get_namespaces_inv {s t : Server} (hinv : CacheInv s) {i : ℕ} {user : User}
    {requested : Option (List String)} (ht : step s (.getNamespaces i user requested) = some t) :
    CacheInv t := by
  simp only [step] at ht
  split at ht
  · split at ht
    · obtain rfl := Option.some.inj ht
      exact move_inv hinv i _ (filtered_holds s requested _)
    · obtain rfl := Option.some.inj ht
      exact move_inv hinv i _ fun _ _ => id
  · cases ht

theorem can_read_inv {s t : Server} (hinv : CacheInv s) {i : ℕ} {user : User} {a : Attributes}
    (ht : step s (.canRead i user a) = some t) : CacheInv t := by
  simp only [step] at ht
  split at ht
  · cases hget : s.get user with
    | none =>
      obtain rfl := Option.some.inj (by simpa [hget] using ht)
      exact move_inv hinv i _ fun _ _ hh => by cases hh.2
    | some ref =>
      simp only [hget] at ht
      split at ht
      · obtain rfl := Option.some.inj ht
        exact move_inv hinv i _ fun _ _ => id
      · obtain rfl := Option.some.inj ht
        apply setRequest_inv hinv
        intro u r hh
        obtain ⟨rfl,hr⟩ := hh
        obtain rfl := Option.some.inj hr
        exact get_owns hinv hget
  · cases ht

theorem read_client_inv {s t : Server} (hinv : CacheInv s) {i : ℕ} {ok : Bool}
    (ht : step s (.readClient i ok) = some t) : CacheInv t := by
  simp only [step] at ht
  split at ht
  · obtain rfl := Option.some.inj ht
    cases ok <;> exact move_inv hinv i _ fun _ _ => id
  · next user a perms hreq =>
    obtain rfl := Option.some.inj ht
    cases ok with
    | false => exact move_inv hinv i _ fun _ _ => id
    | true =>
      apply setRequest_inv hinv
      intro u r hh
      exact hinv.held i u r (by rw [hreq]; exact hh)
  · cases ht

theorem review_inv {s t : Server} (hinv : CacheInv s) {i : ℕ} {answer : Option Bool}
    (ht : step s (.review i answer) = some t) : CacheInv t := by
  simp only [step] at ht
  split at ht
  · next user a perms client hreq =>
    cases answer with
    | none =>
      obtain rfl := Option.some.inj ht
      exact move_inv hinv i _ fun _ _ => id
    | some allowed =>
      obtain rfl := Option.some.inj ht
      apply setRequest_inv hinv
      intro u r hh
      exact hinv.held i u r (by rw [hreq]; exact hh)
  · cases ht

theorem discover_inv {s t : Server} (hinv : CacheInv s) {i : ℕ} {sar : Answers}
    {allNamespaces : List String} (ht : step s (.discover i sar allNamespaces) = some t) :
    CacheInv t := by
  simp only [step] at ht
  split at ht
  · split at ht <;>
    · obtain rfl := Option.some.inj ht
      exact move_inv hinv i _ fun _ _ => id
  · cases ht

/-- The new entry is stamped with the active context, which is the cluster of its reviews. -/
theorem set_step_inv {s t : Server} (hinv : CacheInv s) {i : ℕ} (hok : Matching s (.set i))
    (ht : step s (.set i) = some t) : CacheInv t := by
  simp only [step] at ht
  split at ht
  · next user requested client allowed hreq =>
    obtain rfl := Option.some.inj ht
    rw [hok client (by rw [hreq]; rfl)]
    exact move_inv (set_inv hinv user allowed) i _ fun _ _ => id
  · cases ht

/-- The entry belongs to the principal since the request read it, and the verdict to its cluster. -/
theorem set_can_i_step_inv {s t : Server} (hinv : CacheInv s) {i : ℕ}
    (hok : Matching s (.setCanI i)) (ht : step s (.setCanI i) = some t) : CacheInv t := by
  simp only [step] at ht
  split at ht
  · next user a perms client allowed hreq =>
    cases perms with
    | none =>
      obtain rfl := Option.some.inj ht
      exact move_inv hinv i _ fun _ _ => id
    | some ref =>
      obtain rfl := Option.some.inj ht
      obtain ⟨p,hp,hid⟩ := hinv.held i user ref (by rw [hreq]; exact ⟨rfl,rfl⟩)
      have hcluster := hok (ref, client) (by rw [hreq]; rfl) p hp
      exact move_inv (setCanI_inv hinv a ⟨allowed,⟨client,user⟩⟩ hp hcluster hid.symm) i _
        fun _ _ => id
  · cases ht

theorem step_inv {s t : Server} {a : Act} (hinv : CacheInv s) (hok : Matching s a)
    (ht : step s a = some t) : CacheInv t := by
  cases a with
  | switchContext name =>
    obtain rfl := Option.some.inj ht
    exact ⟨hinv.stamped,hinv.keyed,hinv.held⟩
  | finalizePostContextSwitch =>
    obtain rfl := Option.some.inj ht
    refine ⟨?_,fun _ _ hk => (nomatch hk),hinv.held⟩
    exact fun p hp => (hinv.stamped p hp).of_ttl s.permCache.invalidate rfl s.now (le_refl _)
  | tick d =>
    obtain rfl := Option.some.inj ht
    refine ⟨?_,hinv.keyed,hinv.held⟩
    exact fun p hp => (hinv.stamped p hp).of_ttl s.permCache rfl (s.now+d)
      (Int.le_add_of_nonneg_right (Int.natCast_nonneg d))
  | getNamespaces i user requested => exact get_namespaces_inv hinv ht
  | canRead i user a => exact can_read_inv hinv ht
  | readClient i ok => exact read_client_inv hinv ht
  | discover i sar allNamespaces => exact discover_inv hinv ht
  | set i => exact set_step_inv hinv hok ht
  | review i answer => exact review_inv hinv ht
  | setCanI i => exact set_can_i_step_inv hinv hok ht

/-- In a run in which every result is stored under the context of the client that computed it,
whatever the cache returns was computed for the active cluster and the asking principal. -/
theorem permission_cache_isolated (context : String) (now ttl : Time) (as : List Act) (s : Server)
    (hrun : run step (started context now ttl) as = some s)
    (hok : Meets step Matching (started context now ttl) as) : Isolated s := by
  apply isolated_of_inv
  exact meets_invariant (fun s a t hinv hok ht => step_inv hinv hok ht)
    (started_inv context now ttl) hok hrun

def alice : User where
  username := "alice"
  groups := ["dev"]
  username_clean := by decide
  groups_clean := by decide

/-- Discovery and one review on cluster a, all in time. -/
def quietRun : List Act :=
  [.getNamespaces 0 alice none,.readClient 0 true,.discover 0 (fun _ => some false) ["shop"],.set 0,
    .canRead 1 alice ⟨"list","","nodes",""⟩,.readClient 1 true,.review 1 (some true),.setCanI 1]

theorem permission_cache_isolated_quiet :
    ∃ s, run step (started "a" 0 120) quietRun = some s ∧ s.get alice = some 0 ∧ Isolated s :=
  ⟨_,rfl,by decide,permission_cache_isolated "a" 0 120 quietRun _ rfl (by decide)⟩

/-- The reviews of a request run on cluster a, the context switches, and the result is stored
under the new context. -/
def straddlingRun : List Act :=
  [.getNamespaces 0 alice none,.readClient 0 true,.discover 0 (fun _ => some true) [],
    .switchContext "b",.finalizePostContextSwitch,.set 0]

theorem stored_after_the_switch :
    ¬∀ as s, run step (started "a" 0 120) as = some s → Isolated s := by
  intro h
  have hiso := h straddlingRun _ rfl alice 0 (by decide)
  obtain ⟨perms,hperms,hran,-⟩ := hiso
  obtain rfl := Option.some.inj hperms
  exact absurd hran.1 (by decide)

end Radar.Auth
