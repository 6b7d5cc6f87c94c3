import Radar.Reconnect.ResetFinal

/-!
# Deletes noted during an outage are forgotten

A noted key is in the list, in the hands of somebody who drained the list for a
store of the same reset, or was handed to one. It is lost where a call that saw
the store before a reset drains the list after it.
-/

set_option autoImplicit false

namespace Radar.Reconnect

open Radar.Run

variable {κ : Type*}

/-- Inside `installPostgresStore`, a drain or `NoteDeletedWhileUnavailable`. -/
def Caller.busy : Caller κ → Bool
  | .opened _ _ => true
  | .noted => true
  | .saw _ => true
  | .forgetting _ _ => true
  | _ => false

def Worker.busy : Worker κ → Bool
  | .claimed _ _ => true
  | _ => false

structure Quiet (s : Server κ) : Prop where
  callers : ∀ i, (s.callers i).busy = false
  workers : ∀ w, (s.workers w).busy = false

/-- What was noted since the last reset was later handed to a store installed since. -/
def Forgotten (s : Server κ) : Prop :=
  ∀ after before key, s.since = after++.noted key::before →
    ∃ store ∈ s.installed, ∃ keys, .forgot store keys ∈ after ∧ key ∈ keys

def DeletesForgotten (s : Server κ) : Prop :=
  Quiet s → (∃ store, s.globalStore = some (.postgres store)) →
    s.deletedWhileUnavailable = [] ∧ Forgotten s

/-- A call drains the list for the store that is installed, unless nothing in it was noted since
the last reset. -/
def DrainsForInstalled (s : Server κ) : Act κ → Prop
  | .takeDeletedWhileUnavailable i =>
    ∀ store, s.callers i = .saw store → s.globalStore = some (.postgres store) ∨
      ∀ key ∈ s.deletedWhileUnavailable, .noted key ∉ s.since
  | _ => True

inductive Party where
  | caller (i : ℕ)
  | worker (w : ℕ)
  deriving DecidableEq

inductive Note (κ : Type*) where
  | noted
  | saw (store : PostgresStore)
  | forgetting (store : PostgresStore) (keys : List κ)

def Caller.installs : Caller κ → Option (PostgresStore × Install κ)
  | .opened store p => some (store,p)
  | _ => none

def Worker.installs : Worker κ → Option (PostgresStore × Install κ)
  | .claimed store p => some (store,p)
  | _ => none

def Caller.note : Caller κ → Option (Note κ)
  | .noted => some .noted
  | .saw store => some (.saw store)
  | .forgetting store keys => some (.forgetting store keys)
  | _ => none

def Server.installing (s : Server κ) : Party → Option (PostgresStore × Install κ)
  | .caller i => (s.callers i).installs
  | .worker w => (s.workers w).installs

def Server.noting (s : Server κ) (i : ℕ) : Option (Note κ) := (s.callers i).note

/-- It will drain the list. -/
def Install.drains : Install κ → Bool
  | .draining _ => true
  | .forgetting last _ => !last
  | .publishing => true
  | .finished => false

def Drainer (s : Server κ) : Prop :=
  (∃ a store p, s.installing a = some (store,p) ∧ p.drains = true) ∨
    ∃ i, s.noting i = some .noted ∨ ∃ store, s.noting i = some (.saw store)

/-- A store that is installed since the last reset, or will be. -/
def Sound (s : Server κ) (store : PostgresStore) : Prop :=
  store ∈ s.installed ∨ ∃ a p, s.installing a = some (store,p)

/-- The keys are about to be handed to the store. -/
def Holding (s : Server κ) (store : PostgresStore) (keys : List κ) : Prop :=
  (∃ a last, s.installing a = some (store,.forgetting last keys)) ∨
    ∃ i, s.noting i = some (.forgetting store keys)

def Held (s : Server κ) (key : κ) : Prop :=
  ∃ store keys, Sound s store ∧ Holding s store keys ∧ key ∈ keys

def Handed (s : Server κ) (after : List (Event κ)) (key : κ) : Prop :=
  ∃ store keys, Sound s store ∧ .forgot store keys ∈ after ∧ key ∈ keys

structure ForgetInv (s : Server κ) : Prop where
  listed : s.deletedWhileUnavailable ≠ [] →
    (∀ store, s.globalStore ≠ some (.postgres store)) ∨ Drainer s
  published : ∀ a store p, s.installing a = some (store,p) → p.done = true → store ∈ s.installed
  current : ∀ store, s.globalStore = some (.postgres store) → store ∈ s.installed
  kept : ∀ after before key, s.since = after++.noted key::before →
    key ∈ s.deletedWhileUnavailable ∨ Held s key ∨ Handed s after key

section Views

variable {s t : Server κ} {i w : ℕ} {p : Caller κ} {q : Worker κ}

theorem installing_caller (ht : t.callers = Function.update s.callers i p)
    (hworkers : t.workers = s.workers) :
    t.installing = Function.update s.installing (.caller i) p.installs := by
  ext1 a
  rcases eq_or_ne a (.caller i) with rfl | ha
  · rw [Function.update_self, Server.installing, caller_self ht]
  · rw [Function.update_of_ne ha]
    cases a with
    | caller j => rw [Server.installing, caller_of_ne ht (fun hj => ha (congrArg _ hj))]; rfl
    | worker w => rw [Server.installing, hworkers]; rfl

theorem installing_worker (ht : t.workers = Function.update s.workers w q)
    (hcallers : t.callers = s.callers) :
    t.installing = Function.update s.installing (.worker w) q.installs := by
  ext1 a
  rcases eq_or_ne a (.worker w) with rfl | ha
  · rw [Function.update_self, Server.installing, worker_self ht]
  · rw [Function.update_of_ne ha]
    cases a with
    | caller j => rw [Server.installing, hcallers]; rfl
    | worker v => rw [Server.installing, worker_of_ne ht (fun hv => ha (congrArg _ hv))]; rfl

theorem noting_caller (ht : t.callers = Function.update s.callers i p) :
    t.noting = Function.update s.noting i p.note := by
  ext1 j
  rcases eq_or_ne j i with rfl | hj
  · rw [Function.update_self, Server.noting, caller_self ht]
  · rw [Function.update_of_ne hj, Server.noting, caller_of_ne ht hj]
    rfl

/-- A caller who takes no part in installing before and after the move. -/
theorem installing_aside (ht : t.callers = Function.update s.callers i p)
    (hworkers : t.workers = s.workers) (hi : (s.callers i).installs = none)
    (hp : p.installs = none) : t.installing = s.installing := by
  rw [installing_caller ht hworkers, hp, ← hi]
  exact Function.update_eq_self _ _

theorem noting_aside (ht : t.callers = Function.update s.callers i p)
    (hi : (s.callers i).note = none) (hp : p.note = none) : t.noting = s.noting := by
  rw [noting_caller ht, hp, ← hi]
  exact Function.update_eq_self _ _

theorem installing_worker_aside (ht : t.workers = Function.update s.workers w q)
    (hcallers : t.callers = s.callers) (hw : (s.workers w).installs = none)
    (hq : q.installs = none) : t.installing = s.installing := by
  rw [installing_worker ht hcallers, hq, ← hw]
  exact Function.update_eq_self _ _

end Views

section Moves

variable {s t : Server κ} {a : Party} {i : ℕ} {store : PostgresStore}

theorem Sound.of_eq (h : Sound s store) (hinstalling : t.installing = s.installing)
    (hinstalled : t.installed = s.installed) : Sound t store := by
  unfold Sound
  rw [hinstalling, hinstalled]
  exact h

/-- Whoever was installing the store still is, or it is installed. -/
theorem Sound.update (h : Sound s store) {x : Option (PostgresStore × Install κ)}
    (ht : t.installing = Function.update s.installing a x)
    (hinstalled : ∀ held ∈ s.installed, held ∈ t.installed)
    (ha : ∀ p, s.installing a = some (store,p) →
      store ∈ t.installed ∨ ∃ q, x = some (store,q)) : Sound t store := by
  obtain hold | ⟨b,p,hb⟩ := h
  · exact .inl (hinstalled store hold)
  · rcases eq_or_ne b a with rfl | hba
    · refine (ha p hb).imp_right fun ⟨q,hq⟩ => ⟨b,q,?_⟩
      rw [ht, Function.update_self]
      exact hq
    · refine .inr ⟨b,p,?_⟩
      rw [ht, Function.update_of_ne hba]
      exact hb

/-- Whoever moves goes on installing its store. -/
theorem Sound.goOn (h : Sound s store) {held : PostgresStore} {p q : Install κ}
    (ha : s.installing a = some (held,p))
    (ht : t.installing = Function.update s.installing a (some (held,q)))
    (hinstalled : ∀ store ∈ s.installed, store ∈ t.installed) : Sound t store := by
  refine h.update ht hinstalled fun p hold => .inr ?_
  obtain ⟨rfl,_⟩ := Prod.mk.inj (Option.some.inj (ha.symm.trans hold))
  exact ⟨q,rfl⟩

/-- What was held before the move is held after it, or was held by the one who moves. -/
theorem Holding.update {keys : List κ} (h : Holding s store keys)
    {x : Option (PostgresStore × Install κ)}
    (ht : t.installing = Function.update s.installing a x) (hnoting : t.noting = s.noting) :
    Holding t store keys ∨ ∃ last, s.installing a = some (store,.forgetting last keys) := by
  obtain ⟨b,last,hb⟩ | hnote := h
  · rcases eq_or_ne b a with rfl | hba
    · exact .inr ⟨last,hb⟩
    · refine .inl (.inl ⟨b,last,?_⟩)
      rw [ht, Function.update_of_ne hba]
      exact hb
  · rw [← hnoting] at hnote
    exact .inl (.inr hnote)

theorem Holding.noting {keys : List κ} (h : Holding s store keys) {x : Option (Note κ)}
    (ht : t.noting = Function.update s.noting i x) (hinstalling : t.installing = s.installing) :
    Holding t store keys ∨ s.noting i = some (.forgetting store keys) := by
  obtain hinstall | ⟨j,hj⟩ := h
  · rw [← hinstalling] at hinstall
    exact .inl (.inl hinstall)
  · rcases eq_or_ne j i with rfl | hji
    · exact .inr hj
    · refine .inl (.inr ⟨j,?_⟩)
      rw [ht, Function.update_of_ne hji]
      exact hj

theorem Drainer.update (h : Drainer s) {x : Option (PostgresStore × Install κ)}
    (ht : t.installing = Function.update s.installing a x) (hnoting : t.noting = s.noting)
    (ha : ∀ store p, s.installing a = some (store,p) → p.drains = true →
      ∃ store q, x = some (store,q) ∧ q.drains = true) : Drainer t := by
  obtain ⟨b,store,p,hb,hp⟩ | hnote := h
  · rcases eq_or_ne b a with rfl | hba
    · obtain ⟨held,q,hx,hq⟩ := ha store p hb hp
      refine .inl ⟨b,held,q,?_,hq⟩
      rw [ht, Function.update_self]
      exact hx
    · refine .inl ⟨b,store,p,?_,hp⟩
      rw [ht, Function.update_of_ne hba]
      exact hb
  · rw [← hnoting] at hnote
    exact .inr hnote

theorem published_update (h : ForgetInv s) {x : Option (PostgresStore × Install κ)}
    (ht : t.installing = Function.update s.installing a x)
    (hinstalled : ∀ held ∈ s.installed, held ∈ t.installed)
    (hx : ∀ store p, x = some (store,p) → p.done = true → store ∈ t.installed) :
    ∀ b store p, t.installing b = some (store,p) → p.done = true → store ∈ t.installed := by
  intro b store p hb hp
  rcases eq_or_ne b a with rfl | hba
  · rw [ht, Function.update_self] at hb
    exact hx store p hb hp
  · rw [ht, Function.update_of_ne hba] at hb
    exact hinstalled store (h.published b store p hb hp)

/-- One who holds no keys moves. -/
theorem kept_update (h : ForgetInv s) {x : Option (PostgresStore × Install κ)}
    (ht : t.installing = Function.update s.installing a x) (hnoting : t.noting = s.noting)
    (hsince : t.since = s.since) (hsound : ∀ store, Sound s store → Sound t store)
    (ha : ∀ store last keys, s.installing a ≠ some (store,.forgetting last keys))
    (hlist : ∀ key ∈ s.deletedWhileUnavailable, key ∈ t.deletedWhileUnavailable ∨ Held t key)
    (after before : List (Event κ)) (key : κ) (hsplit : t.since = after++.noted key::before) :
    key ∈ t.deletedWhileUnavailable ∨ Held t key ∨ Handed t after key := by
  rw [hsince] at hsplit
  obtain hold | ⟨store,keys,hs,hholding,hkey⟩ | ⟨store,keys,hs,hforgot,hkey⟩ :=
    h.kept after before key hsplit
  · exact (hlist key hold).imp_right .inl
  · obtain hholds | ⟨last,hmine⟩ := hholding.update ht hnoting
    · exact .inr (.inl ⟨store,keys,hsound store hs,hholds,hkey⟩)
    · exact absurd hmine (ha store last keys)
  · exact .inr (.inr ⟨store,keys,hsound store hs,hforgot,hkey⟩)

/-- A newer event changes nothing about the older ones. -/
theorem split_cons {e : Event κ} {since after before : List (Event κ)} {key : κ}
    (h : e::since = after++.noted key::before) :
    (after = [] ∧ e = .noted key) ∨ ∃ rest, after = e::rest ∧ since = rest++.noted key::before := by
  cases after with
  | nil =>
    obtain ⟨rfl,rfl⟩ := List.cons.inj h
    exact .inl ⟨rfl,rfl⟩
  | cons b rest =>
    obtain ⟨rfl,hrest⟩ := List.cons.inj h
    exact .inr ⟨rest,rfl,hrest⟩

/-- A step that leaves the list, the events and whoever takes part in them. -/
theorem ForgetInv.aside (h : ForgetInv s) (hinstalling : t.installing = s.installing)
    (hnoting : t.noting = s.noting)
    (hdeleted : t.deletedWhileUnavailable = s.deletedWhileUnavailable)
    (hsince : t.since = s.since) (hinstalled : t.installed = s.installed)
    (hstore : ∀ store, t.globalStore = some (.postgres store) →
      s.globalStore = some (.postgres store)) : ForgetInv t where
  listed hlist := by
    rw [hdeleted] at hlist
    obtain hnone | hdrainer := h.listed hlist
    · exact .inl fun store hglobal => hnone store (hstore store hglobal)
    · refine .inr ?_
      unfold Drainer
      rw [hinstalling, hnoting]
      exact hdrainer
  published := by
    rw [hinstalling, hinstalled]
    exact h.published
  current store hglobal := by
    rw [hinstalled]
    exact h.current store (hstore store hglobal)
  kept := by
    unfold Held Handed Sound Holding
    rw [hinstalling, hnoting, hdeleted, hsince, hinstalled]
    exact h.kept

/-- An install begins. -/
theorem ForgetInv.begin (h : ForgetInv s) (ha : s.installing a = none)
    (ht : t.installing = Function.update s.installing a (some (store,.draining false)))
    (hnoting : t.noting = s.noting)
    (hdeleted : t.deletedWhileUnavailable = s.deletedWhileUnavailable)
    (hsince : t.since = s.since) (hinstalled : t.installed = s.installed)
    (hstore : t.globalStore = s.globalStore) : ForgetInv t where
  listed hlist := by
    rw [hdeleted] at hlist
    rw [hstore]
    refine (h.listed hlist).imp_right fun hdrainer => hdrainer.update ht hnoting ?_
    exact fun _ _ hold => by cases ha.symm.trans hold
  published := by
    refine published_update h ht (fun _ hheld => hinstalled.symm ▸ hheld) ?_
    rintro _ _ ⟨⟩ hdone
    cases hdone
  current store hglobal := by
    rw [hinstalled]
    exact h.current store (hstore.symm.trans hglobal)
  kept := by
    refine kept_update h ht hnoting hsince ?_ (by simp [ha]) fun _ hlist => .inl (hdeleted ▸ hlist)
    intro held hheld
    refine hheld.update ht (fun _ hin => hinstalled.symm ▸ hin) ?_
    exact fun _ hold => by cases ha.symm.trans hold

/-- An install drains the list. -/
theorem ForgetInv.drain (h : ForgetInv s) {last : Bool}
    (ha : s.installing a = some (store,.draining last))
    (ht : t.installing = Function.update s.installing a
      (some (store,.forgetting last s.deletedWhileUnavailable)))
    (hnoting : t.noting = s.noting) (hdeleted : t.deletedWhileUnavailable = [])
    (hsince : t.since = s.since) (hinstalled : t.installed = s.installed)
    (hstore : t.globalStore = s.globalStore) : ForgetInv t where
  listed hlist := absurd hdeleted hlist
  published := by
    refine published_update h ht (fun _ hheld => hinstalled.symm ▸ hheld) ?_
    rintro _ _ ⟨⟩ hdone
    rw [hinstalled]
    exact h.published a store _ ha hdone
  current store hglobal := by
    rw [hinstalled]
    exact h.current store (hstore.symm.trans hglobal)
  kept := by
    have hnew : t.installing a = some (store,.forgetting last s.deletedWhileUnavailable) := by
      rw [ht, Function.update_self]
    refine kept_update h ht hnoting hsince ?_ (by simp [ha]) ?_
    · exact fun _ hheld => hheld.goOn ha ht fun _ hin => hinstalled.symm ▸ hin
    · exact fun _ hlist => .inr ⟨store,_,.inr ⟨a,_,hnew⟩,.inl ⟨a,last,hnew⟩,hlist⟩

/-- An install hands what it drained to the store. -/
theorem ForgetInv.forget (h : ForgetInv s) {last : Bool} {keys : List κ}
    (ha : s.installing a = some (store,.forgetting last keys))
    (ht : t.installing = Function.update s.installing a
      (some (store,if last then .finished else .publishing)))
    (hnoting : t.noting = s.noting)
    (hdeleted : t.deletedWhileUnavailable = s.deletedWhileUnavailable)
    (hsince : t.since = .forgot store keys::s.since) (hinstalled : t.installed = s.installed)
    (hstore : t.globalStore = s.globalStore) : ForgetInv t where
  listed hlist := by
    rw [hdeleted] at hlist
    rw [hstore]
    refine (h.listed hlist).imp_right fun hdrainer => hdrainer.update ht hnoting ?_
    intro held p hold hdrains
    obtain ⟨rfl,rfl⟩ := Prod.mk.inj (Option.some.inj (ha.symm.trans hold))
    cases last with
    | true => cases hdrains
    | false => exact ⟨store,.publishing,rfl,rfl⟩
  published := by
    refine published_update h ht (fun _ hheld => hinstalled.symm ▸ hheld) ?_
    rintro _ _ ⟨⟩ hdone
    rw [hinstalled]
    cases last with
    | true => exact h.published a store _ ha rfl
    | false => cases hdone
  current store hglobal := by
    rw [hinstalled]
    exact h.current store (hstore.symm.trans hglobal)
  kept after before key hsplit := by
    rw [hsince] at hsplit
    rw [hdeleted]
    have hsound {held : PostgresStore} (hheld : Sound s held) : Sound t held :=
      hheld.goOn ha ht fun _ hin => hinstalled.symm ▸ hin
    obtain ⟨_,hnoted⟩ | ⟨rest,rfl,hrest⟩ := split_cons hsplit
    · cases hnoted
    · obtain hlist | ⟨held,taken,hs,hholding,hkey⟩ | ⟨held,taken,hs,hforgot,hkey⟩ :=
        h.kept rest before key hrest
      · exact .inl hlist
      · obtain hholds | ⟨_,hold⟩ := hholding.update ht hnoting
        · exact .inr (.inl ⟨held,taken,hsound hs,hholds,hkey⟩)
        · obtain ⟨rfl,hmine⟩ := Prod.mk.inj (Option.some.inj (ha.symm.trans hold))
          obtain ⟨_,rfl⟩ := Install.forgetting.inj hmine
          exact .inr (.inr ⟨store,keys,hsound hs,List.mem_cons_self,hkey⟩)
      · exact .inr (.inr ⟨held,taken,hsound hs,List.mem_cons_of_mem _ hforgot,hkey⟩)

theorem ForgetInv.publish (h : ForgetInv s) (ha : s.installing a = some (store,.publishing))
    (ht : t.installing = Function.update s.installing a (some (store,.draining true)))
    (hnoting : t.noting = s.noting)
    (hdeleted : t.deletedWhileUnavailable = s.deletedWhileUnavailable)
    (hsince : t.since = s.since) (hinstalled : t.installed = store::s.installed)
    (hstore : t.globalStore = some (.postgres store)) : ForgetInv t := by
  have hin : ∀ held ∈ s.installed, held ∈ t.installed := fun held hheld => by
    rw [hinstalled]
    exact List.mem_cons_of_mem store hheld
  have hpublished : store ∈ t.installed := by
    rw [hinstalled]
    exact List.mem_cons_self
  constructor
  · refine fun _ => .inr (.inl ⟨a,store,.draining true,?_,rfl⟩)
    rw [ht, Function.update_self]
  · refine published_update h ht hin ?_
    rintro _ _ ⟨⟩ _
    exact hpublished
  · rintro held hglobal
    obtain rfl : store = held := by simpa using hstore.symm.trans hglobal
    exact hpublished
  · refine kept_update h ht hnoting hsince ?_ (by simp [ha]) fun _ hlist => .inl (hdeleted ▸ hlist)
    exact fun _ hheld => hheld.goOn ha ht hin

/-- An install is finished: its store is one of those installed. -/
theorem ForgetInv.finished (h : ForgetInv s) (ha : s.installing a = some (store,.finished))
    (ht : t.installing = Function.update s.installing a none) (hnoting : t.noting = s.noting)
    (hdeleted : t.deletedWhileUnavailable = s.deletedWhileUnavailable)
    (hsince : t.since = s.since) (hinstalled : t.installed = s.installed)
    (hstore : t.globalStore = s.globalStore) : ForgetInv t where
  listed hlist := by
    rw [hdeleted] at hlist
    rw [hstore]
    refine (h.listed hlist).imp_right fun hdrainer => hdrainer.update ht hnoting ?_
    intro held p hold hdrains
    obtain ⟨rfl,rfl⟩ := Prod.mk.inj (Option.some.inj (ha.symm.trans hold))
    nomatch hdrains
  published := published_update h ht (fun _ hheld => hinstalled.symm ▸ hheld) nofun
  current store hglobal := by
    rw [hinstalled]
    exact h.current store (hstore.symm.trans hglobal)
  kept := by
    refine kept_update h ht hnoting hsince ?_ (by simp [ha]) fun _ hlist => .inl (hdeleted ▸ hlist)
    intro held hheld
    refine hheld.update ht (fun _ hin => hinstalled.symm ▸ hin) fun p hold => .inl ?_
    obtain ⟨rfl,rfl⟩ := Prod.mk.inj (Option.some.inj (ha.symm.trans hold))
    rw [hinstalled]
    exact h.published a store .finished ha rfl

/-- A call of `NoteDeletedWhileUnavailable` moves, and what is in the list stays there or is held. -/
theorem ForgetInv.call (h : ForgetInv s) (hinstalling : t.installing = s.installing)
    (hinstalled : t.installed = s.installed) (hstore : t.globalStore = s.globalStore)
    (hlisted : t.deletedWhileUnavailable ≠ [] →
      (∀ store, t.globalStore ≠ some (.postgres store)) ∨ Drainer t)
    (hkept : ∀ after before key, t.since = after++.noted key::before →
      key ∈ t.deletedWhileUnavailable ∨ Held t key ∨ Handed t after key) : ForgetInv t where
  listed := hlisted
  published := by
    rw [hinstalling, hinstalled]
    exact h.published
  current store hglobal := by
    rw [hinstalled]
    exact h.current store (hstore.symm.trans hglobal)
  kept := hkept

/-- The held keys stay held, unless it is the caller who holds them. -/
theorem Held.noting {key : κ} (h : Held s key) {x : Option (Note κ)}
    (ht : t.noting = Function.update s.noting i x) (hinstalling : t.installing = s.installing)
    (hinstalled : t.installed = s.installed) :
    Held t key ∨ ∃ store keys, Sound t store ∧ s.noting i = some (.forgetting store keys) ∧
      key ∈ keys := by
  obtain ⟨store,keys,hs,hholding,hkey⟩ := h
  have hs : Sound t store := hs.of_eq hinstalling hinstalled
  obtain hnew | hold := hholding.noting ht hinstalling
  · exact .inl ⟨store,keys,hs,hnew,hkey⟩
  · exact .inr ⟨store,keys,hs,hold,hkey⟩

theorem Handed.of_eq {after : List (Event κ)} {key : κ} (h : Handed s after key)
    (hinstalling : t.installing = s.installing) (hinstalled : t.installed = s.installed) :
    Handed t after key := by
  obtain ⟨store,keys,hs,hforgot⟩ := h
  exact ⟨store,keys,hs.of_eq hinstalling hinstalled,hforgot⟩

theorem Handed.cons {e : Event κ} {after : List (Event κ)} {key : κ} (h : Handed s after key) :
    Handed s (e::after) key := by
  obtain ⟨store,keys,hs,hforgot,hkey⟩ := h
  exact ⟨store,keys,hs,List.mem_cons_of_mem e hforgot,hkey⟩

/-- Where the caller held nothing and the list is as long as it was. -/
theorem kept_noting (h : ForgetInv s) {x : Option (Note κ)}
    (ht : t.noting = Function.update s.noting i x) (hinstalling : t.installing = s.installing)
    (hinstalled : t.installed = s.installed) (hsince : t.since = s.since)
    (hi : ∀ store keys, s.noting i ≠ some (.forgetting store keys))
    (hlist : ∀ key ∈ s.deletedWhileUnavailable, .noted key ∈ s.since →
      key ∈ t.deletedWhileUnavailable ∨ Held t key)
    (after before : List (Event κ)) (key : κ) (hsplit : t.since = after++.noted key::before) :
    key ∈ t.deletedWhileUnavailable ∨ Held t key ∨ Handed t after key := by
  rw [hsince] at hsplit
  obtain hold | hheld | hhanded := h.kept after before key hsplit
  · exact (hlist key hold (by rw [hsplit]; simp)).imp_right .inl
  · obtain hnew | ⟨store,keys,_,hmine,_⟩ := hheld.noting ht hinstalling hinstalled
    · exact .inr (.inl hnew)
    · exact absurd hmine (hi store keys)
  · exact .inr (.inr (hhanded.of_eq hinstalling hinstalled))

/-- A key is added. -/
theorem ForgetInv.note (h : ForgetInv s) {key : κ} (hi : s.noting i = none)
    (ht : t.noting = Function.update s.noting i (some .noted))
    (hinstalling : t.installing = s.installing) (hinstalled : t.installed = s.installed)
    (hstore : t.globalStore = s.globalStore)
    (hdeleted : ∀ k, k ∈ t.deletedWhileUnavailable ↔ k = key ∨ k ∈ s.deletedWhileUnavailable)
    (hsince : t.since = .noted key::s.since) : ForgetInv t := by
  refine h.call hinstalling hinstalled hstore ?_ ?_
  · refine fun _ => .inr (.inr ⟨i,.inl ?_⟩)
    rw [ht, Function.update_self]
  · intro after before k hsplit
    rw [hsince] at hsplit
    obtain ⟨rfl,hnoted⟩ | ⟨rest,rfl,hrest⟩ := split_cons hsplit
    · exact .inl ((hdeleted k).mpr (.inl (Event.noted.inj hnoted).symm))
    · obtain hold | hheld | hhanded := h.kept rest before k hrest
      · exact .inl ((hdeleted k).mpr (.inr hold))
      · obtain hnew | ⟨_,_,_,hmine,_⟩ := hheld.noting ht hinstalling hinstalled
        · exact .inr (.inl hnew)
        · cases hi.symm.trans hmine
      · exact .inr (.inr (hhanded.of_eq hinstalling hinstalled).cons)

/-- A key is not added, or the store is looked up. -/
theorem ForgetInv.look (h : ForgetInv s) {x : Option (Note κ)}
    (hi : s.noting i = none ∨ s.noting i = some .noted)
    (ht : t.noting = Function.update s.noting i x) (hinstalling : t.installing = s.installing)
    (hinstalled : t.installed = s.installed) (hstore : t.globalStore = s.globalStore)
    (hdeleted : t.deletedWhileUnavailable = s.deletedWhileUnavailable)
    (hsince : t.since = s.since)
    (hx : (∀ store, t.globalStore ≠ some (.postgres store)) ∨ x = some .noted ∨
      ∃ store, x = some (.saw store)) : ForgetInv t := by
  refine h.call hinstalling hinstalled hstore ?_ ?_
  · refine fun _ => hx.imp_right fun hx => .inr ⟨i,?_⟩
    rw [ht, Function.update_self]
    exact hx
  · refine kept_noting h ht hinstalling hinstalled hsince ?_ fun _ hold _ => .inl (hdeleted ▸ hold)
    rcases hi with hi | hi <;> simp [hi]

/-- A call drains the list, for the store that is installed or of what does not count. -/
theorem ForgetInv.take (h : ForgetInv s) (hi : s.noting i = some (.saw store))
    (hok : s.globalStore = some (.postgres store) ∨
      ∀ key ∈ s.deletedWhileUnavailable, .noted key ∉ s.since)
    (ht : t.noting = Function.update s.noting i
      (some (.forgetting store s.deletedWhileUnavailable)))
    (hinstalling : t.installing = s.installing) (hinstalled : t.installed = s.installed)
    (hstore : t.globalStore = s.globalStore) (hdeleted : t.deletedWhileUnavailable = [])
    (hsince : t.since = s.since) : ForgetInv t := by
  refine h.call hinstalling hinstalled hstore (absurd hdeleted) ?_
  refine kept_noting h ht hinstalling hinstalled hsince (by simp [hi]) fun key hold hnoted => ?_
  rcases hok with hglobal | hnone
  · refine .inr ⟨store,_,.inl (hinstalled.symm ▸ h.current store hglobal),.inr ⟨i,?_⟩,hold⟩
    rw [ht, Function.update_self]
  · exact absurd hnoted (hnone key hold)

/-- A call hands what it drained to the store it saw. -/
theorem ForgetInv.hand (h : ForgetInv s) {keys : List κ}
    (hi : s.noting i = some (.forgetting store keys))
    (ht : t.noting = Function.update s.noting i none)
    (hinstalling : t.installing = s.installing) (hinstalled : t.installed = s.installed)
    (hstore : t.globalStore = s.globalStore)
    (hdeleted : t.deletedWhileUnavailable = s.deletedWhileUnavailable)
    (hsince : t.since = .forgot store keys::s.since) : ForgetInv t := by
  refine h.call hinstalling hinstalled hstore ?_ ?_
  · intro hlist
    rw [hdeleted] at hlist
    rw [hstore]
    refine (h.listed hlist).imp_right ?_
    rintro (hinstall | ⟨j,hj⟩)
    · rw [← hinstalling] at hinstall
      exact .inl hinstall
    · refine .inr ⟨j,?_⟩
      rw [ht, Function.update_of_ne]
      · exact hj
      · rintro rfl
        simp [hi] at hj
  · intro after before key hsplit
    rw [hsince] at hsplit
    rw [hdeleted]
    obtain ⟨_,hnoted⟩ | ⟨rest,rfl,hrest⟩ := split_cons hsplit
    · cases hnoted
    · obtain hold | hheld | hhanded := h.kept rest before key hrest
      · exact .inl hold
      · obtain hnew | ⟨held,taken,hs,hmine,hkey⟩ := hheld.noting ht hinstalling hinstalled
        · exact .inr (.inl hnew)
        · obtain ⟨rfl,rfl⟩ := Note.forgetting.inj (Option.some.inj (hi.symm.trans hmine))
          exact .inr (.inr ⟨store,keys,hs,List.mem_cons_self,hkey⟩)
      · exact .inr (.inr (hhanded.of_eq hinstalling hinstalled).cons)

/-- A reset drops the list: nothing has been noted since. -/
theorem ForgetInv.drop (h : ForgetInv s) (hinstalling : t.installing = s.installing)
    (hdeleted : t.deletedWhileUnavailable = []) (hsince : t.since = [])
    (hinstalled : t.installed = s.installed) (hstore : t.globalStore = s.globalStore) :
    ForgetInv t where
  listed hlist := absurd hdeleted hlist
  published := by
    rw [hinstalling, hinstalled]
    exact h.published
  current store hglobal := by
    rw [hinstalled]
    exact h.current store (hstore.symm.trans hglobal)
  kept after before key hsplit := by simp [hsince] at hsplit

/-- A reset clears the store while nobody installs one. -/
theorem ForgetInv.clear (hnone : ∀ a, t.installing a = none) (hsince : t.since = [])
    (hstore : t.globalStore = none) : ForgetInv t where
  listed _ := .inl (by simp [hstore])
  published a store p ha := absurd ((hnone a).symm.trans ha) (by simp)
  current store hglobal := absurd (hstore.symm.trans hglobal) (by simp)
  kept after before key hsplit := by simp [hsince] at hsplit

/-- A step of `installPostgresStore`, whoever takes it. -/
theorem ForgetInv.install (h : ForgetInv s) {p : Install κ}
    (ha : s.installing a = some (store,p)) (hp : p ≠ .finished)
    (ht : t.installing = Function.update s.installing a (some (store,(s.install store p).2)))
    (hnoting : t.noting = s.noting)
    (hdeleted : t.deletedWhileUnavailable = (s.install store p).1.deletedWhileUnavailable)
    (hsince : t.since = (s.install store p).1.since)
    (hinstalled : t.installed = (s.install store p).1.installed)
    (hstore : t.globalStore = (s.install store p).1.globalStore) : ForgetInv t := by
  cases p with
  | draining last => exact h.drain ha ht hnoting hdeleted hsince hinstalled hstore
  | forgetting last keys => exact h.forget ha ht hnoting hdeleted hsince hinstalled hstore
  | publishing => exact h.publish ha ht hnoting hdeleted hsince hinstalled hstore
  | finished => contradiction

end Moves

section Steps

variable {s t : Server κ} {i w : ℕ} {p : Caller κ} {q : Worker κ}

/-- A caller outside the drains moves, and what is published is none of theirs. -/
theorem ForgetInv.callerAside (h : ForgetInv s) (ht : t.callers = Function.update s.callers i p)
    (hworkers : t.workers = s.workers) (hi : (s.callers i).installs = none ∧ (s.callers i).note = none)
    (hp : p.installs = none ∧ p.note = none)
    (hdeleted : t.deletedWhileUnavailable = s.deletedWhileUnavailable)
    (hsince : t.since = s.since) (hinstalled : t.installed = s.installed)
    (hstore : ∀ store, t.globalStore = some (.postgres store) →
      s.globalStore = some (.postgres store)) : ForgetInv t :=
  h.aside (installing_aside ht hworkers hi.1 hp.1) (noting_aside ht hi.2 hp.2) hdeleted hsince
    hinstalled hstore

theorem ForgetInv.workerAside (h : ForgetInv s) (ht : t.workers = Function.update s.workers w q)
    (hcallers : t.callers = s.callers) (hw : (s.workers w).installs = none)
    (hq : q.installs = none)
    (hdeleted : t.deletedWhileUnavailable = s.deletedWhileUnavailable)
    (hsince : t.since = s.since) (hinstalled : t.installed = s.installed)
    (hstore : t.globalStore = s.globalStore) : ForgetInv t := by
  refine h.aside (installing_worker_aside ht hcallers hw hq) ?_ hdeleted hsince hinstalled ?_
  · unfold Server.noting
    rw [hcallers]
  · exact fun store hglobal => hstore.symm.trans hglobal

theorem initStep_forget (h : ForgetInv s) {a : Act κ} (ht : s.initStep a = some t) :
    ForgetInv t := by
  cases a with
  | initStore i cfg =>
    simp only [Server.initStep] at ht
    split at ht
    · rename_i hi _
      have hout : (s.callers i).installs = none ∧ (s.callers i).note = none := by
        rw [hi]
        exact ⟨rfl,rfl⟩
      split_ifs at ht
      · obtain rfl := Option.some.inj ht
        exact h.callerAside rfl rfl hout ⟨rfl,rfl⟩ rfl rfl rfl fun _ => id
      · obtain rfl := Option.some.inj ht
        exact h.callerAside rfl rfl hout ⟨rfl,rfl⟩ rfl rfl rfl fun _ => id
    · cases ht
  | openStore i answers =>
    simp only [Server.initStep] at ht
    split at ht
    · rename_i cfg hi
      have hout : (s.callers i).installs = none ∧ (s.callers i).note = none := by
        rw [hi]
        exact ⟨rfl,rfl⟩
      split at ht
      · split at ht
        · obtain rfl := Option.some.inj ht
          exact h.callerAside rfl rfl hout ⟨rfl,rfl⟩ rfl rfl rfl fun _ => id
        · obtain rfl := Option.some.inj ht
          cases answers with
          | true => exact h.callerAside rfl rfl hout ⟨rfl,rfl⟩ rfl rfl rfl fun _ hq => by cases hq
          | false => exact h.callerAside rfl rfl hout ⟨rfl,rfl⟩ rfl rfl rfl fun _ hq => by cases hq
      · obtain rfl := Option.some.inj ht
        exact h.callerAside rfl rfl hout ⟨rfl,rfl⟩ rfl rfl rfl fun _ hq => by cases hq
      · split_ifs at ht
        · obtain rfl := Option.some.inj ht
          exact h.callerAside rfl rfl hout ⟨rfl,rfl⟩ rfl rfl rfl fun _ => id
        · obtain rfl := Option.some.inj ht
          have hbegin : s.installing (.caller i) = none := hout.1
          exact h.begin hbegin
            (installing_caller (p := .opened (s.dialedBy none) (.draining false)) rfl rfl)
            (noting_aside rfl hout.2 rfl) rfl rfl rfl rfl
        · obtain rfl := Option.some.inj ht
          exact h.callerAside rfl rfl hout ⟨rfl,rfl⟩ rfl rfl rfl fun _ => id
    · cases ht
  | install i =>
    simp only [Server.initStep] at ht
    split at ht
    · rename_i store p hi
      have hmine : s.installing (.caller i) = some (store,p) := by
        rw [Server.installing, hi]
        rfl
      have hnote : (s.callers i).note = none := by
        rw [hi]
        rfl
      split at ht
      · obtain rfl := Option.some.inj ht
        exact h.finished hmine (installing_caller (p := .initialized) rfl rfl)
          (noting_aside rfl hnote rfl) rfl rfl rfl rfl
      · rename_i hover
        obtain rfl := Option.some.inj ht
        have hcallers : (s.install store p).1.callers = s.callers := by cases p <;> rfl
        have hworkers : (s.install store p).1.workers = s.workers := by cases p <;> rfl
        have hmove : Function.update (s.install store p).1.callers i
            (.opened store (s.install store p).2) =
            Function.update s.callers i (.opened store (s.install store p).2) := by rw [hcallers]
        exact h.install hmine hover
          (installing_caller (p := .opened store (s.install store p).2) hmove hworkers)
          (noting_aside hmove hnote rfl) rfl rfl rfl rfl
    · cases ht
  | startPostgresReconnect i w =>
    simp only [Server.initStep] at ht
    split at ht
    · rename_i hi hw _
      have hout : (s.callers i).installs = none ∧ (s.callers i).note = none := by
        rw [hi]
        exact ⟨rfl,rfl⟩
      split at ht
      · obtain rfl := Option.some.inj ht
        exact h.callerAside rfl rfl hout ⟨rfl,rfl⟩ rfl rfl rfl fun _ => id
      · obtain rfl := Option.some.inj ht
        have hstart : ForgetInv (s.setWorker w .waiting) :=
          h.workerAside rfl rfl (by rw [hw]; rfl) rfl rfl rfl rfl rfl
        exact hstart.callerAside (i := i) (p := .initialized) rfl rfl hout ⟨rfl,rfl⟩ rfl rfl rfl
          fun _ => id
    · cases ht
  | returnInit i =>
    simp only [Server.initStep] at ht
    split at ht
    · rename_i hi
      obtain rfl := Option.some.inj ht
      exact h.callerAside rfl rfl (by rw [hi]; exact ⟨rfl,rfl⟩) ⟨rfl,rfl⟩ rfl rfl rfl fun _ => id
    · cases ht
  | _ => cases ht

/-- While a reset is between its steps nobody installs a store. -/
theorem StoreInv.not_installing (hinv : StoreInv s) (hmu : s.globalStoreInitMu = some i)
    (hi : (s.callers i).installs = none) (hquit : s.postgresReconnectQuit = none) (a : Party) :
    s.installing a = none := by
  cases a with
  | caller j =>
    rw [Server.installing]
    cases hj : s.callers j with
    | opened store p =>
      have hok := hinv.callers j
      rw [hj] at hok
      obtain rfl := Option.some.inj (hmu.symm.trans hok.1)
      rw [hj] at hi
      cases hi
    | _ => rfl
  | worker w =>
    rw [Server.installing]
    cases hw : s.workers w with
    | claimed store p =>
      have hok := hinv.workers w
      rw [hw] at hok
      cases hquit.symm.trans hok.1
    | _ => rfl

theorem resetStep_forget (hinv : StoreInv s) (h : ForgetInv s) {a : Act κ}
    (ht : s.resetStep a = some t) : ForgetInv t := by
  cases a with
  | resetStore i =>
    simp only [Server.resetStep] at ht
    split at ht
    · rename_i hi _
      obtain rfl := Option.some.inj ht
      exact h.callerAside rfl rfl (by rw [hi]; exact ⟨rfl,rfl⟩) ⟨rfl,rfl⟩ rfl rfl rfl fun _ => id
    · cases ht
  | stopPostgresReconnect i =>
    simp only [Server.resetStep] at ht
    split at ht
    · rename_i hi _
      obtain rfl := Option.some.inj ht
      exact h.callerAside rfl rfl (by rw [hi]; exact ⟨rfl,rfl⟩) ⟨rfl,rfl⟩ rfl rfl rfl fun _ => id
    · cases ht
  | dropDeleted i =>
    simp only [Server.resetStep] at ht
    split at ht
    · rename_i hi
      obtain rfl := Option.some.inj ht
      exact h.drop (installing_aside rfl rfl (by rw [hi]; rfl) rfl) rfl rfl rfl rfl
    · cases ht
  | clearStore i =>
    simp only [Server.resetStep] at ht
    split at ht
    · rename_i hi
      have hok := hinv.callers i
      rw [hi] at hok
      have hout : (s.callers i).installs = none := by
        rw [hi]
        rfl
      obtain rfl := Option.some.inj ht
      refine ForgetInv.clear (fun a => ?_) rfl rfl
      refine (congrFun ?_ a).trans (hinv.not_installing hok.1 hout hok.2 a)
      exact installing_aside (p := .cleared s.globalStore) rfl rfl hout rfl
    · cases ht
  | returnReset i =>
    simp only [Server.resetStep] at ht
    split at ht
    · rename_i held hi
      obtain rfl := Option.some.inj ht
      have hout : (s.callers i).installs = none ∧ (s.callers i).note = none := by
        rw [hi]
        exact ⟨rfl,rfl⟩
      rcases held with _ | _ | _ | store
      · exact h.callerAside rfl rfl hout ⟨rfl,rfl⟩ rfl rfl rfl fun _ => id
      · exact h.callerAside rfl rfl hout ⟨rfl,rfl⟩ rfl rfl rfl fun _ => id
      · exact h.callerAside rfl rfl hout ⟨rfl,rfl⟩ rfl rfl rfl fun _ => id
      · exact h.callerAside rfl rfl hout ⟨rfl,rfl⟩ rfl rfl rfl fun _ => id
    · cases ht
  | _ => cases ht

theorem workerStep_forget (h : ForgetInv s) {a : Act κ} (ht : s.workerStep a = some t) :
    ForgetInv t := by
  cases a with
  | quit w =>
    simp only [Server.workerStep] at ht
    split at ht
    · rename_i hw
      split_ifs at ht
      obtain rfl := Option.some.inj ht
      exact h.workerAside rfl rfl (by rw [hw]; rfl) rfl rfl rfl rfl rfl
    · cases ht
  | timer w =>
    simp only [Server.workerStep] at ht
    split at ht
    · rename_i hw
      obtain rfl := Option.some.inj ht
      exact h.workerAside rfl rfl (by rw [hw]; rfl) rfl rfl rfl rfl rfl
    · cases ht
  | dial w answers =>
    simp only [Server.workerStep] at ht
    split at ht
    · rename_i hw
      split_ifs at ht
      · obtain rfl := Option.some.inj ht
        exact h.workerAside rfl rfl (by rw [hw]; rfl) rfl rfl rfl rfl rfl
      · obtain rfl := Option.some.inj ht
        exact h.workerAside rfl rfl (by rw [hw]; rfl) rfl rfl rfl rfl rfl
    · cases ht
  | claim w =>
    simp only [Server.workerStep] at ht
    split at ht
    · rename_i store hw _
      have hout : s.installing (.worker w) = none := by
        rw [Server.installing, hw]
        rfl
      split_ifs at ht
      · obtain rfl := Option.some.inj ht
        exact h.workerAside rfl rfl hout rfl rfl rfl rfl rfl
      · obtain rfl := Option.some.inj ht
        exact h.begin hout (installing_worker (q := .claimed store (.draining false)) rfl rfl) rfl
          rfl rfl rfl rfl
    · cases ht
  | workerInstall w =>
    simp only [Server.workerStep] at ht
    split at ht
    · rename_i store p hw
      have hmine : s.installing (.worker w) = some (store,p) := by
        rw [Server.installing, hw]
        rfl
      split at ht
      · obtain rfl := Option.some.inj ht
        exact h.finished hmine (installing_worker (q := .gone) rfl rfl) rfl rfl rfl rfl rfl
      · rename_i hover
        obtain rfl := Option.some.inj ht
        have hcallers : (s.install store p).1.callers = s.callers := by cases p <;> rfl
        have hworkers : (s.install store p).1.workers = s.workers := by cases p <;> rfl
        have hmove : Function.update (s.install store p).1.workers w
            (.claimed store (s.install store p).2) =
            Function.update s.workers w (.claimed store (s.install store p).2) := by rw [hworkers]
        refine h.install hmine hover
          (installing_worker (q := .claimed store (s.install store p).2) hmove hcallers) ?_ rfl rfl
          rfl rfl
        exact congrArg (fun callers i => (callers i).note) hcallers
    · cases ht
  | closeSuperseded w =>
    simp only [Server.workerStep] at ht
    split at ht
    · rename_i hw
      obtain rfl := Option.some.inj ht
      exact h.workerAside rfl rfl (by rw [hw]; rfl) rfl rfl rfl rfl rfl
    · cases ht
  | _ => cases ht

variable [DecidableEq κ]

theorem noteStep_forget (h : ForgetInv s) {a : Act κ} (hok : DrainsForInstalled s a)
    (ht : s.noteStep a = some t) : ForgetInv t := by
  cases a with
  | noteDeletedWhileUnavailable i key =>
    simp only [Server.noteStep] at ht
    split at ht
    · rename_i hi
      have hinstalls : (s.callers i).installs = none := by
        rw [hi]
        rfl
      have hnote : s.noting i = none := by
        rw [Server.noting, hi]
        rfl
      obtain rfl := Option.some.inj ht
      unfold Server.noteDeleted
      split_ifs
      · exact h.look (.inl hnote) (noting_caller (p := .noted) rfl)
          (installing_aside rfl rfl hinstalls rfl) rfl rfl rfl rfl (.inr (.inl rfl))
      · exact h.note hnote (noting_caller (p := .noted) rfl)
          (installing_aside rfl rfl hinstalls rfl) rfl rfl (fun k => List.mem_insert_iff) rfl
    · cases ht
  | getStore i =>
    simp only [Server.noteStep] at ht
    split at ht
    · rename_i hi
      have hinstalls : (s.callers i).installs = none := by
        rw [hi]
        rfl
      have hnote : s.noting i = some .noted := by
        rw [Server.noting, hi]
        rfl
      split at ht
      · rename_i store hstore
        obtain rfl := Option.some.inj ht
        exact h.look (.inr hnote) (noting_caller (p := .saw store) rfl)
          (installing_aside rfl rfl hinstalls rfl) rfl rfl rfl rfl (.inr (.inr ⟨store,rfl⟩))
      · rename_i hnone
        obtain rfl := Option.some.inj ht
        exact h.look (.inr hnote) (noting_caller (p := .idle) rfl)
          (installing_aside rfl rfl hinstalls rfl) rfl rfl rfl rfl (.inl hnone)
    · cases ht
  | takeDeletedWhileUnavailable i =>
    simp only [Server.noteStep] at ht
    split at ht
    · rename_i store hi
      have hinstalls : (s.callers i).installs = none := by
        rw [hi]
        rfl
      have hnote : s.noting i = some (.saw store) := by
        rw [Server.noting, hi]
        rfl
      obtain rfl := Option.some.inj ht
      exact h.take hnote (hok store hi)
        (noting_caller (p := .forgetting store s.deletedWhileUnavailable) rfl)
        (installing_aside rfl rfl hinstalls rfl) rfl rfl rfl rfl
    · cases ht
  | forgetSeen i =>
    simp only [Server.noteStep] at ht
    split at ht
    · rename_i store keys hi
      have hinstalls : (s.callers i).installs = none := by
        rw [hi]
        rfl
      have hnote : s.noting i = some (.forgetting store keys) := by
        rw [Server.noting, hi]
        rfl
      obtain rfl := Option.some.inj ht
      exact h.hand hnote (noting_caller (p := .idle) rfl)
        (installing_aside rfl rfl hinstalls rfl) rfl rfl rfl rfl
    · cases ht
  | _ => cases ht

theorem step_forget (hinv : StoreInv s) (h : ForgetInv s) {a : Act κ}
    (hok : DrainsForInstalled s a) (ht : s.step a = some t) : ForgetInv t := by
  obtain ha | ha | ha | ha := step_eq s a
  · exact initStep_forget h (ha.symm.trans ht)
  · exact resetStep_forget hinv h (ha.symm.trans ht)
  · exact workerStep_forget h (ha.symm.trans ht)
  · exact noteStep_forget h hok (ha.symm.trans ht)

omit [DecidableEq κ] in
theorem started_forget : ForgetInv (started κ) where
  listed := nofun
  published
    | .caller _ => nofun
    | .worker _ => nofun
  current := nofun
  kept after before key hsplit := by
    have hnil : ([] : List (Event κ)) = after++.noted key::before := hsplit
    simp at hnil

end Steps

section Runs

variable {s t : Server κ}

theorem Quiet.installing (h : Quiet s) (a : Party) : s.installing a = none := by
  cases a with
  | caller i =>
    have hi := h.callers i
    rw [Server.installing]
    cases hcaller : s.callers i with
    | opened store p => rw [hcaller] at hi; nomatch hi
    | _ => rfl
  | worker w =>
    have hw := h.workers w
    rw [Server.installing]
    cases hworker : s.workers w with
    | claimed store p => rw [hworker] at hw; nomatch hw
    | _ => rfl

theorem Quiet.noting (h : Quiet s) (i : ℕ) : s.noting i = none := by
  have hi := h.callers i
  rw [Server.noting]
  cases hcaller : s.callers i with
  | noted => rw [hcaller] at hi; nomatch hi
  | saw store => rw [hcaller] at hi; nomatch hi
  | forgetting store keys => rw [hcaller] at hi; nomatch hi
  | _ => rfl

theorem ForgetInv.forgotten (h : ForgetInv s) : DeletesForgotten s := by
  intro hquiet ⟨store,hstore⟩
  have hlist : s.deletedWhileUnavailable = [] := by
    by_contra hlist
    obtain hnone | ⟨a,_,_,ha,_⟩ | ⟨i,hi | ⟨_,hi⟩⟩ := h.listed hlist
    · exact hnone store hstore
    · cases (hquiet.installing a).symm.trans ha
    · cases (hquiet.noting i).symm.trans hi
    · cases (hquiet.noting i).symm.trans hi
  refine ⟨hlist,fun after before key hsplit => ?_⟩
  obtain hold | ⟨_,_,_,⟨a,_,ha⟩ | ⟨i,hi⟩,_⟩ | ⟨held,keys,hsound,hforgot,hkey⟩ :=
    h.kept after before key hsplit
  · exact absurd hold (by simp [hlist])
  · cases (hquiet.installing a).symm.trans ha
  · cases (hquiet.noting i).symm.trans hi
  · obtain hin | ⟨a,p,ha⟩ := hsound
    · exact ⟨held,hin,keys,hforgot,hkey⟩
    · cases (hquiet.installing a).symm.trans ha

variable [DecidableEq κ]

/-- What is left of the workers from before a reset is closed, there is one worker that is not
retired, and where every drain is for the installed store no noted delete is lost. -/
theorem reconnect_sound {as : List (Act κ)} (hr : run Server.step (started κ) as = some t) :
    (∀ cs i bs, as = cs++[Act.returnReset i]++bs → ∀ s,
      run Server.step (started κ) (cs++[Act.returnReset i]) = some s → ResetFinal s t) ∧
    OneUnretired t ∧
    (Meets Server.step DrainsForInstalled (started κ) as → DeletesForgotten t) := by
  refine ⟨?_,?_,?_⟩
  · rintro cs i bs rfl s hs
    obtain ⟨u,hu,hbs⟩ := run_append_some Server.step hr
    obtain rfl := Option.some.inj (hu.symm.trans hs)
    exact reset_final hs hbs
  · exact (run_invariant (fun _ _ _ h ht => step_inv h ht) started_inv hr).one_unretired
  · intro hm
    have hstep : ∀ (s : Server κ) a t, StoreInv s ∧ ForgetInv s → DrainsForInstalled s a →
        s.step a = some t → StoreInv t ∧ ForgetInv t :=
      fun _ _ _ h hok ht => ⟨step_inv h.1 ht,step_forget h.1 h.2 hok ht⟩
    exact (meets_invariant hstep ⟨started_inv,started_forget⟩ hm hr).2.forgotten

end Runs

/-- The database does not answer, and a worker is started. -/
def outage (w : ℕ) : List (Act String) :=
  [.initStore 0 ⟨.postgres,"","dsn"⟩,.openStore 0 false,.startPostgresReconnect 0 w,.returnInit 0]

def reset : List (Act String) :=
  [.resetStore 0,.stopPostgresReconnect 0,.dropDeleted 0,.clearStore 0,.returnReset 0]

/-- The worker of before the reset finds that it is superseded; the next one reconnects while a
delete is noted. -/
def recovered : List (Act String) :=
  outage 1++[Act.claim 0,.closeSuperseded 0,.timer 1,.dial 1 true,.claim 1,.workerInstall 1,
    .workerInstall 1,.noteDeletedWhileUnavailable 1 "a",.workerInstall 1,.getStore 1,
    .takeDeletedWhileUnavailable 1,.forgetSeen 1,.workerInstall 1,.workerInstall 1,
    .workerInstall 1]

theorem reconnect_sound_recovered : ∃ s t,
    run Server.step (started String) (outage 0++[Act.timer 0,.dial 0 true]++reset) = some s ∧
    run Server.step (started String) (outage 0++[Act.timer 0,.dial 0 true]++reset++recovered) =
      some t ∧
    ResetFinal s t ∧ OneUnretired t ∧ DeletesForgotten t := by
  have hs : ∃ s, run Server.step (started String) (outage 0++[Act.timer 0,.dial 0 true]++reset) =
    some s := ⟨_,rfl⟩
  have ht : ∃ t,
      run Server.step (started String) (outage 0++[Act.timer 0,.dial 0 true]++reset++recovered) =
        some t := ⟨_,rfl⟩
  obtain ⟨s,hs⟩ := hs
  obtain ⟨t,ht⟩ := ht
  obtain ⟨hfinal,hone,hforgotten⟩ := reconnect_sound ht
  refine ⟨s,t,hs,ht,hfinal (outage 0++[Act.timer 0,.dial 0 true]++reset.dropLast) 0 recovered rfl s hs,
    hone,hforgotten ?_⟩
  refine meets_cons trivial rfl (meets_cons trivial rfl (meets_cons trivial rfl ?_))
  refine meets_cons trivial rfl (meets_cons trivial rfl (meets_cons trivial rfl ?_))
  refine meets_cons trivial rfl (meets_cons trivial rfl (meets_cons trivial rfl ?_))
  refine meets_cons trivial rfl (meets_cons trivial rfl (meets_cons trivial rfl ?_))
  refine meets_cons trivial rfl (meets_cons trivial rfl (meets_cons trivial rfl ?_))
  refine meets_cons trivial rfl (meets_cons trivial rfl (meets_cons trivial rfl ?_))
  refine meets_cons trivial rfl (meets_cons trivial rfl (meets_cons trivial rfl ?_))
  refine meets_cons trivial rfl (meets_cons trivial rfl (meets_cons trivial rfl ?_))
  refine meets_cons trivial rfl (meets_cons ?_ rfl (meets_cons trivial rfl ?_))
  · rintro _ ⟨⟩
    exact .inl rfl
  · exact meets_cons trivial rfl (meets_cons trivial rfl (meets_cons trivial rfl trivial))

/-- A call has seen the store before a reset, and drains the list after it for that store. -/
def stolen : List (Act String) :=
  outage 0++[Act.timer 0,.dial 0 true,.claim 0,.workerInstall 0,.workerInstall 0,.workerInstall 0,
    .noteDeletedWhileUnavailable 1 "a",.getStore 1,.workerInstall 0,.workerInstall 0,
    .workerInstall 0]++reset++outage 1++[Act.noteDeletedWhileUnavailable 2 "b",.getStore 2,
    .takeDeletedWhileUnavailable 1,.forgetSeen 1,.timer 1,.dial 1 true,.claim 1,.workerInstall 1,
    .workerInstall 1,.workerInstall 1,.workerInstall 1,.workerInstall 1,.workerInstall 1]

theorem delete_not_forgotten : ∃ t,
    run Server.step (started String) stolen = some t ∧ ¬DeletesForgotten t := by
  refine ⟨_,rfl,fun h => ?_⟩
  have hcallers : ∀ {s : Server String}, (s.callers 0).busy = false → (s.callers 1).busy = false →
      (s.callers 2).busy = false → (∀ i, (s.callers (i+3)).busy = false) →
      ∀ i, (s.callers i).busy = false := by
    intro s h0 h1 h2 hrest i
    rcases i with _ | _ | _ | i
    · exact h0
    · exact h1
    · exact h2
    · exact hrest i
  have hworkers : ∀ {s : Server String}, (s.workers 0).busy = false → (s.workers 1).busy = false →
      (∀ w, (s.workers (w+2)).busy = false) → ∀ w, (s.workers w).busy = false := by
    intro s h0 h1 hrest w
    rcases w with _ | _ | w
    · exact h0
    · exact h1
    · exact hrest w
  have hforgotten := (h ⟨hcallers rfl rfl rfl fun _ => rfl,hworkers rfl rfl fun _ => rfl⟩
    ⟨_,rfl⟩).2
  obtain ⟨store,hin,keys,hforgot,hkey⟩ := hforgotten [.forgot ⟨some 1,1⟩ [],.forgot ⟨some 1,1⟩ [],
    .forgot ⟨some 0,0⟩ ["b"]] [] "b" rfl
  obtain rfl : store = ⟨some 1,1⟩ := List.mem_singleton.mp hin
  simp only [List.mem_cons, Event.forgot.injEq, List.not_mem_nil, or_false] at hforgot
  rcases hforgot with ⟨_,rfl⟩ | ⟨_,rfl⟩ | ⟨hother,_⟩
  · nomatch hkey
  · nomatch hkey
  · exact absurd hother (by decide)

end Radar.Reconnect
