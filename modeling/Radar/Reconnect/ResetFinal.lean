import Mathlib.Tactic.SplitIfs
import Radar.Reconnect.PostgresStores

/-!
# What a reset leaves behind stays closed

At most one worker is not retired: the one whose quit channel is the current
one. While nobody's channel is, no worker publishes, which is what the opening,
the resetting and the closing of a store rely on.
-/

set_option autoImplicit false

namespace Radar.Reconnect

open Radar.Run

variable {κ : Type*}

/-- The store is published. -/
def Install.done : Install κ → Bool
  | .draining last => last
  | .forgetting last _ => last
  | .publishing => false
  | .finished => true

def Install.published (store : PostgresStore) (p : Install κ) : Option EventStore :=
  if p.done then some (.postgres store) else none

def Worker.running : Worker κ → Bool
  | .waiting => true
  | .dialing => true
  | .dialed _ => true
  | .claimed _ _ => true
  | .superseded _ => true
  | _ => false

/-- A worker that runs, with its quit channel open. -/
def Unretired (s : Server κ) (w : ℕ) : Prop := (s.workers w).running = true ∧ w ∉ s.quits

def OneUnretired (s : Server κ) : Prop := ∀ v w, Unretired s v → Unretired s w → v = w

/-- A store the worker has dialed and will close, unless it still has its claim. -/
def Worker.Carries (store : PostgresStore) : Worker κ → Prop
  | .dialed held => held = store
  | .superseded held => held = store
  | _ => False

/-- Nothing that a worker of `s` dialed is installed in `t`, or stays open. -/
def ResetFinal (s t : Server κ) : Prop :=
  ∀ w, s.workers w ≠ .unborn → ∀ store ∈ t.dialed, store.dialer = some w →
    t.globalStore ≠ some (.postgres store) ∧
      (store ∈ t.closed ∨ (t.workers w).Carries store)

/-- What the claims of callers and workers are about. -/
structure Core where
  initMu : Option ℕ
  once : Bool
  store : Option EventStore
  mu : Bool
  quit : Option ℕ
  quits : List ℕ

def Server.core (s : Server κ) : Core :=
  ⟨s.globalStoreInitMu,s.globalStoreOnce,s.globalStore,s.postgresReconnectMu,
    s.postgresReconnectQuit,s.quits⟩

def Caller.Ok (c : Core) (i : ℕ) : Caller κ → Prop
  | .initializing _ => c.initMu = some i ∧ c.quit = none ∧ c.once = true ∧ c.store = none
  | .opened store p =>
    c.initMu = some i ∧ c.quit = none ∧ c.once = true ∧ c.store = p.published store ∧
      store.dialer = none
  | .starting => c.initMu = some i ∧ c.quit = none ∧ c.once = true ∧ c.store = none
  | .initialized => c.initMu = some i
  | .resetting => c.initMu = some i
  | .stopping => c.initMu = some i ∧ c.quit = none
  | .stopped => c.initMu = some i ∧ c.quit = none
  | .cleared _ => c.initMu = some i ∧ c.quit = none ∧ c.store = none
  | _ => True

def Worker.Ok (c : Core) (w : ℕ) : Worker κ → Prop
  | .unborn => w ∉ c.quits ∧ c.quit ≠ some w
  | .waiting => w ∈ c.quits ∨ c.quit = some w
  | .dialing => w ∈ c.quits ∨ c.quit = some w
  | .dialed store => (w ∈ c.quits ∨ c.quit = some w) ∧ store.dialer = some w
  | .claimed store p =>
    c.quit = some w ∧ c.mu = true ∧ c.store = p.published store ∧ store.dialer = some w
  | .superseded store => w ∈ c.quits ∧ store.dialer = some w
  | .gone => c.quit ≠ some w

def Worker.Has (store : PostgresStore) : Worker κ → Prop
  | .dialed held => held = store
  | .claimed held _ => held = store
  | .superseded held => held = store
  | _ => False

/-- A store that the worker dialed is closed, held or about to be closed by the one who cleared it. -/
def Accounted (s : Server κ) (store : PostgresStore) (w : ℕ) : Prop :=
  store ∈ s.closed ∨ (s.workers w).Has store ∨ s.globalStore = some (.postgres store) ∨
    ∃ i, s.callers i = .cleared (some (.postgres store))

structure StoreInv (s : Server κ) : Prop where
  callers : ∀ i, (s.callers i).Ok s.core i
  workers : ∀ w, (s.workers w).Ok s.core w
  live : ∀ w, s.postgresReconnectQuit = some w → w ∉ s.quits ∧ s.globalStoreOnce = true
  awaited : ∀ w, s.postgresReconnectQuit = some w →
    s.globalStore = none ∨ ∃ store p, s.workers w = .claimed store p
  fresh : s.globalStoreOnce = false → s.globalStore = none
  stores : ∀ store ∈ s.dialed, ∀ w, store.dialer = some w → Accounted s store w

section Claims

variable {c d : Core} {i w : ℕ}

/-- Without the lock of `InitStore` and `ResetStore` a caller relies on nothing. -/
theorem Caller.Ok.unlocked {p : Caller κ} (h : p.Ok c i) (hmu : c.initMu ≠ some i) : p.Ok d i := by
  cases p with
  | initializing cfg => exact absurd h.1 hmu
  | opened store p => exact absurd h.1 hmu
  | starting => exact absurd h.1 hmu
  | initialized => exact absurd h hmu
  | resetting => exact absurd h hmu
  | stopping => exact absurd h.1 hmu
  | stopped => exact absurd h.1 hmu
  | cleared store => exact absurd h.1 hmu
  | _ => trivial

/-- With a worker that is not retired a caller relies on its lock only. -/
theorem Caller.Ok.awaiting {p : Caller κ} (h : p.Ok c i) (hquit : c.quit ≠ none)
    (hmu : d.initMu = c.initMu) : p.Ok d i := by
  cases p with
  | initializing cfg => exact absurd h.2.1 hquit
  | opened store p => exact absurd h.2.1 hquit
  | starting => exact absurd h.2.1 hquit
  | initialized => exact hmu.trans h
  | resetting => exact hmu.trans h
  | stopping => exact absurd h.2 hquit
  | stopped => exact absurd h.2 hquit
  | cleared store => exact absurd h.2.1 hquit
  | _ => trivial

/-- A worker whose channel is not the current one relies on its retirement only. -/
theorem Worker.Ok.retired {p : Worker κ} (h : p.Ok c w) (hc : c.quit ≠ some w)
    (hd : d.quit ≠ some w) (hquits : d.quits = c.quits) : p.Ok d w := by
  cases p with
  | unborn => exact ⟨hquits ▸ h.1,hd⟩
  | waiting => exact .inl (hquits ▸ h.resolve_right hc)
  | dialing => exact .inl (hquits ▸ h.resolve_right hc)
  | dialed store => exact ⟨.inl (hquits ▸ h.1.resolve_right hc),h.2⟩
  | claimed store p => exact absurd h.1 hc
  | superseded store => exact ⟨hquits ▸ h.1,h.2⟩
  | gone => exact hd

/-- A reset retires whoever is not claiming. -/
theorem Worker.Ok.stop {p : Worker κ} (h : p.Ok c w) (hmu : c.mu = false) (hd : d.quit = none)
    (hquits : d.quits = c.quit.toList++c.quits) : p.Ok d w := by
  have hout : d.quit ≠ some w := by simp [hd]
  have hin (hw : w ∈ c.quits ∨ c.quit = some w) : w ∈ d.quits := by
    rw [hquits, List.mem_append, Option.mem_toList]
    exact hw.symm
  cases p with
  | unborn =>
    refine ⟨?_,hout⟩
    rw [hquits, List.mem_append, Option.mem_toList]
    exact fun hw => hw.elim h.2 h.1
  | waiting => exact .inl (hin h)
  | dialing => exact .inl (hin h)
  | dialed store => exact ⟨.inl (hin h.1),h.2⟩
  | claimed store p => exact absurd (hmu.symm.trans h.2.1) (by simp)
  | superseded store => exact ⟨hin (.inl h.1),h.2⟩
  | gone => exact hout

end Claims

section Updates

variable {s t : Server κ} {i j v w : ℕ} {p : Caller κ} {q : Worker κ}

theorem caller_self (ht : t.callers = Function.update s.callers i p) : t.callers i = p := by
  rw [ht, Function.update_self]

theorem caller_of_ne (ht : t.callers = Function.update s.callers i p) (hj : j ≠ i) :
    t.callers j = s.callers j := by rw [ht, Function.update_of_ne hj]

theorem worker_self (ht : t.workers = Function.update s.workers w q) : t.workers w = q := by
  rw [ht, Function.update_self]

theorem worker_of_ne (ht : t.workers = Function.update s.workers w q) (hv : v ≠ w) :
    t.workers v = s.workers v := by rw [ht, Function.update_of_ne hv]

/-- What everybody else relies on is unchanged, and the one who moves has what he relies on. -/
theorem callers_update (ht : t.callers = Function.update s.callers i p) (hp : p.Ok t.core i)
    (hrest : ∀ j, j ≠ i → (s.callers j).Ok t.core j) (j : ℕ) : (t.callers j).Ok t.core j := by
  rcases eq_or_ne j i with rfl | hj
  · rw [caller_self ht]
    exact hp
  · rw [caller_of_ne ht hj]
    exact hrest j hj

theorem workers_update (ht : t.workers = Function.update s.workers w q) (hq : q.Ok t.core w)
    (hrest : ∀ v, v ≠ w → (s.workers v).Ok t.core v) (v : ℕ) : (t.workers v).Ok t.core v := by
  rcases eq_or_ne v w with rfl | hv
  · rw [worker_self ht]
    exact hq
  · rw [worker_of_ne ht hv]
    exact hrest v hv

/-- A caller who is not closing a store moves. -/
theorem Accounted.caller {store : PostgresStore} (h : Accounted s store w)
    (ht : t.callers = Function.update s.callers i p) (hworkers : t.workers = s.workers)
    (hclosed : t.closed = s.closed) (hstore : t.globalStore = s.globalStore ∨ s.globalStore = none)
    (hi : ∀ held, s.callers i ≠ .cleared held) : Accounted t store w := by
  obtain hold | hhas | hglobal | ⟨j,hj⟩ := h
  · exact .inl (hclosed ▸ hold)
  · exact .inr (.inl (hworkers ▸ hhas))
  · refine .inr (.inr (.inl ?_))
    rcases hstore with hstore | hstore
    · exact hstore.trans hglobal
    · exact absurd (hstore.symm.trans hglobal) (by simp)
  · refine .inr (.inr (.inr ⟨j,?_⟩))
    rw [caller_of_ne ht]
    · exact hj
    · rintro rfl
      exact hi _ hj

/-- A worker moves, and what it had it has still, or it is closed or installed. -/
theorem Accounted.worker {store : PostgresStore} (h : Accounted s store w)
    (ht : t.workers = Function.update s.workers v q) (hcallers : t.callers = s.callers)
    (hclosed : ∀ held ∈ s.closed, held ∈ t.closed)
    (hstore : t.globalStore = s.globalStore ∨ s.globalStore = none)
    (hv : (s.workers v).Has store → q.Has store ∨ store ∈ t.closed ∨
      t.globalStore = some (.postgres store)) : Accounted t store w := by
  obtain hold | hhas | hglobal | hcleared := h
  · exact .inl (hclosed _ hold)
  · rcases eq_or_ne w v with rfl | hw
    · obtain hq | hc | hg := hv hhas
      · exact .inr (.inl (by rw [worker_self ht]; exact hq))
      · exact .inl hc
      · exact .inr (.inr (.inl hg))
    · exact .inr (.inl (by rw [worker_of_ne ht hw]; exact hhas))
  · refine .inr (.inr (.inl ?_))
    rcases hstore with hstore | hstore
    · exact hstore.trans hglobal
    · exact absurd (hstore.symm.trans hglobal) (by simp)
  · exact .inr (.inr (.inr (hcallers ▸ hcleared)))

end Updates

section Closing

variable (s : Server κ) (held : Option EventStore)

@[simp] theorem closeStore_core : (s.closeStore held).core = s.core := by
  rcases held with _ | _ | _ | store <;> rfl

@[simp] theorem closeStore_callers : (s.closeStore held).callers = s.callers := by
  rcases held with _ | _ | _ | store <;> rfl

@[simp] theorem closeStore_workers : (s.closeStore held).workers = s.workers := by
  rcases held with _ | _ | _ | store <;> rfl

@[simp] theorem closeStore_dialed : (s.closeStore held).dialed = s.dialed := by
  rcases held with _ | _ | _ | store <;> rfl

theorem mem_closeStore (store : PostgresStore) : store ∈ (s.closeStore held).closed ↔
    held = some (.postgres store) ∨ store ∈ s.closed := by
  rcases held with _ | _ | _ | other
  · simp [Server.closeStore]
  · simp [Server.closeStore]
  · simp [Server.closeStore]
  · simp [Server.closeStore, Server.close, eq_comm]

end Closing

section Steps

variable {s t : Server κ} {i w : ℕ} {p : Caller κ} {q : Worker κ}

/-- Whoever cleared the store closes it. -/
theorem Accounted.closed {store : PostgresStore} {held : Option EventStore}
    (h : Accounted s store w) (hi : s.callers i = .cleared held)
    (ht : t.callers = Function.update s.callers i .idle) (hworkers : t.workers = s.workers)
    (hstore : t.globalStore = s.globalStore) (hclosed : t.closed = (s.closeStore held).closed) :
    Accounted t store w := by
  obtain hold | hhas | hglobal | ⟨j,hj⟩ := h
  · refine .inl ?_
    rw [hclosed, mem_closeStore]
    exact .inr hold
  · exact .inr (.inl (hworkers ▸ hhas))
  · exact .inr (.inr (.inl (hstore.trans hglobal)))
  · rcases eq_or_ne j i with rfl | hji
    · refine .inl ?_
      rw [hclosed, mem_closeStore]
      exact .inl (Caller.cleared.inj (hi.symm.trans hj))
    · exact .inr (.inr (.inr ⟨j,by rw [caller_of_ne ht hji]; exact hj⟩))

/-- The holder of the first lock moves while no worker's channel is current. -/
theorem StoreInv.owner (h : StoreInv s) (ht : t.callers = Function.update s.callers i p)
    (hworkers : t.workers = s.workers) (hmu : ∀ j, j ≠ i → s.globalStoreInitMu ≠ some j)
    (hs : s.postgresReconnectQuit = none) (htquit : t.postgresReconnectQuit = none)
    (hquits : t.quits = s.quits) (hp : p.Ok t.core i)
    (hfresh : t.globalStoreOnce = false → t.globalStore = none)
    (hstores : ∀ store ∈ t.dialed, ∀ w, store.dialer = some w → Accounted t store w) :
    StoreInv t where
  callers := callers_update ht hp fun j hj => (h.callers j).unlocked (hmu j hj)
  workers v := by
    rw [hworkers]
    have hout {quit : Option ℕ} (hquit : quit = none) : quit ≠ some v := by simp [hquit]
    exact (h.workers v).retired (hout hs) (hout htquit) hquits
  live v hv := absurd (htquit.symm.trans hv) (by simp)
  awaited v hv := absurd (htquit.symm.trans hv) (by simp)
  fresh := hfresh
  stores := hstores

/-- A caller takes or leaves the first lock, or takes no part in it. -/
theorem StoreInv.lock (h : StoreInv s) {m : Option ℕ}
    (hmu : m = s.globalStoreInitMu ∨ ∀ j, j ≠ i → s.globalStoreInitMu ≠ some j)
    (hp : p.Ok ((s.lockInit m).setCaller i p).core i) (hi : ∀ held, s.callers i ≠ .cleared held) :
    StoreInv ((s.lockInit m).setCaller i p) where
  callers := by
    refine callers_update (s := s) rfl hp fun j hj => ?_
    rcases hmu with rfl | hmu
    · exact h.callers j
    · exact (h.callers j).unlocked (hmu j hj)
  workers v := by
    have hold := h.workers v
    change (s.workers v).Ok _ v
    cases hv : s.workers v <;> (rw [hv] at hold; exact hold)
  live := h.live
  awaited := h.awaited
  fresh := h.fresh
  stores store hstore v hv := (h.stores store hstore v hv).caller rfl rfl rfl (.inl rfl) hi

/-- A caller of `NoteDeletedWhileUnavailable` moves. -/
theorem StoreInv.note (h : StoreInv s) (ht : t.callers = Function.update s.callers i p)
    (hworkers : t.workers = s.workers) (hcore : t.core = s.core) (hdialed : t.dialed = s.dialed)
    (hclosed : t.closed = s.closed) (hp : ∀ c, p.Ok c i)
    (hi : ∀ held, s.callers i ≠ .cleared held) : StoreInv t := by
  have hstore : t.globalStore = s.globalStore := congrArg Core.store hcore
  have honce : t.globalStoreOnce = s.globalStoreOnce := congrArg Core.once hcore
  have hquit : t.postgresReconnectQuit = s.postgresReconnectQuit := congrArg Core.quit hcore
  have hquits : t.quits = s.quits := congrArg Core.quits hcore
  constructor
  · exact callers_update ht (hp _) fun j _ => hcore ▸ h.callers j
  · rw [hworkers, hcore]
    exact h.workers
  · rw [hquit, hquits, honce]
    exact h.live
  · rw [hquit, hstore, hworkers]
    exact h.awaited
  · rw [honce, hstore]
    exact h.fresh
  · rw [hdialed]
    exact fun store hs v hv => (h.stores store hs v hv).caller ht hworkers hclosed (.inl hstore) hi

/-- A worker moves, and only it relies on what changes. -/
theorem StoreInv.worker (h : StoreInv s) (hq : q.Ok s.core w)
    (hw : ∀ store p, s.workers w ≠ .claimed store p)
    (hhas : ∀ store, (s.workers w).Has store → q.Has store ∨ store ∈ s.closed) :
    StoreInv (s.setWorker w q) where
  callers := h.callers
  workers := workers_update (s := s) rfl hq fun v _ => h.workers v
  live := h.live
  awaited v hv := by
    obtain hnone | ⟨store,p,hclaimed⟩ := h.awaited v hv
    · exact .inl hnone
    · refine .inr ⟨store,p,?_⟩
      rw [worker_of_ne (s := s) rfl]
      · exact hclaimed
      · rintro rfl
        exact hw store p hclaimed
  fresh := h.fresh
  stores store hstore v hv :=
    (h.stores store hstore v hv).worker rfl rfl (fun _ hc => hc) (.inl rfl) fun hold =>
      (hhas store hold).imp_right .inl

/-- The worker whose channel is the current one moves. -/
theorem StoreInv.current (h : StoreInv s) (hquit : s.postgresReconnectQuit = some w)
    (ht : t.workers = Function.update s.workers w q) (hcallers : t.callers = s.callers)
    (hmu : t.globalStoreInitMu = s.globalStoreInitMu) (hquits : t.quits = s.quits)
    (honce : t.globalStoreOnce = s.globalStoreOnce) (hdialed : t.dialed = s.dialed)
    (hclosed : t.closed = s.closed) (hstore : t.globalStore = s.globalStore ∨ s.globalStore = none)
    (hq : q.Ok t.core w)
    (hnext : t.postgresReconnectQuit = none ∨
      t.postgresReconnectQuit = some w ∧ ∃ store p, q = .claimed store p)
    (hhas : ∀ store, (s.workers w).Has store → q.Has store ∨
      t.globalStore = some (.postgres store)) : StoreInv t := by
  have hlive := h.live w hquit
  have hcurrent {v : ℕ} (hv : t.postgresReconnectQuit = some v) :
      v = w ∧ ∃ store p, q = .claimed store p := by
    rcases hnext with hnone | ⟨hsome,hclaimed⟩
    · exact absurd (hnone.symm.trans hv) (by simp)
    · exact ⟨Option.some.inj (hv.symm.trans hsome),hclaimed⟩
  constructor
  · intro i
    rw [hcallers]
    exact (h.callers i).awaiting (fun hnone => by cases hquit.symm.trans hnone) hmu
  · refine workers_update ht hq fun v hv => (h.workers v).retired ?_ ?_ hquits
    · exact fun hold => hv (Option.some.inj (hold.symm.trans hquit))
    · exact fun hnew => hv (hcurrent hnew).1
  · intro v hv
    obtain ⟨rfl,_⟩ := hcurrent hv
    rw [hquits, honce]
    exact hlive
  · intro v hv
    obtain ⟨rfl,store,p,rfl⟩ := hcurrent hv
    exact .inr ⟨store,p,worker_self ht⟩
  · intro hno
    exact absurd (hlive.2.symm.trans (honce.symm.trans hno)) (by simp)
  · intro store hs v hv
    rw [hdialed] at hs
    refine (h.stores store hs v hv).worker ht hcallers (fun _ hc => hclosed ▸ hc) hstore ?_
    exact fun hold => (hhas store hold).imp_right .inr

/-- A worker is started, where there is none. -/
theorem StoreInv.start (h : StoreInv s) (hi : s.callers i = .starting)
    (hw : s.workers w = .unborn) :
    StoreInv (({ s with postgresReconnectQuit := some w }.setWorker w .waiting).setCaller i
      .initialized) := by
  have hstarting := h.callers i
  rw [hi] at hstarting
  obtain ⟨hmu,hquit,honce,hstore⟩ := hstarting
  have hunborn := h.workers w
  rw [hw] at hunborn
  constructor
  · refine callers_update (s := s) rfl hmu fun j hj => (h.callers j).unlocked ?_
    exact fun hother => hj (Option.some.inj (hother.symm.trans hmu))
  · refine workers_update (s := s) rfl (.inr rfl) fun v hv => (h.workers v).retired ?_ ?_ rfl
    · exact fun hold => by cases hquit.symm.trans hold
    · exact fun hnew => hv (Option.some.inj hnew).symm
  · intro v hv
    obtain rfl := Option.some.inj hv
    exact ⟨hunborn.1,honce⟩
  · exact fun _ _ => .inl hstore
  · exact fun _ => hstore
  · intro store hs v hv
    have haccounted : Accounted (s.setWorker w .waiting) store v :=
      (h.stores store hs v hv).worker rfl rfl (fun _ hc => hc) (.inl rfl) (by rw [hw]; nofun)
    exact haccounted.caller (i := i) rfl rfl rfl (.inl rfl) (by simp [Server.setWorker, hi])

theorem StoreInv.stop (h : StoreInv s) (hi : s.callers i = .resetting)
    (hfree : s.postgresReconnectMu = false) :
    StoreInv ({ s with
      postgresReconnectMu := true
      postgresReconnectQuit := none
      quits := s.postgresReconnectQuit.toList++s.quits }.setCaller i .stopping) := by
  have hmu := h.callers i
  rw [hi] at hmu
  constructor
  · refine callers_update (s := s) rfl ⟨hmu,rfl⟩ fun j hj => (h.callers j).unlocked ?_
    exact fun hother => hj (Option.some.inj (hother.symm.trans hmu))
  · exact fun v => (h.workers v).stop hfree rfl rfl
  · exact fun _ hv => nomatch hv
  · exact fun _ hv => nomatch hv
  · exact h.fresh
  · intro store hs v hv
    exact (h.stores store hs v hv).caller (i := i) rfl rfl rfl (.inl rfl) (by simp [hi])

/-- The lock is another's as long as `i` has it. -/
theorem owned (hmu : s.globalStoreInitMu = some i) {j : ℕ} (hj : j ≠ i) :
    s.globalStoreInitMu ≠ some j :=
  fun hother => hj (Option.some.inj (hother.symm.trans hmu))

theorem initStep_inv (h : StoreInv s) {a : Act κ} (ht : s.initStep a = some t) : StoreInv t := by
  cases a with
  | initStore i cfg =>
    simp only [Server.initStep] at ht
    split at ht
    · rename_i hi hfree
      have hmu : ∀ j, j ≠ i → s.globalStoreInitMu ≠ some j := by simp [hfree]
      split_ifs at ht with honce
      · obtain rfl := Option.some.inj ht
        exact h.lock (.inr hmu) rfl (by simp [hi])
      · obtain rfl := Option.some.inj ht
        have hstore : s.globalStore = none := h.fresh (by simpa using honce)
        have hquit : s.postgresReconnectQuit = none := by
          cases hq : s.postgresReconnectQuit with
          | none => rfl
          | some w => exact absurd (h.live w hq).2 honce
        refine h.owner rfl rfl hmu hquit hquit rfl ⟨rfl,hquit,rfl,hstore⟩ (by nofun) ?_
        exact fun store hs v hv => (h.stores store hs v hv).caller (i := i) rfl rfl rfl (.inl rfl)
          (by simp [hi])
    · cases ht
  | openStore i answers =>
    simp only [Server.initStep] at ht
    split at ht
    · rename_i cfg hi
      have hok := h.callers i
      rw [hi] at hok
      obtain ⟨hmu,hquit,honce,hstore⟩ := hok
      have hcleared : ∀ held, s.callers i ≠ .cleared held := by simp [hi]
      -- What is opened here is not a worker's; nothing was installed before.
      have hmove {t : Server κ} {p : Caller κ} (ht : t.callers = Function.update s.callers i p)
          (hworkers : t.workers = s.workers) (hclosed : t.closed = s.closed)
          (hdialed : ∀ store ∈ t.dialed, store ∈ s.dialed ∨ store.dialer = none)
          (htquit : t.postgresReconnectQuit = s.postgresReconnectQuit)
          (hquits : t.quits = s.quits) (htonce : t.globalStoreOnce = s.globalStoreOnce)
          (hp : p.Ok t.core i) : StoreInv t := by
        refine h.owner ht hworkers (fun j => owned hmu) hquit (htquit.trans hquit) hquits hp ?_ ?_
        · exact fun hno => by cases honce.symm.trans (htonce.symm.trans hno)
        · intro store hs v hv
          rcases hdialed store hs with hold | hnew
          · exact (h.stores store hold v hv).caller ht hworkers hclosed (.inr hstore) hcleared
          · exact absurd (hnew.symm.trans hv) (by simp)
      split at ht
      · split at ht
        · obtain rfl := Option.some.inj ht
          exact hmove rfl rfl rfl (fun _ => .inl) rfl rfl rfl hmu
        · obtain rfl := Option.some.inj ht
          exact hmove rfl rfl rfl (fun _ => .inl) rfl rfl rfl hmu
      · obtain rfl := Option.some.inj ht
        exact hmove rfl rfl rfl (fun _ => .inl) rfl rfl rfl hmu
      · split_ifs at ht
        · obtain rfl := Option.some.inj ht
          exact hmove rfl rfl rfl (fun _ => .inl) rfl rfl rfl hmu
        · obtain rfl := Option.some.inj ht
          refine hmove rfl rfl rfl ?_ rfl rfl rfl ⟨hmu,hquit,honce,hstore,rfl⟩
          intro store hs
          rcases List.mem_cons.mp hs with rfl | hs
          · exact .inr rfl
          · exact .inl hs
        · obtain rfl := Option.some.inj ht
          exact hmove rfl rfl rfl (fun _ => .inl) rfl rfl rfl ⟨hmu,hquit,honce,hstore⟩
    · cases ht
  | install i =>
    simp only [Server.initStep] at ht
    split at ht
    · rename_i store p hi
      have hok := h.callers i
      rw [hi] at hok
      obtain ⟨hmu,hquit,honce,hstore,hdialer⟩ := hok
      have hcleared : ∀ held, s.callers i ≠ .cleared held := by simp [hi]
      have hmove {t : Server κ} {p : Caller κ} (ht : t.callers = Function.update s.callers i p)
          (hworkers : t.workers = s.workers) (hclosed : t.closed = s.closed)
          (hdialed : t.dialed = s.dialed)
          (htquit : t.postgresReconnectQuit = s.postgresReconnectQuit)
          (hquits : t.quits = s.quits) (htonce : t.globalStoreOnce = s.globalStoreOnce)
          (hglobal : t.globalStore = s.globalStore ∨ s.globalStore = none)
          (hp : p.Ok t.core i) : StoreInv t := by
        refine h.owner ht hworkers (fun j => owned hmu) hquit (htquit.trans hquit) hquits hp ?_ ?_
        · exact fun hno => by cases honce.symm.trans (htonce.symm.trans hno)
        · intro store hs v hv
          rw [hdialed] at hs
          exact (h.stores store hs v hv).caller ht hworkers hclosed hglobal hcleared
      split at ht
      · obtain rfl := Option.some.inj ht
        exact hmove rfl rfl rfl rfl rfl rfl rfl (.inl rfl) hmu
      · obtain rfl := Option.some.inj ht
        cases p with
        | draining last =>
          exact hmove rfl rfl rfl rfl rfl rfl rfl (.inl rfl) ⟨hmu,hquit,honce,hstore,hdialer⟩
        | forgetting last keys =>
          refine hmove rfl rfl rfl rfl rfl rfl rfl (.inl rfl) ⟨hmu,hquit,honce,?_,hdialer⟩
          cases last <;> exact hstore
        | publishing =>
          exact hmove rfl rfl rfl rfl rfl rfl rfl (.inr hstore) ⟨hmu,hquit,honce,rfl,hdialer⟩
        | finished => contradiction
    · cases ht
  | startPostgresReconnect i w =>
    simp only [Server.initStep] at ht
    split at ht
    · rename_i hi hw _
      have hok := h.callers i
      rw [hi] at hok
      have hquit : s.postgresReconnectQuit = none := hok.2.1
      rw [hquit] at ht
      obtain rfl := Option.some.inj ht
      exact h.start hi hw
    · cases ht
  | returnInit i =>
    simp only [Server.initStep] at ht
    split at ht
    · rename_i hi
      have hmu := h.callers i
      rw [hi] at hmu
      obtain rfl := Option.some.inj ht
      exact h.lock (.inr fun j => owned hmu) trivial (by simp [hi])
    · cases ht
  | _ => cases ht

theorem resetStep_inv (h : StoreInv s) {a : Act κ} (ht : s.resetStep a = some t) : StoreInv t := by
  cases a with
  | resetStore i =>
    simp only [Server.resetStep] at ht
    split at ht
    · rename_i hi hfree
      obtain rfl := Option.some.inj ht
      exact h.lock (.inr (by simp [hfree])) rfl (by simp [hi])
    · cases ht
  | stopPostgresReconnect i =>
    simp only [Server.resetStep] at ht
    split at ht
    · rename_i hi hfree
      obtain rfl := Option.some.inj ht
      exact h.stop hi hfree
    · cases ht
  | dropDeleted i =>
    simp only [Server.resetStep] at ht
    split at ht
    · rename_i hi
      have hok := h.callers i
      rw [hi] at hok
      obtain ⟨hmu,hquit⟩ := hok
      obtain rfl := Option.some.inj ht
      refine h.owner rfl rfl (fun j => owned hmu) hquit hquit rfl ⟨hmu,hquit⟩ h.fresh ?_
      exact fun store hs v hv => (h.stores store hs v hv).caller (i := i) rfl rfl rfl (.inl rfl)
        (by simp [hi])
    · cases ht
  | clearStore i =>
    simp only [Server.resetStep] at ht
    split at ht
    · rename_i hi
      have hok := h.callers i
      rw [hi] at hok
      obtain ⟨hmu,hquit⟩ := hok
      obtain rfl := Option.some.inj ht
      refine h.owner rfl rfl (fun j => owned hmu) hquit hquit rfl ⟨hmu,hquit,rfl⟩ (fun _ => rfl) ?_
      intro store hs v hv
      obtain hclosed | hhas | hglobal | ⟨j,hj⟩ := h.stores store hs v hv
      · exact .inl hclosed
      · exact .inr (.inl hhas)
      · refine .inr (.inr (.inr ⟨i,?_⟩))
        rw [caller_self (s := s) rfl, hglobal]
      · refine .inr (.inr (.inr ⟨j,?_⟩))
        rw [caller_of_ne (s := s) rfl]
        · exact hj
        · rintro rfl
          exact absurd (hi.symm.trans hj) (by simp)
    · cases ht
  | returnReset i =>
    simp only [Server.resetStep] at ht
    split at ht
    · rename_i held hi
      have hok := h.callers i
      rw [hi] at hok
      obtain ⟨hmu,hquit,hstore⟩ := hok
      obtain rfl := Option.some.inj ht
      have hcore : (s.closeStore held).core = s.core := closeStore_core s held
      have hcallers : (((s.closeStore held).lockInit none).setCaller i .idle).callers =
          Function.update s.callers i .idle := by
        simp [Server.setCaller, Server.lockInit]
      have hworkers : (s.closeStore held).workers = s.workers := closeStore_workers s held
      have hglobal : (s.closeStore held).globalStore = s.globalStore := congrArg Core.store hcore
      refine h.owner hcallers hworkers (fun j => owned hmu) hquit ?_ (congrArg Core.quits hcore)
        trivial (fun _ => hglobal.trans hstore) ?_
      · exact (congrArg Core.quit hcore).trans hquit
      · intro store hs v hv
        have hs : store ∈ s.dialed := closeStore_dialed s held ▸ hs
        exact (h.stores store hs v hv).closed hi hcallers hworkers hglobal rfl
    · cases ht
  | _ => cases ht

theorem workerStep_inv (h : StoreInv s) {a : Act κ} (ht : s.workerStep a = some t) :
    StoreInv t := by
  cases a with
  | quit w =>
    simp only [Server.workerStep] at ht
    split at ht
    · rename_i hw
      split_ifs at ht with hquit
      obtain rfl := Option.some.inj ht
      exact h.worker (fun hcurrent => (h.live w hcurrent).1 hquit) (by simp [hw])
        (by simp [hw, Worker.Has])
    · cases ht
  | timer w =>
    simp only [Server.workerStep] at ht
    split at ht
    · rename_i hw
      have hok := h.workers w
      rw [hw] at hok
      obtain rfl := Option.some.inj ht
      exact h.worker hok (by simp [hw]) (by simp [hw, Worker.Has])
    · cases ht
  | dial w answers =>
    simp only [Server.workerStep] at ht
    split at ht
    · rename_i hw
      have hok := h.workers w
      rw [hw] at hok
      split_ifs at ht
      · obtain rfl := Option.some.inj ht
        have hdialed : StoreInv (s.setWorker w (.dialed (s.dialedBy (some w)))) :=
          h.worker ⟨hok,rfl⟩ (by simp [hw]) (by simp [hw, Worker.Has])
        refine ⟨hdialed.callers,hdialed.workers,hdialed.live,hdialed.awaited,hdialed.fresh,?_⟩
        intro store hs v hv
        rcases List.mem_cons.mp hs with rfl | hs
        · obtain rfl := Option.some.inj hv
          refine .inr (.inl ?_)
          rw [worker_self (s := s.addDialed (s.dialedBy (some w))) rfl]
          rfl
        · exact hdialed.stores store hs v hv
      · obtain rfl := Option.some.inj ht
        exact h.worker hok (by simp [hw]) (by simp [hw, Worker.Has])
    · cases ht
  | claim w =>
    simp only [Server.workerStep] at ht
    split at ht
    · rename_i store hw hfree
      have hok := h.workers w
      rw [hw] at hok
      obtain ⟨hretired,hdialer⟩ := hok
      split_ifs at ht with hquit
      · obtain rfl := Option.some.inj ht
        exact h.worker ⟨hretired.resolve_right hquit,hdialer⟩ (by simp [hw])
          (by simp [hw, Worker.Has])
      · obtain rfl := Option.some.inj ht
        have hcurrent : s.postgresReconnectQuit = some w := not_not.mp hquit
        have hstore : s.globalStore = none := by
          obtain hnone | ⟨held,p,hclaimed⟩ := h.awaited w hcurrent
          · exact hnone
          · exact absurd (hw.symm.trans hclaimed) (by simp)
        refine h.current hcurrent rfl rfl rfl rfl rfl rfl rfl (.inl rfl)
          ⟨hcurrent,rfl,hstore,hdialer⟩ (.inr ⟨hcurrent,store,_,rfl⟩) ?_
        simp [hw, Worker.Has]
    · cases ht
  | workerInstall w =>
    simp only [Server.workerStep] at ht
    split at ht
    · rename_i store p hw
      have hok := h.workers w
      rw [hw] at hok
      obtain ⟨hquit,hmu,hstore,hdialer⟩ := hok
      split at ht
      · obtain rfl := Option.some.inj ht
        refine h.current hquit rfl rfl rfl rfl rfl rfl rfl (.inl rfl) nofun (.inl rfl) ?_
        rw [hw]
        rintro held rfl
        exact .inr hstore
      · obtain rfl := Option.some.inj ht
        have hmove {t : Server κ} {q : Install κ}
            (ht : t.workers = Function.update s.workers w (.claimed store q))
            (hcallers : t.callers = s.callers) (hclosed : t.closed = s.closed)
            (hdialed : t.dialed = s.dialed)
            (hinit : t.globalStoreInitMu = s.globalStoreInitMu)
            (hnext : t.postgresReconnectQuit = s.postgresReconnectQuit)
            (hquits : t.quits = s.quits) (honce : t.globalStoreOnce = s.globalStoreOnce)
            (hglobal : t.globalStore = s.globalStore ∨ s.globalStore = none)
            (hq : (Worker.claimed store q).Ok t.core w) : StoreInv t := by
          refine h.current hquit ht hcallers hinit hquits honce hdialed hclosed hglobal hq
            (.inr ⟨hnext.trans hquit,store,q,rfl⟩) ?_
          rw [hw]
          exact fun _ hhas => .inl hhas
        cases p with
        | draining last =>
          exact hmove rfl rfl rfl rfl rfl rfl rfl rfl (.inl rfl) ⟨hquit,hmu,hstore,hdialer⟩
        | forgetting last keys =>
          refine hmove rfl rfl rfl rfl rfl rfl rfl rfl (.inl rfl) ⟨hquit,hmu,?_,hdialer⟩
          cases last <;> exact hstore
        | publishing =>
          exact hmove rfl rfl rfl rfl rfl rfl rfl rfl (.inr hstore) ⟨hquit,hmu,rfl,hdialer⟩
        | finished => contradiction
    · cases ht
  | closeSuperseded w =>
    simp only [Server.workerStep] at ht
    split at ht
    · rename_i store hw
      have hok := h.workers w
      rw [hw] at hok
      obtain rfl := Option.some.inj ht
      have hclose : StoreInv (s.close store) := by
        refine ⟨h.callers,h.workers,h.live,h.awaited,h.fresh,fun held hs v hv => ?_⟩
        exact (h.stores held hs v hv).imp_left (List.mem_cons_of_mem store)
      refine hclose.worker (fun hcurrent => (h.live w hcurrent).1 hok.1) ?_ ?_
      · simp [Server.close, hw]
      · intro held hhas
        rw [show (s.close store).workers w = .superseded store from hw] at hhas
        obtain rfl : store = held := hhas
        exact .inr List.mem_cons_self
    · cases ht
  | _ => cases ht

variable [DecidableEq κ]

theorem noteStep_inv (h : StoreInv s) {a : Act κ} (ht : s.noteStep a = some t) : StoreInv t := by
  cases a with
  | noteDeletedWhileUnavailable i key =>
    simp only [Server.noteStep] at ht
    split at ht
    · rename_i hi
      obtain rfl := Option.some.inj ht
      unfold Server.noteDeleted
      split_ifs
      · exact h.note rfl rfl rfl rfl rfl (fun _ => trivial) (by simp [hi])
      · exact h.note rfl rfl rfl rfl rfl (fun _ => trivial) (by simp [hi])
    · cases ht
  | getStore i =>
    simp only [Server.noteStep] at ht
    split at ht
    · rename_i hi
      split at ht
      · obtain rfl := Option.some.inj ht
        exact h.note rfl rfl rfl rfl rfl (fun _ => trivial) (by simp [hi])
      · obtain rfl := Option.some.inj ht
        exact h.note rfl rfl rfl rfl rfl (fun _ => trivial) (by simp [hi])
    · cases ht
  | takeDeletedWhileUnavailable i =>
    simp only [Server.noteStep] at ht
    split at ht
    · rename_i hi
      obtain rfl := Option.some.inj ht
      exact h.note rfl rfl rfl rfl rfl (fun _ => trivial) (by simp [hi])
    · cases ht
  | forgetSeen i =>
    simp only [Server.noteStep] at ht
    split at ht
    · rename_i hi
      obtain rfl := Option.some.inj ht
      exact h.note rfl rfl rfl rfl rfl (fun _ => trivial) (by simp [hi])
    · cases ht
  | _ => cases ht

theorem step_eq (s : Server κ) (a : Act κ) : s.step a = s.initStep a ∨ s.step a = s.resetStep a ∨
    s.step a = s.workerStep a ∨ s.step a = s.noteStep a := by
  cases a <;> simp [Server.step]

theorem step_inv (h : StoreInv s) {a : Act κ} (ht : s.step a = some t) : StoreInv t := by
  obtain ha | ha | ha | ha := step_eq s a
  · exact initStep_inv h (ha.symm.trans ht)
  · exact resetStep_inv h (ha.symm.trans ht)
  · exact workerStep_inv h (ha.symm.trans ht)
  · exact noteStep_inv h (ha.symm.trans ht)

omit [DecidableEq κ] in
theorem started_inv : StoreInv (started κ) where
  callers _ := trivial
  workers _ := ⟨nofun,nofun⟩
  live := nofun
  awaited := nofun
  fresh _ := rfl
  stores := nofun

end Steps

section Resets

/-- What a retired worker leaves: nothing it dialed is installed, or was when it was cleared. -/
structure LeftBehind (s : Server κ) (w : ℕ) : Prop where
  retired : s.workers w = .gone ∨ w ∈ s.quits
  installed : ∀ store, s.globalStore = some (.postgres store) → store.dialer ≠ some w
  cleared : ∀ i store, s.callers i = .cleared (some (.postgres store)) → store.dialer ≠ some w

variable {s t : Server κ} {i v w : ℕ} {p : Caller κ} {q : Worker κ}

theorem LeftBehind.not_claimed (h : LeftBehind s w) (hinv : StoreInv s) (store : PostgresStore)
    (p : Install κ) : s.workers w ≠ .claimed store p := by
  intro hclaimed
  have hok := hinv.workers w
  rw [hclaimed] at hok
  obtain hgone | hquit := h.retired
  · exact nomatch hgone.symm.trans hclaimed
  · exact (hinv.live w hok.1).1 hquit

theorem LeftBehind.caller (h : LeftBehind s w) (ht : t.callers = Function.update s.callers i p)
    (hworkers : t.workers = s.workers) (hquits : ∀ v ∈ s.quits, v ∈ t.quits)
    (hstore : ∀ store, t.globalStore = some (.postgres store) → store.dialer ≠ some w)
    (hp : ∀ store, p = .cleared (some (.postgres store)) → store.dialer ≠ some w) :
    LeftBehind t w where
  retired := by
    rw [hworkers]
    exact h.retired.imp_right (hquits w)
  installed := hstore
  cleared j store hj := by
    rcases eq_or_ne j i with rfl | hji
    · exact hp store ((caller_self ht).symm.trans hj)
    · exact h.cleared j store ((caller_of_ne ht hji).symm.trans hj)

theorem LeftBehind.worker (h : LeftBehind s w) (ht : t.workers = Function.update s.workers v q)
    (hcallers : t.callers = s.callers) (hquits : t.quits = s.quits)
    (hv : s.workers v ≠ .gone)
    (hstore : ∀ store, t.globalStore = some (.postgres store) → store.dialer ≠ some w) :
    LeftBehind t w where
  retired := by
    obtain hgone | hquit := h.retired
    · refine .inl ?_
      rw [worker_of_ne ht]
      · exact hgone
      · rintro rfl
        exact hv hgone
    · exact .inr (hquits ▸ hquit)
  installed := hstore
  cleared j store hj := h.cleared j store (hcallers ▸ hj)

theorem initStep_left (hinv : StoreInv s) (h : LeftBehind s w) {a : Act κ}
    (ht : s.initStep a = some t) : LeftBehind t w := by
  cases a with
  | initStore i cfg =>
    simp only [Server.initStep] at ht
    split at ht
    · split_ifs at ht
      · obtain rfl := Option.some.inj ht
        exact h.caller rfl rfl (fun _ => id) h.installed (by simp)
      · obtain rfl := Option.some.inj ht
        exact h.caller rfl rfl (fun _ => id) h.installed (by simp)
    · cases ht
  | openStore i answers =>
    simp only [Server.initStep] at ht
    split at ht
    · split at ht
      · split at ht
        · obtain rfl := Option.some.inj ht
          exact h.caller rfl rfl (fun _ => id) h.installed (by simp)
        · obtain rfl := Option.some.inj ht
          cases answers with
          | true => exact h.caller rfl rfl (fun _ => id) nofun nofun
          | false => exact h.caller rfl rfl (fun _ => id) nofun nofun
      · obtain rfl := Option.some.inj ht
        exact h.caller rfl rfl (fun _ => id) nofun nofun
      · split_ifs at ht
        · obtain rfl := Option.some.inj ht
          exact h.caller rfl rfl (fun _ => id) h.installed (by simp)
        · obtain rfl := Option.some.inj ht
          exact h.caller rfl rfl (fun _ => id) h.installed (by simp)
        · obtain rfl := Option.some.inj ht
          exact h.caller rfl rfl (fun _ => id) h.installed (by simp)
    · cases ht
  | install i =>
    simp only [Server.initStep] at ht
    split at ht
    · rename_i store p hi
      have hok := hinv.callers i
      rw [hi] at hok
      split at ht
      · obtain rfl := Option.some.inj ht
        exact h.caller rfl rfl (fun _ => id) h.installed (by simp)
      · obtain rfl := Option.some.inj ht
        cases p with
        | draining last => exact h.caller rfl rfl (fun _ => id) h.installed (by simp)
        | forgetting last keys => exact h.caller rfl rfl (fun _ => id) h.installed (by simp)
        | publishing =>
          refine h.caller rfl rfl (fun _ => id) ?_ (by simp)
          rintro _ ⟨⟩
          rw [hok.2.2.2.2]
          simp
        | finished => contradiction
    · cases ht
  | startPostgresReconnect i v =>
    simp only [Server.initStep] at ht
    split at ht
    · rename_i hv _
      split at ht
      · obtain rfl := Option.some.inj ht
        exact h.caller rfl rfl (fun _ => id) h.installed (by simp)
      · obtain rfl := Option.some.inj ht
        have hstart : LeftBehind (s.setWorker v .waiting) w :=
          h.worker rfl rfl rfl (by simp [hv]) h.installed
        exact hstart.caller (i := i) (p := .initialized) rfl rfl (fun _ => id) h.installed (by simp)
    · cases ht
  | returnInit i =>
    simp only [Server.initStep] at ht
    split at ht
    · obtain rfl := Option.some.inj ht
      exact h.caller rfl rfl (fun _ => id) h.installed (by simp)
    · cases ht
  | _ => cases ht

theorem resetStep_left (h : LeftBehind s w) {a : Act κ} (ht : s.resetStep a = some t) :
    LeftBehind t w := by
  cases a with
  | resetStore i =>
    simp only [Server.resetStep] at ht
    split at ht
    · obtain rfl := Option.some.inj ht
      exact h.caller rfl rfl (fun _ => id) h.installed (by simp)
    · cases ht
  | stopPostgresReconnect i =>
    simp only [Server.resetStep] at ht
    split at ht
    · obtain rfl := Option.some.inj ht
      exact h.caller rfl rfl (fun _ => List.mem_append_right _) h.installed (by simp)
    · cases ht
  | dropDeleted i =>
    simp only [Server.resetStep] at ht
    split at ht
    · obtain rfl := Option.some.inj ht
      exact h.caller rfl rfl (fun _ => id) h.installed (by simp)
    · cases ht
  | clearStore i =>
    simp only [Server.resetStep] at ht
    split at ht
    · obtain rfl := Option.some.inj ht
      refine h.caller rfl rfl (fun _ => id) nofun fun store hstore => ?_
      exact h.installed store (Caller.cleared.inj hstore)
    · cases ht
  | returnReset i =>
    simp only [Server.resetStep] at ht
    split at ht
    · rename_i held hi
      obtain rfl := Option.some.inj ht
      have hcore : (s.closeStore held).core = s.core := closeStore_core s held
      refine h.caller (i := i) (p := .idle) ?_ (closeStore_workers s held) ?_ ?_ (by simp)
      · simp [Server.setCaller, Server.lockInit]
      · have hquits : (s.closeStore held).quits = s.quits := congrArg Core.quits hcore
        exact fun v hv => hquits.symm ▸ hv
      · exact fun store hstore => h.installed store ((congrArg Core.store hcore).symm.trans hstore)
    · cases ht
  | _ => cases ht

theorem workerStep_left (hinv : StoreInv s) (h : LeftBehind s w) {a : Act κ}
    (ht : s.workerStep a = some t) : LeftBehind t w := by
  cases a with
  | quit v =>
    simp only [Server.workerStep] at ht
    split at ht
    · rename_i hv
      split_ifs at ht
      obtain rfl := Option.some.inj ht
      exact h.worker rfl rfl rfl (by simp [hv]) h.installed
    · cases ht
  | timer v =>
    simp only [Server.workerStep] at ht
    split at ht
    · rename_i hv
      obtain rfl := Option.some.inj ht
      exact h.worker rfl rfl rfl (by simp [hv]) h.installed
    · cases ht
  | dial v answers =>
    simp only [Server.workerStep] at ht
    split at ht
    · rename_i hv
      split_ifs at ht
      · obtain rfl := Option.some.inj ht
        exact h.worker rfl rfl rfl (by simp [hv]) h.installed
      · obtain rfl := Option.some.inj ht
        exact h.worker rfl rfl rfl (by simp [hv]) h.installed
    · cases ht
  | claim v =>
    simp only [Server.workerStep] at ht
    split at ht
    · rename_i hv _
      split_ifs at ht
      · obtain rfl := Option.some.inj ht
        exact h.worker rfl rfl rfl (by simp [hv]) h.installed
      · obtain rfl := Option.some.inj ht
        exact h.worker rfl rfl rfl (by simp [hv]) h.installed
    · cases ht
  | workerInstall v =>
    simp only [Server.workerStep] at ht
    split at ht
    · rename_i store p hv
      have hok := hinv.workers v
      rw [hv] at hok
      have hgone : s.workers v ≠ .gone := by simp [hv]
      split at ht
      · obtain rfl := Option.some.inj ht
        exact h.worker rfl rfl rfl hgone h.installed
      · obtain rfl := Option.some.inj ht
        cases p with
        | draining last => exact h.worker rfl rfl rfl hgone h.installed
        | forgetting last keys => exact h.worker rfl rfl rfl hgone h.installed
        | publishing =>
          refine h.worker rfl rfl rfl hgone ?_
          rintro _ ⟨⟩ hdialer
          obtain rfl := Option.some.inj (hok.2.2.2.symm.trans hdialer)
          exact h.not_claimed hinv store .publishing hv
        | finished => contradiction
    · cases ht
  | closeSuperseded v =>
    simp only [Server.workerStep] at ht
    split at ht
    · rename_i hv
      obtain rfl := Option.some.inj ht
      exact h.worker rfl rfl rfl (by simp [hv]) h.installed
    · cases ht
  | _ => cases ht

variable [DecidableEq κ]

theorem noteStep_left (h : LeftBehind s w) {a : Act κ} (ht : s.noteStep a = some t) :
    LeftBehind t w := by
  cases a with
  | noteDeletedWhileUnavailable i key =>
    simp only [Server.noteStep] at ht
    split at ht
    · obtain rfl := Option.some.inj ht
      unfold Server.noteDeleted
      split_ifs
      · exact h.caller rfl rfl (fun _ => id) h.installed (by simp)
      · exact h.caller rfl rfl (fun _ => id) h.installed (by simp)
    · cases ht
  | getStore i =>
    simp only [Server.noteStep] at ht
    split at ht
    · split at ht
      · obtain rfl := Option.some.inj ht
        exact h.caller rfl rfl (fun _ => id) h.installed (by simp)
      · obtain rfl := Option.some.inj ht
        exact h.caller rfl rfl (fun _ => id) h.installed (by simp)
    · cases ht
  | takeDeletedWhileUnavailable i =>
    simp only [Server.noteStep] at ht
    split at ht
    · obtain rfl := Option.some.inj ht
      exact h.caller rfl rfl (fun _ => id) h.installed (by simp)
    · cases ht
  | forgetSeen i =>
    simp only [Server.noteStep] at ht
    split at ht
    · obtain rfl := Option.some.inj ht
      exact h.caller rfl rfl (fun _ => id) h.installed (by simp)
    · cases ht
  | _ => cases ht

theorem step_left (hinv : StoreInv s) (h : LeftBehind s w) {a : Act κ} (ht : s.step a = some t) :
    LeftBehind t w := by
  obtain ha | ha | ha | ha := step_eq s a
  · exact initStep_left hinv h (ha.symm.trans ht)
  · exact resetStep_left h (ha.symm.trans ht)
  · exact workerStep_left hinv h (ha.symm.trans ht)
  · exact noteStep_left h (ha.symm.trans ht)

/-- When a reset returns, every worker there is is retired. -/
theorem returnReset_left (hinv : StoreInv s) (ht : s.step (.returnReset i) = some t)
    (hw : t.workers w ≠ .unborn) : LeftBehind t w := by
  simp only [Server.step, Server.resetStep] at ht
  split at ht
  · rename_i held hi
    have hok := hinv.callers i
    rw [hi] at hok
    obtain ⟨hmu,hquit,hstore⟩ := hok
    obtain rfl := Option.some.inj ht
    have hcore : (s.closeStore held).core = s.core := closeStore_core s held
    have hworkers : (s.closeStore held).workers = s.workers := closeStore_workers s held
    have hold := hinv.workers w
    have hout : s.postgresReconnectQuit ≠ some w := fun hcurrent => by cases hquit.symm.trans hcurrent
    constructor
    · change (s.closeStore held).workers w = .gone ∨ w ∈ (s.closeStore held).quits
      change (s.closeStore held).workers w ≠ .unborn at hw
      rw [show (s.closeStore held).quits = s.quits from congrArg Core.quits hcore]
      rw [hworkers] at hw ⊢
      cases hphase : s.workers w with
      | unborn => exact absurd hphase hw
      | waiting =>
        rw [hphase] at hold
        exact .inr (hold.resolve_right hout)
      | dialing =>
        rw [hphase] at hold
        exact .inr (hold.resolve_right hout)
      | dialed store =>
        rw [hphase] at hold
        exact .inr (hold.1.resolve_right hout)
      | claimed store p =>
        rw [hphase] at hold
        exact absurd hold.1 hout
      | superseded store =>
        rw [hphase] at hold
        exact .inr hold.1
      | gone => exact .inl rfl
    · intro store hglobal
      have hglobal : s.globalStore = some (.postgres store) :=
        (congrArg Core.store hcore).symm.trans hglobal
      cases hstore.symm.trans hglobal
    · intro j store hj
      -- Nobody else holds the lock, so nobody else has cleared a store.
      have hj : (Function.update s.callers i .idle) j = .cleared (some (.postgres store)) := by
        rw [← hj]
        simp [Server.setCaller, Server.lockInit]
      rcases eq_or_ne j i with rfl | hji
      · rw [Function.update_self] at hj
        cases hj
      · rw [Function.update_of_ne hji] at hj
        have hother := hinv.callers j
        rw [hj] at hother
        exact absurd hother.1 (owned hmu hji)
  · cases ht

omit [DecidableEq κ] in
/-- What it leaves is closed, or it is about to close it. -/
theorem LeftBehind.final (h : LeftBehind s w) (hinv : StoreInv s) {store : PostgresStore}
    (hs : store ∈ s.dialed) (hdialer : store.dialer = some w) :
    s.globalStore ≠ some (.postgres store) ∧
      (store ∈ s.closed ∨ (s.workers w).Carries store) := by
  have hglobal : s.globalStore ≠ some (.postgres store) := fun hstore =>
    h.installed store hstore hdialer
  refine ⟨hglobal,?_⟩
  obtain hclosed | hhas | hstore | ⟨i,hi⟩ := hinv.stores store hs w hdialer
  · exact .inl hclosed
  · refine .inr ?_
    cases hw : s.workers w with
    | claimed held p => exact absurd hw (h.not_claimed hinv held p)
    | _ => rw [hw] at hhas; exact hhas
  · exact absurd hstore hglobal
  · exact absurd hdialer (h.cleared i store hi)

theorem reset_final {as bs : List (Act κ)}
    (hs : run Server.step (started κ) (as++[Act.returnReset i]) = some s)
    (ht : run Server.step s bs = some t) : ResetFinal s t := by
  obtain ⟨r,hr,hrs⟩ := run_append_some Server.step hs
  obtain ⟨u,hu,hus⟩ := run_cons_some Server.step hrs
  obtain rfl := Option.some.inj hus
  have hrinv : StoreInv r := run_invariant (fun _ _ _ h ht => step_inv h ht) started_inv hr
  intro w hw store hstore hdialer
  have hstep : ∀ (s : Server κ) a t, StoreInv s ∧ LeftBehind s w → s.step a = some t →
      StoreInv t ∧ LeftBehind t w := fun _ _ _ h ht => ⟨step_inv h.1 ht,step_left h.1 h.2 ht⟩
  have hboth : StoreInv t ∧ LeftBehind t w :=
    run_invariant hstep ⟨step_inv hrinv hu,returnReset_left hrinv hu hw⟩ ht
  exact hboth.2.final hboth.1 hstore hdialer

omit [DecidableEq κ] in
theorem StoreInv.one_unretired (h : StoreInv s) : OneUnretired s := by
  have hcurrent : ∀ w, Unretired s w → s.postgresReconnectQuit = some w := by
    rintro w ⟨hrun,hquit⟩
    have hok := h.workers w
    cases hw : s.workers w with
    | waiting =>
      rw [hw] at hok
      exact hok.resolve_left hquit
    | dialing =>
      rw [hw] at hok
      exact hok.resolve_left hquit
    | dialed store =>
      rw [hw] at hok
      exact hok.1.resolve_left hquit
    | claimed store p =>
      rw [hw] at hok
      exact hok.1
    | superseded store =>
      rw [hw] at hok
      exact absurd hok.1 hquit
    | _ => rw [hw] at hrun; nomatch hrun
  intro v w hv hw
  exact Option.some.inj ((hcurrent v hv).symm.trans (hcurrent w hw))

end Resets

end Radar.Reconnect
