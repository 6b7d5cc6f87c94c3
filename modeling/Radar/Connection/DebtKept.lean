import Mathlib.Tactic.SplitIfs
import Radar.Connection.RecoveryWorker

/-!
# The recovery debt is kept and has a worker

There is never more than one worker, and a debt always has one or somebody who
is about to start one. The debt itself is lost where it is cleared for a
Connected that an auth-shaped Disconnected has overwritten.
-/

set_option autoImplicit false

namespace Radar.Recovery

open Radar.Run

/-- A worker that has the active flag. -/
def Worker.running : Worker → Bool
  | .waiting => true
  | .awake => true
  | .owed => true
  | .settling => true
  | .probing _ => true
  | .reconnected => true
  | .leaving => true
  | _ => false

/-- A worker between clearing the flag and the end of its re-check. -/
def Worker.rechecks : Worker → Bool
  | .rechecking => true
  | .recheckingStatus => true
  | .restarting => true
  | _ => false

/-- No publisher is between its steps and no worker is in its re-check. -/
structure Settled (s : Server) : Prop where
  publishers : ∀ i, s.publishers i = .idle
  workers : ∀ w, (s.workers w).rechecks = false

/-- Two workers never run at once. -/
def OneWorker (s : Server) : Prop :=
  ∀ v w, (s.workers v).running = true → (s.workers w).running = true → v = w

/-- A disconnect that was auth-shaped since the last Connected is owed and has a worker. -/
def DebtKept (s : Server) : Prop :=
  Settled s → s.status.state ≠ .connected → s.authSince = true →
    s.owed = true ∧ ∃ w, (s.workers w).running = true

/-- A publisher of an auth-shaped Disconnected that has yet to set the debt. -/
def Pending (s : Server) : Prop := ∃ i demotion, s.publishers i = .owing demotion

/-- The debt is cleared only if no auth-shaped Disconnected was published since the last Connected,
or the publisher of one has yet to set it. -/
def ClearsSettled (s : Server) : Act → Prop
  | .settle _ => s.authSince = true → Pending s
  | .workerSettle _ => s.authSince = true → Pending s
  | _ => True

/-- Who will start a worker, or has it. -/
def Publisher.willStart : Publisher → Bool
  | .owing _ => true
  | .loading => true
  | .starting => true
  | _ => false

def Attended (s : Server) : Prop :=
  (∃ i, (s.publishers i).willStart = true) ∨
    ∃ w, (s.workers w).running = true ∨ (s.workers w).rechecks = true

/-- The active flag is the one worker's. -/
structure Lone (s : Server) : Prop where
  one : OneWorker s
  active : s.active = true ↔ ∃ w, (s.workers w).running = true

structure DebtInv (s : Server) : Prop where
  lone : Lone s
  connected : s.status.state = .connected → s.authSince = false
  owed : s.authSince = true → Pending s ∨ s.owed = true
  attended : s.authSince = true → s.owed = true → Attended s

section Updates

variable {s t : Server} {i w : ℕ}

theorem publisher_self {p : Publisher} (ht : t.publishers = Function.update s.publishers i p) :
    t.publishers i = p := by rw [ht, Function.update_self]

theorem publisher_of_ne {p : Publisher} (ht : t.publishers = Function.update s.publishers i p)
    {j : ℕ} (hj : j ≠ i) : t.publishers j = s.publishers j := by rw [ht, Function.update_of_ne hj]

theorem worker_self {p : Worker} (ht : t.workers = Function.update s.workers w p) :
    t.workers w = p := by rw [ht, Function.update_self]

theorem worker_of_ne {p : Worker} (ht : t.workers = Function.update s.workers w p) {v : ℕ}
    (hv : v ≠ w) : t.workers v = s.workers v := by rw [ht, Function.update_of_ne hv]

/-- A publisher that was not about to set the debt moves. -/
theorem Pending.update (h : Pending s) {p : Publisher}
    (ht : t.publishers = Function.update s.publishers i p)
    (hi : ∀ demotion, s.publishers i ≠ .owing demotion) : Pending t := by
  obtain ⟨j,demotion,hj⟩ := h
  refine ⟨j,demotion,?_⟩
  rw [publisher_of_ne ht]
  · exact hj
  · rintro rfl
    exact hi demotion hj

theorem Attended.publisher (h : Attended s) {p : Publisher}
    (ht : t.publishers = Function.update s.publishers i p) (hw : t.workers = s.workers)
    (hp : (s.publishers i).willStart = true → p.willStart = true) : Attended t := by
  obtain ⟨j,hj⟩ | hworker := h
  · refine .inl ⟨j,?_⟩
    rcases eq_or_ne j i with rfl | hji
    · rw [publisher_self ht]
      exact hp hj
    · rw [publisher_of_ne ht hji]
      exact hj
  · rw [← hw] at hworker
    exact .inr hworker

theorem Attended.worker (h : Attended s) {p : Worker}
    (ht : t.workers = Function.update s.workers w p) (hi : t.publishers = s.publishers)
    (hp : (s.workers w).running = true ∨ (s.workers w).rechecks = true →
      p.running = true ∨ p.rechecks = true) : Attended t := by
  obtain hpublisher | ⟨v,hv⟩ := h
  · rw [← hi] at hpublisher
    exact .inl hpublisher
  · refine .inr ⟨v,?_⟩
    rcases eq_or_ne v w with rfl | hvw
    · rw [worker_self ht]
      exact hp hv
    · rw [worker_of_ne ht hvw]
      exact hv

/-- A worker moves on, or stays out of it. -/
theorem Lone.worker (h : Lone s) {p : Worker} (ht : t.workers = Function.update s.workers w p)
    (hactive : t.active = s.active) (hp : p.running = (s.workers w).running) : Lone t := by
  have hrun : ∀ v, (t.workers v).running = (s.workers v).running := by
    intro v
    rcases eq_or_ne v w with rfl | hvw
    · rw [worker_self ht]
      exact hp
    · rw [worker_of_ne ht hvw]
  constructor
  · intro u v hu hv
    rw [hrun] at hu hv
    exact h.one u v hu hv
  · simp only [hactive, hrun]
    exact h.active

theorem Lone.of_eq (h : Lone s) (ht : t.workers = s.workers) (hactive : t.active = s.active) :
    Lone t := by
  constructor
  · intro u v hu hv
    rw [ht] at hu hv
    exact h.one u v hu hv
  · rw [hactive, ht]
    exact h.active

/-- The one worker clears the flag. -/
theorem Lone.leave (h : Lone s) (hw : s.workers w = .leaving) :
    Lone ({ s with active := false }.setWorker w .rechecking) := by
  have hquiet : ∀ v, ((Function.update s.workers w .rechecking) v).running ≠ true := by
    intro v hv
    rcases eq_or_ne v w with rfl | hvw
    · rw [Function.update_self] at hv
      nomatch hv
    · rw [Function.update_of_ne hvw] at hv
      exact hvw (h.one v w hv (by rw [hw]; rfl))
  constructor
  · exact fun u _ hu => absurd hu (hquiet u)
  · exact ⟨nofun,fun ⟨v,hv⟩ => absurd hv (hquiet v)⟩

/-- A start makes sure that there is a worker. -/
theorem Lone.start (h : Lone s) (hw : s.workers w = .unborn) :
    Lone (s.startRecovery w) ∧ ∃ v, ((s.startRecovery w).workers v).running = true := by
  unfold Server.startRecovery
  split_ifs with hactive
  · exact ⟨h.of_eq rfl rfl,h.active.mp hactive⟩
  · have hquiet : ∀ v, (s.workers v).running ≠ true := fun v hv => hactive (h.active.mpr ⟨v,hv⟩)
    have hself : ((({ s with active := true } : Server).setWorker w .waiting).workers w).running =
        true := by rw [worker_self (s := s) (w := w) (p := .waiting) rfl]; rfl
    refine ⟨⟨?_,fun _ => ⟨w,hself⟩,fun _ => rfl⟩,⟨w,hself⟩⟩
    have honly : ∀ v, ((Function.update s.workers w .waiting) v).running = true → v = w := by
      intro v hv
      by_contra hvw
      rw [Function.update_of_ne hvw] at hv
      exact hquiet v hv
    exact fun u v hu hv => (honly u hu).trans (honly v hv).symm

end Updates

section Steps

variable {s t : Server} {i w : ℕ}

/-- A worker takes a step that neither ends it nor touches the status or the debt. -/
theorem DebtInv.worker (h : DebtInv s) {p : Worker}
    (hrun : p.running = (s.workers w).running)
    (hp : (s.workers w).running = true ∨ (s.workers w).rechecks = true →
      p.running = true ∨ p.rechecks = true) : DebtInv (s.setWorker w p) where
  lone := h.lone.worker rfl rfl hrun
  connected := h.connected
  owed := h.owed
  attended ha ho := (h.attended ha ho).worker rfl rfl hp

/-- A worker ends where nothing is owed. -/
theorem DebtInv.workerEnds (h : DebtInv s) (hrun : (s.workers w).running = false)
    (hend : ¬(s.authSince = true ∧ s.owed = true)) : DebtInv (s.setWorker w .gone) where
  lone := h.lone.worker rfl rfl hrun.symm
  connected := h.connected
  owed := h.owed
  attended ha ho := absurd ⟨ha,ho⟩ hend

theorem DebtInv.publisher (h : DebtInv s) {p : Publisher}
    (hi : ∀ demotion, s.publishers i ≠ .owing demotion)
    (hp : s.owed = true → (s.publishers i).willStart = true → p.willStart = true) :
    DebtInv (s.setPublisher i p) where
  lone := h.lone.of_eq rfl rfl
  connected := h.connected
  owed ha := (h.owed ha).imp_left fun hpending => hpending.update rfl hi
  attended ha ho := (h.attended ha ho).publisher rfl rfl (hp ho)

theorem DebtInv.clear (h : DebtInv s) (hok : s.authSince = true → Pending s) :
    DebtInv (s.setOwed false) where
  lone := h.lone.of_eq rfl rfl
  connected := h.connected
  owed ha := .inl (hok ha)
  attended _ ho := nomatch ho

theorem DebtInv.owe (h : DebtInv s) {p : Publisher} (hp : p.willStart = true) :
    DebtInv ((s.setOwed true).setPublisher i p) where
  lone := h.lone.of_eq rfl rfl
  connected := h.connected
  owed _ := .inr rfl
  attended _ _ := .inl ⟨i,by rw [publisher_self (s := s) (i := i) (p := p) rfl]; exact hp⟩

/-- A start, whoever makes it. -/
theorem DebtInv.start (h : DebtInv s) (hw : s.workers w = .unborn) :
    DebtInv (s.startRecovery w) ∧ ∃ v, ((s.startRecovery w).workers v).running = true := by
  obtain ⟨hlone,v,hv⟩ := h.lone.start hw
  refine ⟨⟨hlone,?_,?_,fun _ _ => .inr ⟨v,.inl hv⟩⟩,v,hv⟩
  · unfold Server.startRecovery
    split_ifs <;> exact h.connected
  · unfold Server.startRecovery
    split_ifs <;> exact h.owed

/-- A Connected settles what was before it. -/
theorem DebtInv.connect (h : DebtInv s) {status : ConnectionStatus}
    (hstate : status.state = .connected) : DebtInv (s.write status) := by
  have hsince : (s.write status).authSince = false := if_pos hstate
  refine ⟨h.lone.of_eq rfl rfl,fun _ => hsince,?_,?_⟩
  · exact fun ha => absurd (hsince.symm.trans ha) (by simp)
  · exact fun ha => absurd (hsince.symm.trans ha) (by simp)

theorem authSince_write {status : ConnectionStatus} (hstate : status.state ≠ .connected)
    (ha : (s.write status).authSince = true) : s.authSince = true ∨ status.authShaped = true := by
  rw [show (s.write status).authSince = (s.authSince || status.authShaped) from
    if_neg hstate] at ha
  exact Bool.or_eq_true_iff.mp ha

/-- What is written besides a Connected, with the debt of an auth-shaped one to come. -/
theorem DebtInv.write (h : DebtInv s) {status : ConnectionStatus} {p : Publisher}
    (hi : s.publishers i = .idle) (hstate : status.state ≠ .connected)
    (hp : status.authShaped = true → ∃ demotion, p = .owing demotion) :
    DebtInv ((s.write status).setPublisher i p) where
  lone := h.lone.of_eq rfl rfl
  connected hc := absurd hc hstate
  owed ha := by
    rcases authSince_write hstate ha with hold | hshaped
    · exact (h.owed hold).imp_left fun hpending => hpending.update rfl (by simp [hi])
    · obtain ⟨demotion,rfl⟩ := hp hshaped
      exact .inl ⟨i,demotion,publisher_self (s := s) rfl⟩
  attended ha ho := by
    rcases authSince_write hstate ha with hold | hshaped
    · exact (h.attended hold ho).publisher rfl rfl (by simp [hi, Publisher.willStart])
    · obtain ⟨demotion,rfl⟩ := hp hshaped
      exact .inl ⟨i,by rw [publisher_self (s := s) (i := i) (p := .owing demotion) rfl]; rfl⟩

end Steps

section Runs

variable {s t : Server}

theorem publisherStep_inv (h : DebtInv s) {a : Act} (hok : ClearsSettled s a)
    (ht : s.publisherStep a = some t) : DebtInv t := by
  cases a with
  | setConnectionStatus i status =>
    simp only [Server.publisherStep] at ht
    split at ht
    · rename_i hi
      split_ifs at ht
      · obtain rfl := Option.some.inj ht
        exact h
      · obtain rfl := Option.some.inj ht
        cases hstate : status.state with
        | connected =>
          have hconnect : DebtInv (s.write status) := h.connect hstate
          exact hconnect.publisher (by simp [Server.write, hi])
            (by simp [Server.write, hi, Publisher.willStart])
        | disconnected =>
          refine h.write hi (by simp [hstate]) fun hshaped => ⟨false,?_⟩
          simp only [ConnectionStatus.authShaped, hstate, decide_true, Bool.true_and] at hshaped
          simp [Server.afterWrite, hstate, hshaped]
        | connecting =>
          refine h.write hi (by simp [hstate]) fun hshaped => ?_
          simp [ConnectionStatus.authShaped, hstate] at hshaped
    · cases ht
  | transitionConnectedToRuntimeAuthFailure i classification =>
    simp only [Server.publisherStep] at ht
    split at ht
    · rename_i hi
      split_ifs at ht
      · obtain rfl := Option.some.inj ht
        exact h
      · obtain rfl := Option.some.inj ht
        exact h.write hi (by simp) fun _ => ⟨true,rfl⟩
    · cases ht
  | settle i =>
    simp only [Server.publisherStep] at ht
    split at ht
    · rename_i hi
      obtain rfl := Option.some.inj ht
      exact (h.clear hok).publisher (by simp [Server.setOwed, hi]) (by nofun)
    · cases ht
  | owe i =>
    simp only [Server.publisherStep] at ht
    split at ht
    · rename_i demotion hi
      obtain rfl := Option.some.inj ht
      apply h.owe
      cases demotion <;> rfl
    · cases ht
  | load i =>
    simp only [Server.publisherStep] at ht
    split at ht
    · rename_i hi
      obtain rfl := Option.some.inj ht
      refine h.publisher (by simp [hi]) fun ho _ => ?_
      rw [if_pos ho]
      rfl
    · cases ht
  | start i w =>
    simp only [Server.publisherStep] at ht
    split at ht
    · rename_i hi hw
      obtain rfl := Option.some.inj ht
      obtain ⟨hstart,v,hv⟩ := h.start hw
      have hold : (s.startRecovery w).publishers i = .starting := by
        unfold Server.startRecovery
        split_ifs <;> exact hi
      refine ⟨hstart.lone.of_eq rfl rfl,hstart.connected,?_,fun _ _ => .inr ⟨v,.inl hv⟩⟩
      intro ha
      exact (hstart.owed ha).imp_left fun hpending => hpending.update rfl (by simp [hold])
    · cases ht
  | _ => cases ht

theorem workerStep_inv (h : DebtInv s) {a : Act} (hok : ClearsSettled s a)
    (ht : s.workerStep a = some t) : DebtInv t := by
  cases a with
  | wake w nudged =>
    simp only [Server.workerStep] at ht
    split at ht
    · rename_i hw
      have hawake : DebtInv (s.setWorker w .awake) :=
        h.worker (by rw [hw]; rfl) fun _ => .inl rfl
      split_ifs at ht
      · obtain rfl := Option.some.inj ht
        exact ⟨hawake.lone.of_eq rfl rfl,hawake.connected,hawake.owed,hawake.attended⟩
      · obtain rfl := Option.some.inj ht
        exact hawake
    · cases ht
  | readOwed w =>
    simp only [Server.workerStep] at ht
    split at ht
    · rename_i hw
      obtain rfl := Option.some.inj ht
      cases s.owed with
      | true => exact h.worker (by rw [hw]; rfl) fun _ => .inl rfl
      | false => exact h.worker (by rw [hw]; rfl) fun _ => .inl rfl
    · cases ht
  | readStatus w operations =>
    simp only [Server.workerStep] at ht
    split at ht
    · rename_i hw
      split at ht
      · obtain rfl := Option.some.inj ht
        exact h.worker (by rw [hw]; rfl) fun _ => .inl rfl
      · obtain rfl := Option.some.inj ht
        exact h.worker (by rw [hw]; rfl) fun _ => .inl rfl
      · obtain rfl := Option.some.inj ht
        cases operations with
        | true => exact h.worker (by rw [hw]; rfl) fun _ => .inl rfl
        | false => exact h.worker (by rw [hw]; rfl) fun _ => .inl rfl
    · cases ht
  | workerSettle w =>
    simp only [Server.workerStep] at ht
    split at ht
    · rename_i hw
      obtain rfl := Option.some.inj ht
      exact (h.clear hok).worker (by simp [Server.setOwed, hw, Worker.running]) fun _ => .inl rfl
    · rename_i hw
      obtain rfl := Option.some.inj ht
      exact (h.clear hok).worker (by simp [Server.setOwed, hw, Worker.running]) fun _ => .inl rfl
    · cases ht
  | reconnect w clusterName =>
    simp only [Server.workerStep] at ht
    split at ht
    · rename_i contextName hw
      split at ht
      · obtain rfl := Option.some.inj ht
        exact h.worker (by rw [hw]; rfl) fun _ => .inl rfl
      · rename_i clusterName
        split_ifs at ht
        · obtain rfl := Option.some.inj ht
          exact h.worker (by rw [hw]; rfl) fun _ => .inl rfl
        · obtain rfl := Option.some.inj ht
          have hconnect : DebtInv (s.write ⟨.connected,contextName,clusterName,"",""⟩) :=
            h.connect rfl
          exact hconnect.worker (by simp [Server.write, hw, Worker.running]) fun _ => .inl rfl
    · cases ht
  | leave w =>
    simp only [Server.workerStep] at ht
    split at ht
    · rename_i hw
      obtain rfl := Option.some.inj ht
      refine ⟨h.lone.leave hw,h.connected,h.owed,fun ha ho => ?_⟩
      exact (h.attended ha ho).worker rfl rfl fun _ => .inr rfl
    · cases ht
  | recheckOwed w =>
    simp only [Server.workerStep] at ht
    split at ht
    · rename_i hw
      obtain rfl := Option.some.inj ht
      cases ho : s.owed with
      | true => exact h.worker (by rw [hw]; rfl) fun _ => .inr rfl
      | false => exact h.workerEnds (by rw [hw]; rfl) (by simp [ho])
    · cases ht
  | recheckStatus w =>
    simp only [Server.workerStep] at ht
    split at ht
    · rename_i hw
      obtain rfl := Option.some.inj ht
      by_cases hstate : s.status.state = .connected
      · rw [if_pos hstate]
        exact h.workerEnds (by rw [hw]; rfl) (by simp [h.connected hstate])
      · rw [if_neg hstate]
        exact h.worker (by rw [hw]; rfl) fun _ => .inr rfl
    · cases ht
  | restart w next =>
    simp only [Server.workerStep] at ht
    split at ht
    · rename_i hw hnext
      obtain rfl := Option.some.inj ht
      obtain ⟨hstart,v,hv⟩ := h.start hnext
      have hold : (s.startRecovery next).workers w = .restarting := by
        unfold Server.startRecovery
        split_ifs
        · exact hw
        · rw [worker_of_ne (s := { s with active := true }) (w := next) (p := .waiting) rfl]
          · exact hw
          · rintro rfl
            exact absurd (hw.symm.trans hnext) (by simp)
      refine ⟨hstart.lone.worker rfl rfl (by rw [hold]; rfl),hstart.connected,hstart.owed,?_⟩
      refine fun _ _ => .inr ⟨v,.inl ?_⟩
      rw [worker_of_ne (s := s.startRecovery next) (w := w) (p := .gone) rfl]
      · exact hv
      · rintro rfl
        rw [hold] at hv
        cases hv
    · cases ht
  | _ => cases ht

theorem step_inv (h : DebtInv s) {a : Act} (hok : ClearsSettled s a) (ht : s.step a = some t) :
    DebtInv t := by
  cases a with
  | setConnectionStatus i status => exact publisherStep_inv h hok ht
  | transitionConnectedToRuntimeAuthFailure i classification => exact publisherStep_inv h hok ht
  | settle i => exact publisherStep_inv h hok ht
  | owe i => exact publisherStep_inv h hok ht
  | load i => exact publisherStep_inv h hok ht
  | start i w => exact publisherStep_inv h hok ht
  | _ => exact workerStep_inv h hok ht

theorem started_inv : DebtInv started where
  lone := ⟨nofun,nofun,fun ⟨_,hv⟩ => nomatch hv⟩
  connected := nofun
  owed := nofun
  attended := nofun

/-- Where everybody is between calls, the debt is set and its worker runs. -/
theorem DebtInv.kept (h : DebtInv s) : DebtKept s := by
  intro hsettled _ ha
  have howed : s.owed = true := by
    obtain ⟨i,demotion,hi⟩ | ho := h.owed ha
    · exact absurd (hi.symm.trans (hsettled.publishers i)) (by simp)
    · exact ho
  refine ⟨howed,?_⟩
  obtain ⟨i,hi⟩ | ⟨w,hw | hw⟩ := h.attended ha howed
  · rw [hsettled.publishers i] at hi
    cases hi
  · exact ⟨w,hw⟩
  · rw [hsettled.workers w] at hw
    cases hw

/-- In a run that clears the debt only for what is settled, it is kept and has its one worker. -/
theorem debt_kept {as : List Act} (hm : Meets Server.step ClearsSettled started as)
    (hr : run Server.step started as = some s) : DebtKept s ∧ OneWorker s := by
  have h := meets_invariant (fun _ _ _ h hok ht => step_inv h hok ht) started_inv hm hr
  exact ⟨h.kept,h.lone.one⟩

/-- Credentials expire, the worker reconnects, and they are found expired again. -/
def restored : List Act :=
  [.setConnectionStatus 0 ⟨.disconnected,"prod","","expired","auth"⟩,.owe 0,.load 0,.start 0 0,
    .wake 0 false,.readOwed 0,.readStatus 0 false,.reconnect 0 (some "c"),.workerSettle 0,
    .leave 0,.recheckOwed 0,.transitionConnectedToRuntimeAuthFailure 1 "auth",.owe 1,.start 1 1]

theorem debt_kept_restored : ∃ s, run Server.step started restored = some s ∧
    DebtKept s ∧ OneWorker s := by
  have hr : ∃ s, run Server.step started restored = some s := ⟨_,rfl⟩
  obtain ⟨s,hs⟩ := hr
  refine ⟨s,hs,debt_kept ?_ hs⟩
  refine meets_cons trivial rfl (meets_cons trivial rfl (meets_cons trivial rfl ?_))
  refine meets_cons trivial rfl (meets_cons trivial rfl (meets_cons trivial rfl ?_))
  refine meets_cons trivial rfl (meets_cons trivial rfl (meets_cons (by nofun) rfl ?_))
  refine meets_cons trivial rfl (meets_cons trivial rfl (meets_cons trivial rfl ?_))
  exact meets_cons trivial rfl (meets_cons trivial rfl trivial)

/-- A Connected is published, and settles its debt only after credentials have expired again. -/
def settledLate : List Act :=
  [.setConnectionStatus 0 ⟨.connected,"prod","c","",""⟩,
    .setConnectionStatus 1 ⟨.disconnected,"prod","","expired","auth"⟩,.owe 1,.load 1,.start 1 0,
    .settle 0]

/-- A worker sees Connected, and clears the debt of the demotion that comes after. -/
def guardedLate : List Act :=
  [.setConnectionStatus 0 ⟨.disconnected,"prod","","expired","auth"⟩,.owe 0,.load 0,.start 0 0,
    .setConnectionStatus 1 ⟨.connected,"prod","c","",""⟩,.wake 0 false,.readOwed 0,
    .readStatus 0 false,.settle 1,.transitionConnectedToRuntimeAuthFailure 2 "auth",.owe 2,
    .start 2 1,.workerSettle 0,.leave 0,.recheckOwed 0]

theorem debt_lost : [settledLate,guardedLate].Forall fun as => ∃ s,
    run Server.step started as = some s ∧ s.owed = false ∧ ¬DebtKept s := by
  have hpublishers {s : Server} (h0 : s.publishers 0 = .idle) (h1 : s.publishers 1 = .idle)
      (h2 : s.publishers 2 = .idle) (hrest : ∀ i, s.publishers (i+3) = .idle) :
      ∀ i, s.publishers i = .idle
    | 0 => h0
    | 1 => h1
    | 2 => h2
    | i+3 => hrest i
  have hworkers {s : Server} (h0 : (s.workers 0).rechecks = false)
      (hrest : ∀ w, (s.workers (w+1)).rechecks = false) : ∀ w, (s.workers w).rechecks = false
    | 0 => h0
    | w+1 => hrest w
  constructor
  · refine ⟨_,rfl,rfl,fun h => ?_⟩
    exact absurd (h ⟨hpublishers rfl rfl rfl fun _ => rfl,hworkers rfl fun _ => rfl⟩ (by nofun)
      rfl).1 (by nofun)
  · refine ⟨_,rfl,rfl,fun h => ?_⟩
    exact absurd (h ⟨hpublishers rfl rfl rfl fun _ => rfl,hworkers rfl fun _ => rfl⟩ (by nofun)
      rfl).1 (by nofun)

end Runs

end Radar.Recovery
