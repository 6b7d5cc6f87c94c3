import Mathlib.Order.Lattice.Nat
import Mathlib.Tactic.SplitIfs
import Radar.Connection.Operations

/-!
# The published status and the cluster in use

Whatever runs under `contextOpMu` keeps the status true: a success, a
preflight rejection and a demotion need no condition. What is published late,
or not at all, needs one.
-/

set_option autoImplicit false

namespace Radar.Connection

open Radar.Run

/-- Nothing runs, waits or probes. A recovery worker may be about to ask for a reconnect. -/
def Thread.quiet : Thread → Bool
  | .idle => true
  | .recovering _ => true
  | .recoveryQuiet _ => true
  | .recoveryObserved _ _ => true
  | _ => false

def Server.Quiet (s : Server) : Prop := ∀ i, (s.threads i).quiet = true

/-- The status names the active context and is Connected only over reinitialized caches; it is
Disconnected only if the last operation failed, or a probe of what it had installed did. -/
structure Agrees (s : Server) : Prop where
  ctx : s.status.ctx = s.contextName
  connected : s.status.state = .connected → s.caches = .reinitialized
  disconnected : s.status.state = .disconnected → s.caches = .failed ∨ s.lost = true

/-- The generation a retry within the cluster requires. -/
def Operation.retried (op : Operation) : Option ℕ :=
  match op.caller with
  | .retryHandler _ => op.observedGen
  | _ => none

/-- A handler that still has to publish a failure, or a retry within the cluster that nothing has
superseded. -/
def Thread.Owes (gen : ℕ) : Thread → Prop
  | .failed _ _ _ => True
  | .retryCancelled _ _ => True
  | .retryObserved _ _ g => g = gen
  | .retryProbed _ _ g _ _ => g = gen
  | .waiting op => op.retried = some gen
  | .locked op => op.retried = some gen
  | _ => False

def OwedByOther (s : Server) (i : ℕ) : Prop := ∃ j, j ≠ i ∧ (s.threads j).Owes s.operationGen

/-- A late Disconnected: unless an operation is rebuilding the caches or another handler is still to
publish, it names the active context, and the last operation failed, or the status was lost before,
or the probe behind it met the client and the caches in place. -/
def Late (s : Server) (i : ℕ) (ctx : String) (epoch : Option Epoch) : Prop :=
  s.caches = .rebuilding ∨ OwedByOther s i ∨
    (ctx = s.contextName ∧ (s.caches = .failed ∨ s.lost = true ∨ epoch = some s.epoch))

/-- An operation that fails without a word leaves a status that is not Connected and names the
active context, unless a handler is still to publish. -/
def Silent (s : Server) (i : ℕ) : Prop :=
  OwedByOther s i ∨ (s.status.state ≠ .connected ∧ s.status.ctx = s.contextName)

/-- The end of an operation that nobody publishes. -/
def EndsSilently (s : Server) (op : Operation) (error : Option String) : Prop :=
  (s.inCluster && s.superseded op) = true ∨ (error.isSome = true ∧ op.failureContext = none)

def PublishesInOrder (s : Server) : Act → Prop
  | .publish i =>
    match s.threads i with
    | .failed ctx _ epoch => Late s i ctx epoch
    | .unreachable current _ epoch => Late s i current.ctx (some epoch)
    | _ => True
  | .switchContext i error =>
    match s.threads i with
    | .torn op => error.isSome = true → op.failureContext = none → Silent s i
    | _ => True
  | .initAllSubsystems i error =>
    match s.threads i with
    | .torn op => EndsSilently s op error → Silent s i
    | .swapped op => EndsSilently s op error → Silent s i
    | _ => True
  | _ => True

section Threads

def Thread.operation : Thread → Option Operation
  | .waiting op => some op
  | .locked op => some op
  | .torn op => some op
  | .swapped op => some op
  | _ => none

def Thread.holding : Thread → Option Operation
  | .locked op => some op
  | .torn op => some op
  | .swapped op => some op
  | _ => none

def Thread.running : Thread → Option Operation
  | .torn op => some op
  | .swapped op => some op
  | _ => none

/-- The context that an operation knows to be active. -/
def Thread.placed (inCluster : Bool) : Thread → Option String
  | .locked op => if inCluster then some op.target else none
  | .torn op => if inCluster then some op.target else none
  | .swapped op => some op.target
  | _ => none

/-- The context of a retry within the cluster. -/
def Thread.clustered : Thread → Option String
  | .retryCancelled _ contextName => some contextName
  | .retryObserved _ contextName _ => some contextName
  | .retryProbed _ contextName _ _ _ => some contextName
  | .waiting op => if op.retried.isSome then some op.target else none
  | .locked op => if op.retried.isSome then some op.target else none
  | _ => none

/-- The generation a demotion has captured. -/
def Thread.demoting : Thread → Option ℕ
  | .candidate _ gen => some gen
  | .checking _ gen => some gen
  | .confirming _ gen => some gen
  | .confirmed _ gen _ => some gen
  | .rejected _ gen _ => some gen
  | _ => none

/-- The same, once the demotion has seen no operation at work. -/
def Thread.checked : Thread → Option ℕ
  | .checking _ gen => some gen
  | .confirming _ gen => some gen
  | .confirmed _ gen _ => some gen
  | .rejected _ gen _ => some gen
  | _ => none

def Thread.probed : Thread → Option (ℕ × Epoch)
  | .confirmed _ gen epoch => some (gen,epoch)
  | .rejected _ gen epoch => some (gen,epoch)
  | _ => none

/-- Nothing has to be known of the thread. -/
def Thread.bare : Thread → Bool
  | .idle => true
  | .retrying _ => true
  | .recovering _ => true
  | .recoveryQuiet _ => true
  | .recoveryObserved _ _ => true
  | .failed _ _ _ => true
  | .marking _ _ => true
  | .unreachable _ _ _ => true
  | .reported _ => true
  | _ => false

theorem holding_of_running {r : Thread} (h : r.running.isSome = true) : r.holding.isSome = true := by
  cases r with
  | torn op => rfl
  | swapped op => rfl
  | _ => cases h

theorem operation_of_running {r : Thread} (h : r.running.isSome = true) :
    r.operation.isSome = true := by
  cases r with
  | torn op => rfl
  | swapped op => rfl
  | _ => cases h

theorem holding_of_placed {r : Thread} {inCluster : Bool} {name : String}
    (h : r.placed inCluster = some name) : r.holding.isSome = true := by
  cases r with
  | locked op => rfl
  | torn op => rfl
  | swapped op => rfl
  | _ => nomatch h

theorem demoting_of_checked {r : Thread} {gen : ℕ} (h : r.checked = some gen) :
    r.demoting = some gen := by
  cases r with
  | checking _ _ => exact h
  | confirming _ _ => exact h
  | confirmed _ _ _ => exact h
  | rejected _ _ _ => exact h
  | _ => nomatch h

theorem checked_of_probed {r : Thread} {gen : ℕ} {epoch : Epoch}
    (h : r.probed = some (gen,epoch)) : r.checked = some gen := by
  cases r with
  | confirmed _ _ _ => exact congrArg (fun p => some p.1) (Option.some.inj h)
  | rejected _ _ _ => exact congrArg (fun p => some p.1) (Option.some.inj h)
  | _ => nomatch h

/-- A debt that a new generation cancels is of a retry within the cluster. -/
theorem owes_or_clustered {r : Thread} {gen : ℕ} (h : r.Owes gen) :
    (∀ gen', r.Owes gen') ∨ ∃ name, r.clustered = some name := by
  cases r with
  | failed _ _ _ => exact .inl fun _ => trivial
  | retryCancelled _ contextName => exact .inl fun _ => trivial
  | retryObserved _ contextName _ => exact .inr ⟨contextName,rfl⟩
  | retryProbed _ contextName _ _ _ => exact .inr ⟨contextName,rfl⟩
  | waiting op =>
    have hretried : op.retried = some gen := h
    exact .inr ⟨op.target,by simp [Thread.clustered, hretried]⟩
  | locked op =>
    have hretried : op.retried = some gen := h
    exact .inr ⟨op.target,by simp [Thread.clustered, hretried]⟩
  | _ => exact h.elim

end Threads

structure Thread.Ok (s : Server) (i : ℕ) (r : Thread) : Prop where
  operation : r.operation.isSome = true → i ∈ s.operations
  holding : r.holding.isSome = true → s.contextOpMu = some i
  running : r.running.isSome = true → s.caches = .rebuilding
  placed : ∀ name, r.placed s.inCluster = some name → s.contextName = name
  clustered : ∀ name, r.clustered = some name → s.inCluster = true ∧ s.contextName = name
  demoting : ∀ gen, r.demoting = some gen → s.inCluster = false ∧ gen ≤ s.operationGen
  checked : ∀ gen, r.checked = some gen → gen = s.operationGen → s.caches ≠ .rebuilding
  probed : ∀ gen epoch, r.probed = some (gen,epoch) → gen = s.operationGen → epoch = s.epoch

def Owed (s : Server) : Prop := ∃ i, (s.threads i).Owes s.operationGen

structure StatusInv (s : Server) : Prop where
  threads : ∀ i, (s.threads i).Ok s i
  rebuilding : s.caches = .rebuilding → ∃ i, (s.threads i).running.isSome = true
  status : s.caches = .rebuilding ∨ Owed s ∨ Agrees s

section Steps

variable {s t : Server} {i : ℕ} {r : Thread}

theorem ok_bare (hr : r.bare = true) (s : Server) (i : ℕ) : r.Ok s i := by
  cases r with
  | idle => exact ⟨nofun,nofun,nofun,nofun,nofun,nofun,nofun,nofun⟩
  | retrying ctx => exact ⟨nofun,nofun,nofun,nofun,nofun,nofun,nofun,nofun⟩
  | recovering contextName => exact ⟨nofun,nofun,nofun,nofun,nofun,nofun,nofun,nofun⟩
  | recoveryQuiet contextName => exact ⟨nofun,nofun,nofun,nofun,nofun,nofun,nofun,nofun⟩
  | recoveryObserved contextName gen => exact ⟨nofun,nofun,nofun,nofun,nofun,nofun,nofun,nofun⟩
  | failed ctx error epoch => exact ⟨nofun,nofun,nofun,nofun,nofun,nofun,nofun,nofun⟩
  | marking current message => exact ⟨nofun,nofun,nofun,nofun,nofun,nofun,nofun,nofun⟩
  | unreachable current message epoch => exact ⟨nofun,nofun,nofun,nofun,nofun,nofun,nofun,nofun⟩
  | reported generation => exact ⟨nofun,nofun,nofun,nofun,nofun,nofun,nofun,nofun⟩
  | _ => cases hr

theorem ok_idle (s : Server) (i : ℕ) : Thread.idle.Ok s i := ok_bare rfl s i

theorem ok_failed (s : Server) (i : ℕ) (ctx error : String) (epoch : Option Epoch) :
    (Thread.failed ctx error epoch).Ok s i := ok_bare rfl s i

theorem update_self (h : t.threads = Function.update s.threads i r) : t.threads i = r := by
  rw [h, Function.update_self]

theorem update_of_ne (h : t.threads = Function.update s.threads i r) {j : ℕ} (hj : j ≠ i) :
    t.threads j = s.threads j := by rw [h, Function.update_of_ne hj]

/-- One thread moves; what is known of the others has to survive the step. -/
theorem threads_update (h : ∀ j, (s.threads j).Ok s j)
    (ht : t.threads = Function.update s.threads i r) (hr : r.Ok t i)
    (hothers : ∀ j, j ≠ i → (s.threads j).Ok s j → (s.threads j).Ok t j) :
    ∀ j, (t.threads j).Ok t j := by
  intro j
  rcases eq_or_ne j i with rfl | hj
  · rw [update_self ht]
    exact hr
  · rw [update_of_ne ht hj]
    exact hothers j hj (h j)

/-- Another thread's debt outlives a step that does not move the generation. -/
theorem OwedByOther.update (h : OwedByOther s i)
    (ht : t.threads = Function.update s.threads i r) (hgen : t.operationGen = s.operationGen) :
    Owed t := by
  obtain ⟨j,hj,ho⟩ := h
  refine ⟨j,?_⟩
  rw [update_of_ne ht hj, hgen]
  exact ho

/-- A debt is another thread's, or the moving thread had it. -/
theorem Owed.split (h : Owed s) (i : ℕ) :
    OwedByOther s i ∨ (s.threads i).Owes s.operationGen := by
  obtain ⟨j,ho⟩ := h
  rcases eq_or_ne j i with rfl | hj
  · exact .inr ho
  · exact .inl ⟨j,hj,ho⟩

theorem Agrees.of_eq (h : Agrees s) (hstatus : t.status = s.status)
    (hname : t.contextName = s.contextName) (hcaches : t.caches = s.caches)
    (hlost : t.lost = s.lost) : Agrees t := by
  refine ⟨?_,?_,?_⟩
  · rw [hstatus, hname]
    exact h.ctx
  · rw [hstatus, hcaches]
    exact h.connected
  · rw [hstatus, hcaches, hlost]
    exact h.disconnected

/-- A step that leaves the status and the caches alone keeps the law if it keeps the debts. -/
theorem status_update (h : StatusInv s) (ht : t.threads = Function.update s.threads i r)
    (hgen : t.operationGen = s.operationGen) (hstatus : t.status = s.status)
    (hname : t.contextName = s.contextName) (hcaches : t.caches = s.caches)
    (hlost : t.lost = s.lost)
    (ho : (s.threads i).Owes s.operationGen → r.Owes s.operationGen) :
    t.caches = .rebuilding ∨ Owed t ∨ Agrees t := by
  obtain hr | howed | hagrees := h.status
  · exact .inl (hcaches.trans hr)
  · obtain hother | hself := howed.split i
    · exact .inr (.inl (hother.update ht hgen))
    · refine .inr (.inl ⟨i,?_⟩)
      rw [update_self ht, hgen]
      exact ho hself
  · exact .inr (.inr (hagrees.of_eq hstatus hname hcaches hlost))

/-- A thread that is not rebuilding the caches moves; who is rebuilding them goes on. -/
theorem rebuilding_update (h : StatusInv s) (hi : (s.threads i).running = none)
    (ht : t.threads = Function.update s.threads i r) (hcaches : s.caches = .rebuilding) :
    ∃ j, (t.threads j).running.isSome = true := by
  obtain ⟨j,hj⟩ := h.rebuilding hcaches
  refine ⟨j,?_⟩
  rw [update_of_ne ht]
  · exact hj
  · intro heq
    rw [heq, hi] at hj
    cases hj

theorem StatusInv.setThread (h : StatusInv s) (hi : (s.threads i).running = none) (hr : r.Ok s i)
    (ho : (s.threads i).Owes s.operationGen → r.Owes s.operationGen) :
    StatusInv (s.setThread i r) where
  threads := threads_update h.threads rfl
    ⟨hr.operation,hr.holding,hr.running,hr.placed,hr.clustered,hr.demoting,hr.checked,hr.probed⟩
    fun _ _ hj => ⟨hj.operation,hj.holding,hj.running,hj.placed,hj.clustered,hj.demoting,
      hj.checked,hj.probed⟩
  rebuilding hr := rebuilding_update (s := s) h hi rfl hr
  status := status_update h rfl rfl rfl rfl rfl rfl ho

/-- A thread that owes nothing moves. -/
theorem StatusInv.move (h : StatusInv s) {old : Thread} (hi : s.threads i = old)
    (hrun : old.running = none) (ho : ¬old.Owes s.operationGen) (hr : r.Ok s i) :
    StatusInv (s.setThread i r) :=
  h.setThread (hi ▸ hrun) hr fun howes => absurd (hi ▸ howes) ho

theorem StatusInv.begin (h : StatusInv s) {op : Operation} (hi : (s.threads i).running = none)
    (hcluster : op.retried.isSome = true → s.inCluster = true ∧ s.contextName = op.target)
    (ho : (s.threads i).Owes s.operationGen → op.retried = some s.operationGen) :
    StatusInv (s.begin i op) where
  threads := by
    refine threads_update h.threads rfl ?_ ?_
    · refine ⟨fun _ => List.mem_cons_self,nofun,nofun,nofun,?_,nofun,nofun,nofun⟩
      intro name hname
      simp only [Thread.clustered] at hname
      split_ifs at hname with hretried
      obtain rfl := Option.some.inj hname
      exact hcluster hretried
    · intro j _ hj
      exact ⟨fun hop => List.mem_cons_of_mem i (hj.operation hop),hj.holding,hj.running,hj.placed,
        hj.clustered,hj.demoting,hj.checked,hj.probed⟩
  rebuilding hr := rebuilding_update (s := s) h hi rfl hr
  status := status_update h rfl rfl rfl rfl rfl rfl ho

/-- While the lock is free, or another thread's, a thread holds no operation. -/
theorem Thread.Ok.not_holding {j : ℕ} (h : r.Ok s j) (hlock : s.contextOpMu ≠ some j) :
    ¬r.holding.isSome = true :=
  fun hr => hlock (h.holding hr)

/-- What is known of another thread when an operation returns. -/
theorem Thread.Ok.leave {j : ℕ} (h : r.Ok s j) (hj : j ≠ i) (hlock : s.contextOpMu ≠ some j)
    (hoperations : t.operations = s.operations.erase i) (hcluster : t.inCluster = s.inCluster)
    (hname : t.contextName = s.contextName) (hgen : t.operationGen = s.operationGen)
    (hepoch : t.epoch = s.epoch) (hcaches : t.caches ≠ .rebuilding) : r.Ok t j where
  operation hr := by
    rw [hoperations]
    exact (List.mem_erase_of_ne hj).mpr (h.operation hr)
  holding hr := absurd hr (h.not_holding hlock)
  running hr := absurd (holding_of_running hr) (h.not_holding hlock)
  placed _ hr := absurd (holding_of_placed hr) (h.not_holding hlock)
  clustered := by
    rw [hcluster, hname]
    exact h.clustered
  demoting := by
    rw [hcluster, hgen]
    exact h.demoting
  checked _ _ _ := hcaches
  probed := by
    rw [hgen, hepoch]
    exact h.probed

/-- While the lock is free nobody is rebuilding the caches. -/
theorem StatusInv.not_rebuilding (h : StatusInv s) (hlock : s.contextOpMu = none) :
    s.caches ≠ .rebuilding := by
  intro hr
  obtain ⟨j,hj⟩ := h.rebuilding hr
  exact (h.threads j).not_holding (by rw [hlock]; simp) (holding_of_running hj)

/-- An operation that is turned away before its first effect. -/
theorem StatusInv.turnAway (h : StatusInv s) (hlock : s.contextOpMu = none)
    (ho : ¬(s.threads i).Owes s.operationGen) : StatusInv (s.leave i .idle) where
  threads := by
    refine threads_update h.threads rfl (ok_idle _ i) fun j hj hok => ?_
    have hfree : s.contextOpMu ≠ some j := by rw [hlock]; simp
    exact hok.leave hj hfree rfl rfl rfl rfl rfl (h.not_rebuilding hlock)
  rebuilding hr := absurd hr (h.not_rebuilding hlock)
  status := status_update h rfl rfl rfl rfl rfl rfl fun howes => absurd howes ho

theorem StatusInv.lock (h : StatusInv s) {op : Operation} (hi : s.threads i = .waiting op)
    (hlock : s.contextOpMu = none) (hplaced : s.inCluster = true → op.target = s.contextName) :
    StatusInv ({ s with contextOpMu := some i }.setThread i (.locked op)) where
  threads := by
    have hok : (Thread.waiting op).Ok s i := hi ▸ h.threads i
    refine threads_update h.threads rfl ?_ fun j _ hj => ?_
    · refine ⟨fun _ => hok.operation rfl,fun _ => rfl,nofun,?_,hok.clustered,nofun,nofun,nofun⟩
      intro name hname
      have hname : (if s.inCluster then some op.target else none) = some name := hname
      split_ifs at hname with hcluster
      obtain rfl := Option.some.inj hname
      exact (hplaced hcluster).symm
    · have hfree : s.contextOpMu ≠ some j := by rw [hlock]; simp
      exact ⟨hj.operation,fun hr => absurd hr (hj.not_holding hfree),hj.running,hj.placed,
        hj.clustered,hj.demoting,hj.checked,hj.probed⟩
  rebuilding hr := absurd hr (h.not_rebuilding hlock)
  status := status_update h rfl rfl rfl rfl rfl rfl fun ho => by rw [hi] at ho; exact ho

theorem StatusInv.enter (h : StatusInv s) {op : Operation} {preflight : Bool}
    (hi : s.threads i = .waiting op) (hlock : s.contextOpMu = none) :
    StatusInv (s.enter i op preflight) := by
  have hok : (Thread.waiting op).Ok s i := hi ▸ h.threads i
  have hcluster : op.retried.isSome = true → s.inCluster = true ∧ s.contextName = op.target :=
    fun hr => hok.clustered op.target (by simp [Thread.clustered, hr])
  unfold Server.enter
  split_ifs with hsuperseded hincluster htarget hpreflight
  · apply h.turnAway hlock
    rw [hi]
    intro howes
    have hretried : op.retried = some s.operationGen := howes
    have hgen : op.observedGen = some s.operationGen := by
      unfold Operation.retried at hretried
      split at hretried
      · exact hretried
      · nomatch hretried
    simp [Server.superseded, hgen] at hsuperseded
  · exact h.lock hi hlock fun _ => htarget
  · apply h.turnAway hlock
    rw [hi]
    intro howes
    have hretried : op.retried = some s.operationGen := howes
    exact htarget (hcluster (by rw [hretried]; rfl)).2.symm
  · exact h.lock hi hlock fun hc => absurd hc hincluster
  · apply h.turnAway hlock
    rw [hi]
    intro howes
    have hretried : op.retried = some s.operationGen := howes
    exact hincluster (hcluster (by rw [hretried]; rfl)).1

theorem StatusInv.teardown (h : StatusInv s) {op : Operation} (hi : s.threads i = .locked op) :
    StatusInv (s.teardown i op) where
  threads := by
    have hok : (Thread.locked op).Ok s i := hi ▸ h.threads i
    refine threads_update h.threads rfl ?_ fun j _ hj => ?_
    · exact ⟨fun _ => hok.operation rfl,fun _ => hok.holding rfl,fun _ => rfl,hok.placed,nofun,
        nofun,nofun,nofun⟩
    · have hmoved : ∀ gen, (s.threads j).demoting = some gen →
          s.inCluster = false ∧ gen < (s.teardown i op).operationGen := by
        intro gen hgen
        obtain ⟨hout,hle⟩ := hj.demoting gen hgen
        refine ⟨hout,?_⟩
        simp only [Server.teardown, Server.setThread, hout, Bool.false_eq_true, if_false]
        omega
      refine ⟨hj.operation,hj.holding,fun _ => rfl,hj.placed,hj.clustered,?_,?_,?_⟩
      · exact fun gen hgen => ⟨(hmoved gen hgen).1,le_of_lt (hmoved gen hgen).2⟩
      · intro gen hgen heq
        exact absurd heq (ne_of_lt (hmoved gen (demoting_of_checked hgen)).2)
      · intro gen epoch hprobed heq
        exact absurd heq (ne_of_lt (hmoved gen (demoting_of_checked (checked_of_probed hprobed))).2)
  rebuilding _ := ⟨i,by rw [update_self (s := s) (i := i) (r := .torn op) rfl]; rfl⟩
  status := .inl rfl

/-- Only the thread that holds the lock holds an operation. -/
theorem StatusInv.held (h : StatusInv s) (hi : (s.threads i).holding.isSome = true) {j : ℕ}
    (hj : j ≠ i) : s.contextOpMu ≠ some j := by
  rw [(h.threads i).holding hi]
  exact fun heq => hj (Option.some.inj heq).symm

theorem StatusInv.swap (h : StatusInv s) {op : Operation} (hi : s.threads i = .torn op)
    (hcluster : s.inCluster = false) : StatusInv (s.swap i op) where
  threads := by
    have hok : (Thread.torn op).Ok s i := hi ▸ h.threads i
    refine threads_update h.threads rfl ?_ fun j hne hj => ?_
    · refine ⟨fun _ => hok.operation rfl,fun _ => hok.holding rfl,fun _ => hok.running rfl,?_,
        nofun,nofun,nofun,nofun⟩
      exact fun _ hname => Option.some.inj hname
    · have hfree : s.contextOpMu ≠ some j := h.held (by rw [hi]; rfl) hne
      refine ⟨hj.operation,hj.holding,hj.running,?_,?_,hj.demoting,hj.checked,?_⟩
      · exact fun _ hr => absurd (holding_of_placed hr) (hj.not_holding hfree)
      · intro name hr
        exact absurd (hcluster.symm.trans (hj.clustered name hr).1) (by simp)
      · intro gen epoch hr hgen
        exact absurd (hok.running rfl) (hj.checked gen (checked_of_probed hr) hgen)
  rebuilding _ := ⟨i,by rw [update_self (s := s) (i := i) (r := .swapped op) rfl]; rfl⟩
  status := .inl (by
    have hok : (Thread.torn op).Ok s i := hi ▸ h.threads i
    exact hok.running rfl)

/-- An operation that holds the lock and returns. -/
theorem StatusInv.returns (h : StatusInv s) (hi : (s.threads i).holding.isSome = true)
    (ht : t.threads = Function.update s.threads i r) (hr : r.Ok t i)
    (hoperations : t.operations = s.operations.erase i) (hcluster : t.inCluster = s.inCluster)
    (hname : t.contextName = s.contextName) (hgen : t.operationGen = s.operationGen)
    (hepoch : t.epoch = s.epoch) (hcaches : t.caches ≠ .rebuilding) (hstatus : Owed t ∨ Agrees t) :
    StatusInv t where
  threads := threads_update h.threads ht hr fun _ hj hok =>
    hok.leave hj (h.held hi hj) hoperations hcluster hname hgen hepoch hcaches
  rebuilding hr := absurd hr hcaches
  status := .inr hstatus

theorem StatusInv.fail (h : StatusInv s) (hi : (s.threads i).holding.isSome = true)
    {ctx : Option String} (error : String) (hok : ctx = none → Silent s i) :
    StatusInv (s.fail i ctx error) := by
  cases ctx with
  | some ctx =>
    refine h.returns hi rfl (ok_failed _ i ctx error none) rfl rfl rfl rfl rfl (by nofun) ?_
    exact .inl ⟨i,by rw [update_self (s := s) (r := .failed ctx error none) rfl]; trivial⟩
  | none =>
    refine h.returns hi rfl (ok_idle _ i) rfl rfl rfl rfl rfl (by nofun) ?_
    obtain hother | ⟨hstate,hctx⟩ := hok rfl
    · exact .inl (hother.update rfl rfl)
    · exact .inr ⟨hctx,fun hs => absurd hs hstate,fun _ => .inl rfl⟩

theorem StatusInv.succeed (h : StatusInv s) (hi : (s.threads i).holding.isSome = true)
    {op : Operation} (hname : s.contextName = op.target) : StatusInv (s.succeed i op) :=
  h.returns hi rfl (ok_idle _ i) rfl rfl rfl rfl rfl (by nofun)
    (.inr ⟨hname.symm,fun _ => rfl,by nofun⟩)

theorem StatusInv.finish (h : StatusInv s) (hi : (s.threads i).holding.isSome = true)
    {op : Operation} {error : Option String} (hname : s.contextName = op.target)
    (hok : EndsSilently s op error → Silent s i) : StatusInv (s.finish i op error) := by
  unfold Server.finish
  split_ifs with hsuperseded
  · exact h.fail hi "" fun _ => hok (.inl hsuperseded)
  · cases error with
    | none => exact h.succeed hi hname
    | some error => exact h.fail hi error fun hnone => hok (.inr ⟨rfl,hnone⟩)

theorem StatusInv.disconnect (h : StatusInv s) (hi : (s.threads i).running = none)
    {ctx error : String} {epoch : Option Epoch} (hok : Late s i ctx epoch) : StatusInv (s.disconnect i ⟨.disconnected,ctx,error⟩ epoch) where
  threads := threads_update h.threads rfl (ok_idle _ i) fun _ _ hj =>
    ⟨hj.operation,hj.holding,hj.running,hj.placed,hj.clustered,hj.demoting,hj.checked,hj.probed⟩
  rebuilding hr := rebuilding_update (s := s) h hi rfl hr
  status := by
    obtain hr | hother | ⟨hctx,hdown⟩ := hok
    · exact .inl hr
    · exact .inr (.inl (hother.update rfl rfl))
    · refine .inr (.inr ⟨hctx,by nofun,fun _ => ?_⟩)
      obtain hfailed | hlost | hepoch := hdown
      · exact .inl hfailed
      · exact .inr (by simp [Server.disconnect, Server.setThread, hlost])
      · exact .inr (by simp [Server.disconnect, Server.setThread, hepoch])

/-- A demotion met the client and the caches that are in place. -/
theorem StatusInv.demotion (h : StatusInv s) {generation : ℕ} {epoch : Epoch}
    (hi : s.threads i = .rejected generation s.operationGen epoch) (hlock : s.contextOpMu = none)
    (message : String) : StatusInv (s.demotion i message epoch) := by
  have hok : (Thread.rejected generation s.operationGen epoch).Ok s i := hi ▸ h.threads i
  have hcluster : s.inCluster = false := (hok.demoting s.operationGen rfl).1
  have hepoch : epoch = s.epoch := hok.probed s.operationGen epoch rfl rfl
  refine ⟨?_,by nofun,.inr ?_⟩
  · refine threads_update h.threads rfl (ok_idle _ i) fun j _ hj => ?_
    have hfree : s.contextOpMu ≠ some j := by rw [hlock]; simp
    refine ⟨hj.operation,hj.holding,?_,hj.placed,hj.clustered,?_,by nofun,?_⟩
    · exact fun hr => absurd (holding_of_running hr) (hj.not_holding hfree)
    · exact fun gen hgen => ⟨(hj.demoting gen hgen).1,Nat.le_succ_of_le (hj.demoting gen hgen).2⟩
    · intro gen e hr hgen
      have hle := (hj.demoting gen (demoting_of_checked (checked_of_probed hr))).2
      exact absurd hgen (ne_of_lt (Nat.lt_succ_of_le hle))
  · obtain hr | howed | hagrees := h.status
    · exact absurd hr (h.not_rebuilding hlock)
    · obtain ⟨j,hj,ho⟩ | ho := howed.split i
      · refine .inl ⟨j,?_⟩
        rw [update_of_ne (s := s) (i := i) (r := .idle) rfl hj]
        obtain hall | ⟨name,hname⟩ := owes_or_clustered ho
        · exact hall _
        · exact absurd (hcluster.symm.trans ((h.threads j).clustered name hname).1) (by simp)
      · rw [hi] at ho
        exact ho.elim
    · refine .inr ⟨hagrees.ctx,by nofun,fun _ => .inr ?_⟩
      simp [Server.demotion, Server.disconnect, Server.setThread, hepoch]

/-- A retry within the cluster cancels what is under way. -/
theorem StatusInv.cancel (h : StatusInv s) (hi : (s.threads i).running = none)
    (hcluster : s.inCluster = true) (ctx : String) :
    StatusInv ({ s with operationGen := s.operationGen+1 }.setThread i
      (.retryCancelled ctx s.contextName)) where
  threads := by
    refine threads_update h.threads rfl ?_ fun j _ hj => ?_
    · refine ⟨nofun,nofun,nofun,nofun,?_,nofun,nofun,nofun⟩
      exact fun name hname => ⟨hcluster,Option.some.inj hname⟩
    · have hquiet : ∀ gen, (s.threads j).demoting ≠ some gen := by
        intro gen hgen
        exact absurd (hcluster.symm.trans (hj.demoting gen hgen).1) (by simp)
      refine ⟨hj.operation,hj.holding,hj.running,hj.placed,hj.clustered,?_,?_,?_⟩
      · exact fun gen hgen => absurd hgen (hquiet gen)
      · exact fun gen hgen => absurd (demoting_of_checked hgen) (hquiet gen)
      · exact fun gen _ hr => absurd (demoting_of_checked (checked_of_probed hr)) (hquiet gen)
  rebuilding hr := rebuilding_update (s := s) h hi rfl hr
  status := .inr (.inl ⟨i,by
    rw [update_self (s := s) (i := i) (r := .retryCancelled ctx s.contextName) rfl]
    trivial⟩)

end Steps

section Runs

variable {s t : Server}

theorem retryStep_inv (h : StatusInv s) (a : Act) (ht : s.retryStep a = some t) : StatusInv t := by
  cases a with
  | handleConnectionRetry i =>
    simp only [Server.retryStep] at ht
    split at ht
    · rename_i hi
      obtain rfl := Option.some.inj ht
      exact h.move hi rfl id (ok_bare rfl s i)
    · cases ht
  | retryCurrentConnection i =>
    simp only [Server.retryStep] at ht
    split at ht
    · rename_i ctx hi
      split_ifs at ht with hcluster
      · obtain rfl := Option.some.inj ht
        exact h.cancel (by rw [hi]; rfl) hcluster ctx
      · obtain rfl := Option.some.inj ht
        exact h.begin (by rw [hi]; rfl) (by nofun) fun ho => by rw [hi] at ho; exact ho.elim
    · cases ht
  | retryProbe i error =>
    simp only [Server.retryStep] at ht
    split at ht
    · rename_i ctx contextName gen hi
      have hok : (Thread.retryObserved ctx contextName gen).Ok s i := hi ▸ h.threads i
      split_ifs at ht with hgen
      · obtain rfl := Option.some.inj ht
        exact h.move hi rfl hgen (ok_idle s i)
      · obtain rfl := Option.some.inj ht
        refine h.setThread (by rw [hi]; rfl)
          ⟨nofun,nofun,nofun,nofun,hok.clustered,nofun,nofun,nofun⟩ fun ho => ?_
        rw [hi] at ho
        exact ho
    · cases ht
  | retryCheck i =>
    simp only [Server.retryStep] at ht
    split at ht
    · rename_i ctx contextName gen error epoch hi
      have hok : (Thread.retryProbed ctx contextName gen error epoch).Ok s i := hi ▸ h.threads i
      split_ifs at ht with hgen
      · obtain rfl := Option.some.inj ht
        exact h.move hi rfl hgen (ok_idle s i)
      · cases error with
        | some error =>
          obtain rfl := Option.some.inj ht
          exact h.setThread (by rw [hi]; rfl) (ok_failed s i ctx error (some epoch)) fun _ => trivial
        | none =>
          obtain rfl := Option.some.inj ht
          refine h.begin (by rw [hi]; rfl) (fun _ => hok.clustered contextName rfl) fun _ => ?_
          exact congrArg some (not_not.mp hgen)
    · cases ht
  | _ => cases ht

theorem recoveryStep_inv (h : StatusInv s) (a : Act) (ht : s.recoveryStep a = some t) :
    StatusInv t := by
  cases a with
  | recover i =>
    simp only [Server.recoveryStep] at ht
    split at ht
    · rename_i hi
      split at ht
      · obtain rfl := Option.some.inj ht
        exact h.move hi rfl id (ok_bare rfl s i)
      · obtain rfl := Option.some.inj ht
        exact h
    · cases ht
  | recoveryOperations i =>
    simp only [Server.recoveryStep] at ht
    split at ht
    · rename_i contextName hi
      split_ifs at ht
      · obtain rfl := Option.some.inj ht
        exact h.move hi rfl id (ok_bare rfl s i)
      · obtain rfl := Option.some.inj ht
        exact h.move hi rfl id (ok_idle s i)
    · cases ht
  | reconnect i =>
    simp only [Server.recoveryStep] at ht
    split at ht
    · rename_i contextName gen hi
      obtain rfl := Option.some.inj ht
      exact h.begin (by rw [hi]; rfl) (by nofun) fun ho => by rw [hi] at ho; exact ho.elim
    · cases ht
  | giveUp i =>
    simp only [Server.recoveryStep] at ht
    split at ht
    · rename_i contextName gen hi
      obtain rfl := Option.some.inj ht
      exact h.move hi rfl id (ok_idle s i)
    · cases ht
  | _ => cases ht

theorem operationStep_inv (h : StatusInv s) {a : Act} (hok : PublishesInOrder s a)
    (ht : s.operationStep a = some t) : StatusInv t := by
  cases a with
  | handleSwitchContext i name =>
    simp only [Server.operationStep] at ht
    split at ht
    · rename_i hi
      split_ifs at ht
      · obtain rfl := Option.some.inj ht
        exact h
      · obtain rfl := Option.some.inj ht
        exact h.begin (by rw [hi]; rfl) (by nofun) fun ho => by rw [hi] at ho; exact ho.elim
    · cases ht
  | lock i preflight =>
    simp only [Server.operationStep] at ht
    split at ht
    · rename_i op hi hlock
      obtain rfl := Option.some.inj ht
      exact h.enter hi hlock
    · cases ht
  | resetAllSubsystems i =>
    simp only [Server.operationStep] at ht
    split at ht
    · rename_i op hi
      obtain rfl := Option.some.inj ht
      exact h.teardown hi
    · cases ht
  | switchContext i error =>
    simp only [Server.operationStep] at ht
    split at ht
    · rename_i op hi
      simp only [PublishesInOrder, hi] at hok
      split_ifs at ht with hcluster
      cases error with
      | none =>
        obtain rfl := Option.some.inj ht
        exact h.swap hi (by simpa using hcluster)
      | some error =>
        obtain rfl := Option.some.inj ht
        exact h.fail (by rw [hi]; rfl) error (hok rfl)
    · cases ht
  | initAllSubsystems i error =>
    simp only [Server.operationStep] at ht
    split at ht
    · rename_i op hi
      have hthread : (Thread.torn op).Ok s i := hi ▸ h.threads i
      simp only [PublishesInOrder, hi] at hok
      split_ifs at ht with hcluster
      obtain rfl := Option.some.inj ht
      exact h.finish (by rw [hi]; rfl) (hthread.placed op.target (if_pos hcluster)) hok
    · rename_i op hi
      have hthread : (Thread.swapped op).Ok s i := hi ▸ h.threads i
      simp only [PublishesInOrder, hi] at hok
      obtain rfl := Option.some.inj ht
      exact h.finish (by rw [hi]; rfl) (hthread.placed op.target rfl) hok
    · cases ht
  | _ => cases ht

theorem markStep_inv (h : StatusInv s) {a : Act} (hok : PublishesInOrder s a)
    (ht : s.markStep a = some t) : StatusInv t := by
  cases a with
  | mark i message =>
    simp only [Server.markStep] at ht
    split at ht
    · rename_i hi
      split_ifs at ht
      · obtain rfl := Option.some.inj ht
        exact h
      · obtain rfl := Option.some.inj ht
        exact h.move hi rfl id (ok_bare rfl s i)
    · cases ht
  | markProbe i reachable =>
    simp only [Server.markStep] at ht
    split at ht
    · rename_i current message hi
      split_ifs at ht
      · obtain rfl := Option.some.inj ht
        exact h.move hi rfl id (ok_idle s i)
      · obtain rfl := Option.some.inj ht
        exact h.move hi rfl id (ok_bare rfl s i)
    · cases ht
  | publish i =>
    simp only [Server.markStep] at ht
    split at ht
    · rename_i ctx error epoch hi
      simp only [PublishesInOrder, hi] at hok
      obtain rfl := Option.some.inj ht
      exact h.disconnect (by rw [hi]; rfl) hok
    · rename_i current message epoch hi
      simp only [PublishesInOrder, hi] at hok
      obtain rfl := Option.some.inj ht
      exact h.disconnect (by rw [hi]; rfl) hok
    · cases ht
  | _ => cases ht

theorem demotionStep_inv (h : StatusInv s) (a : Act) (ht : s.demotionStep a = some t) :
    StatusInv t := by
  cases a with
  | report i generation =>
    simp only [Server.demotionStep] at ht
    split at ht
    · rename_i hi
      split_ifs at ht
      · obtain rfl := Option.some.inj ht
        exact h.move hi rfl id (ok_bare rfl s i)
      · obtain rfl := Option.some.inj ht
        exact h
    · cases ht
  | intake i =>
    simp only [Server.demotionStep] at ht
    split at ht
    · rename_i generation hi
      split_ifs at ht with hcurrent
      · obtain rfl := Option.some.inj ht
        refine h.move hi rfl id ⟨nofun,nofun,nofun,nofun,nofun,?_,nofun,nofun⟩
        have hout : s.inCluster = false := by
          simp only [Server.stateIsCurrent, Bool.and_eq_true, Bool.not_eq_true'] at hcurrent
          exact hcurrent.1.1
        exact fun gen hgen => ⟨hout,le_of_eq (Option.some.inj hgen).symm⟩
      · obtain rfl := Option.some.inj ht
        exact h.move hi rfl id (ok_idle s i)
    · cases ht
  | checkOperations i =>
    simp only [Server.demotionStep] at ht
    split at ht
    · rename_i generation operationGen hi
      have hok : (Thread.candidate generation operationGen).Ok s i := hi ▸ h.threads i
      split_ifs at ht with hnone
      · obtain rfl := Option.some.inj ht
        refine h.move hi rfl id ⟨nofun,nofun,nofun,nofun,nofun,hok.demoting,?_,nofun⟩
        intro _ _ _ hr
        obtain ⟨j,hj⟩ := h.rebuilding hr
        have hmem : j ∈ s.operations := (h.threads j).operation (operation_of_running hj)
        rw [hnone] at hmem
        cases hmem
      · obtain rfl := Option.some.inj ht
        exact h.move hi rfl id (ok_idle s i)
    · cases ht
  | checkCurrent i =>
    simp only [Server.demotionStep] at ht
    split at ht
    · rename_i generation operationGen hi
      have hok : (Thread.checking generation operationGen).Ok s i := hi ▸ h.threads i
      split_ifs at ht
      · obtain rfl := Option.some.inj ht
        exact h.move hi rfl id
          ⟨nofun,nofun,nofun,nofun,nofun,hok.demoting,hok.checked,nofun⟩
      · obtain rfl := Option.some.inj ht
        exact h.move hi rfl id (ok_idle s i)
    · cases ht
  | authProbe i rejected =>
    simp only [Server.demotionStep] at ht
    split at ht
    · rename_i generation operationGen hi
      have hok : (Thread.confirming generation operationGen).Ok s i := hi ▸ h.threads i
      split_ifs at ht
      · obtain rfl := Option.some.inj ht
        refine h.move hi rfl id
          ⟨nofun,nofun,nofun,nofun,nofun,hok.demoting,hok.checked,?_⟩
        exact fun gen epoch hr _ => (congrArg Prod.snd (Option.some.inj hr)).symm
      · obtain rfl := Option.some.inj ht
        exact h.move hi rfl id (ok_idle s i)
    · cases ht
  | endpointProbe i reachable =>
    simp only [Server.demotionStep] at ht
    split at ht
    · rename_i generation operationGen epoch hi
      have hok : (Thread.confirmed generation operationGen epoch).Ok s i := hi ▸ h.threads i
      split_ifs at ht
      · obtain rfl := Option.some.inj ht
        exact h.move hi rfl id
          ⟨nofun,nofun,nofun,nofun,nofun,hok.demoting,hok.checked,hok.probed⟩
      · obtain rfl := Option.some.inj ht
        exact h.move hi rfl id (ok_idle s i)
    · cases ht
  | demote i message =>
    simp only [Server.demotionStep] at ht
    split at ht
    · rename_i generation operationGen epoch hi hlock
      split_ifs at ht with hcurrent
      · obtain rfl := Option.some.inj ht
        obtain rfl : s.operationGen = operationGen := by
          simpa using (Bool.and_eq_true_iff.mp hcurrent).2
        exact h.demotion hi hlock message
      · obtain rfl := Option.some.inj ht
        exact h.move hi rfl id (ok_idle s i)
    · cases ht
  | _ => cases ht

theorem observe_inv (h : StatusInv s) {i : ℕ} (ht : s.step (.observe i) = some t) :
    StatusInv t := by
  simp only [Server.step] at ht
  split at ht
  · rename_i ctx contextName hi
    have hok : (Thread.retryCancelled ctx contextName).Ok s i := hi ▸ h.threads i
    obtain rfl := Option.some.inj ht
    exact h.setThread (by rw [hi]; rfl)
      ⟨nofun,nofun,nofun,nofun,hok.clustered,nofun,nofun,nofun⟩ fun _ => rfl
  · rename_i contextName hi
    obtain rfl := Option.some.inj ht
    exact h.move hi rfl id (ok_bare rfl s i)
  · cases ht

theorem step_inv (h : StatusInv s) {a : Act} (hok : PublishesInOrder s a)
    (ht : s.step a = some t) : StatusInv t := by
  cases a with
  | observe i => exact observe_inv h ht
  | handleConnectionRetry i => exact retryStep_inv h (.handleConnectionRetry i) ht
  | retryCurrentConnection i => exact retryStep_inv h (.retryCurrentConnection i) ht
  | retryProbe i error => exact retryStep_inv h (.retryProbe i error) ht
  | retryCheck i => exact retryStep_inv h (.retryCheck i) ht
  | recover i => exact recoveryStep_inv h (.recover i) ht
  | recoveryOperations i => exact recoveryStep_inv h (.recoveryOperations i) ht
  | reconnect i => exact recoveryStep_inv h (.reconnect i) ht
  | giveUp i => exact recoveryStep_inv h (.giveUp i) ht
  | mark i message => exact markStep_inv h hok ht
  | markProbe i reachable => exact markStep_inv h hok ht
  | publish i => exact markStep_inv h hok ht
  | handleSwitchContext i name => exact operationStep_inv h hok ht
  | lock i preflight => exact operationStep_inv h hok ht
  | resetAllSubsystems i => exact operationStep_inv h hok ht
  | switchContext i error => exact operationStep_inv h hok ht
  | initAllSubsystems i error => exact operationStep_inv h hok ht
  | report i generation => exact demotionStep_inv h (.report i generation) ht
  | intake i => exact demotionStep_inv h (.intake i) ht
  | checkOperations i => exact demotionStep_inv h (.checkOperations i) ht
  | checkCurrent i => exact demotionStep_inv h (.checkCurrent i) ht
  | authProbe i rejected => exact demotionStep_inv h (.authProbe i rejected) ht
  | endpointProbe i reachable => exact demotionStep_inv h (.endpointProbe i reachable) ht
  | demote i message => exact demotionStep_inv h (.demote i message) ht

theorem started_inv (inCluster : Bool) (contextName : String) (error : Option String) :
    StatusInv (started inCluster contextName error) where
  threads i := ok_idle _ i
  rebuilding := by
    cases error with
    | none => nofun
    | some error => nofun
  status := by
    cases error with
    | none => exact .inr (.inr ⟨rfl,fun _ => rfl,nofun⟩)
    | some error => exact .inr (.inr ⟨rfl,nofun,fun _ => .inl rfl⟩)

theorem quiet_spec {r : Thread} (h : r.quiet = true) :
    r.running = none ∧ ∀ gen, ¬r.Owes gen := by
  cases r with
  | idle => exact ⟨rfl,fun _ => id⟩
  | recovering _ => exact ⟨rfl,fun _ => id⟩
  | recoveryQuiet _ => exact ⟨rfl,fun _ => id⟩
  | recoveryObserved _ _ => exact ⟨rfl,fun _ => id⟩
  | _ => nomatch h

/-- When nothing is under way there is no debt, and nobody is rebuilding the caches. -/
theorem StatusInv.agrees (h : StatusInv s) (hquiet : s.Quiet) : Agrees s := by
  obtain hr | ⟨i,ho⟩ | hagrees := h.status
  · obtain ⟨i,hi⟩ := h.rebuilding hr
    rw [(quiet_spec (hquiet i)).1] at hi
    cases hi
  · exact absurd ho ((quiet_spec (hquiet i)).2 s.operationGen)
  · exact hagrees

/-- In a run that publishes in order the status agrees with the cluster in use whenever nothing is
under way. -/
theorem status_agrees {inCluster : Bool} {contextName : String} {error : Option String}
    {as : List Act}
    (hm : Meets Server.step PublishesInOrder (started inCluster contextName error) as)
    (hr : run Server.step (started inCluster contextName error) as = some s) (hquiet : s.Quiet) :
    Agrees s :=
  (meets_invariant (fun _ _ _ h hok ht => step_inv h hok ht)
    (started_inv inCluster contextName error) hm hr).agrees hquiet

def switching (i : ℕ) (target : String) (error : Option String) : List Act :=
  [.handleSwitchContext i target,.lock i true,.resetAllSubsystems i,.switchContext i none,
    .initAllSubsystems i error]

/-- A switch that fails, and a retry that succeeds once the failure is published. -/
def retried : List Act :=
  switching 0 "y" (some "refused")++[Act.publish 0,.handleConnectionRetry 1,.retryCurrentConnection 1,
    .lock 1 true,.resetAllSubsystems 1,.switchContext 1 none,.initAllSubsystems 1 none]

theorem status_agrees_retried : ∃ s,
    run Server.step (started false "x" none) retried = some s ∧ Agrees s := by
  have hr : ∃ s, run Server.step (started false "x" none) retried = some s ∧ s.Quiet :=
    ⟨_,rfl,fun i => match i with | 0 => rfl | 1 => rfl | _+2 => rfl⟩
  obtain ⟨s,hs,hquiet⟩ := hr
  refine ⟨s,hs,status_agrees ?_ hs hquiet⟩
  refine meets_cons trivial rfl (meets_cons trivial rfl (meets_cons trivial rfl ?_))
  refine meets_cons (by nofun) rfl (meets_cons ?_ rfl ?_)
  · exact fun hends => hends.elim nofun fun hsilent => nomatch hsilent.2
  refine meets_cons (.inr (.inr ⟨rfl,.inl rfl⟩)) rfl (meets_cons trivial rfl ?_)
  refine meets_cons trivial rfl (meets_cons trivial rfl (meets_cons trivial rfl ?_))
  refine meets_cons (by nofun) rfl (meets_cons ?_ rfl trivial)
  exact fun hends => hends.elim nofun fun hsilent => nomatch hsilent.1

/-- The failure of a switch to `y` is published after the switch to `z`. -/
def overtaken : List Act :=
  switching 0 "y" (some "refused")++switching 1 "z" none++[Act.publish 0]

/-- The client of `x` cannot be reached; that is published after the switch to `y`. -/
def outlived : List Act :=
  [Act.mark 0 "unreachable",.markProbe 0 false]++switching 1 "y" none++[Act.publish 0]

/-- The kubeconfig of `y` cannot be loaded, and the client of `x` stays. -/
def unswapped : List Act :=
  [.handleSwitchContext 0 "y",.lock 0 true,.resetAllSubsystems 0,.switchContext 0 (some "no file"),
    .publish 0]

/-- The worker has read the status of a failed switch when a second one succeeds, and its own
reconnect fails. -/
def unpublished : List Act :=
  switching 0 "y" (some "expired")++[Act.publish 0,.recover 0]++switching 1 "y" none
    ++[Act.recoveryOperations 0,.observe 0,.reconnect 0,.lock 0 true,.resetAllSubsystems 0,
      .switchContext 0 none,.initAllSubsystems 0 (some "expired")]

theorem status_disagrees : [overtaken,outlived,unswapped,unpublished].Forall fun as => ∃ s,
    run Server.step (started false "x" none) as = some s ∧ s.Quiet ∧ ¬Agrees s := by
  have hquiet : ∀ {s : Server}, (s.threads 0).quiet = true → (s.threads 1).quiet = true →
      (∀ i, (s.threads (i+2)).quiet = true) → s.Quiet :=
    fun h0 h1 h2 i => match i with | 0 => h0 | 1 => h1 | i+2 => h2 i
  refine List.forall_iff_forall_mem.mpr fun as has => ?_
  simp only [List.mem_cons, List.not_mem_nil, or_false] at has
  obtain rfl | rfl | rfl | rfl := has
  · exact ⟨_,rfl,hquiet rfl rfl fun _ => rfl,fun h => absurd h.ctx (by decide)⟩
  · exact ⟨_,rfl,hquiet rfl rfl fun _ => rfl,fun h => absurd h.ctx (by decide)⟩
  · exact ⟨_,rfl,hquiet rfl rfl fun _ => rfl,fun h => absurd h.ctx (by decide)⟩
  · exact ⟨_,rfl,hquiet rfl rfl fun _ => rfl,fun h => absurd (h.connected rfl) (by decide)⟩

end Runs

end Radar.Connection