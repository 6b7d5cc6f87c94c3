import Radar.Ai.HistorySteps

/-!
# The transcript protocol

A manager as it is after a restart, and what holds of every state that it
reaches: its transcripts, its agents, the terminals of those that interrupt a
turn, and where a session comes from.
-/

set_option autoImplicit false

namespace Radar.Ai

open Radar.Numbered
open Radar.Run (run Meets meets_invariant)
open Radar.Ai.Run

/-- A run whose row was in the store when the process began; its transcript is not in memory. -/
structure Restored (r : Run) : Prop where
  status : r.status ≠ .running
  inFlight : r.inFlight = false
  hydrated : r.hydrated = false
  store : r.store = true
  events : r.events = []
  subs : r.subs = if r.status = .stale then none else some []
  nextSub : r.nextSub = 0

/-- A manager after its restart, once the writer has done what the restart enqueued. -/
structure Loaded (s : Manager) : Prop where
  idle : ∀ i, s.threads i = .idle
  mu : s.mu = false
  locked : s.locked = []
  ops : s.ops = []
  applied : s.applied = 0
  ids : ∀ r, (s.runs r).id = r
  nodup : s.order.Nodup
  born : ∀ r ∈ s.order, r < s.made
  restored : ∀ r ∈ s.order, Restored (s.runs r) ∧
    Restorable (s.runs r).live (s.tables.events r)
  inert : ∀ r ∉ s.order, s.runs r = { id := r }

theorem loaded_fresh : Loaded {} where
  idle _ := rfl
  mu := rfl
  locked := rfl
  ops := rfl
  applied := rfl
  ids _ := rfl
  nodup := List.nodup_nil
  born := (by simp)
  restored := (by simp)
  inert _ _ := rfl

section Loaded

variable {s : Manager}

theorem Restored.live {r : Run} (h : Restored r) : r.live = true ↔ r.status ≠ .stale := by
  rw [Run.live, h.subs]
  by_cases hs : r.status = .stale <;> simp [hs]

theorem Restored.ok {r : Run} (h : Restored r) : RunOk none r where
  held hn := absurd rfl hn
  free _ := ⟨h.inFlight,h.status⟩
  running hs := absurd hs h.status
  stale hs := by
    by_contra hlive
    exact h.live.mp (by simpa using hlive) hs
  numbered := by rw [h.events]; trivial
  unhydrated _ _ := h.events
  detached _ hs := by cases h.store.symm.trans hs

theorem inert_ok (r : ℕ) : RunOk none ({ id := r } : Run) where
  held hn := absurd rfl hn
  free _ := ⟨rfl,nofun⟩
  running := nofun
  stale _ := rfl
  numbered := trivial
  unhydrated := nofun
  detached _ _ := rfl

/-- A restored run, or one there never was. -/
theorem Loaded.cases (h : Loaded s) (r : ℕ) :
    r ∈ s.order ∧ Restored (s.runs r) ∨ s.runs r = { id := r } := by
  by_cases hr : r ∈ s.order
  · exact .inl ⟨hr,(h.restored r hr).1⟩
  · exact .inr (h.inert r hr)

theorem Loaded.free (h : Loaded s) {r : ℕ} {k : Option Hold} (hk : Holds s r k) : k = none := by
  cases k with
  | none => rfl
  | some k =>
    obtain ⟨i,hi⟩ := hk
    rw [h.idle i] at hi
    cases hi

theorem Loaded.unhydrated (h : Loaded s) (r : ℕ) : (s.runs r).hydrated = false := by
  rcases h.cases r with ⟨_,hr⟩ | hr
  · exact hr.hydrated
  · rw [hr]

theorem Loaded.inv (h : Loaded s) : ManagerInv s where
  ids := h.ids
  one i j r k l hi := by
    rw [h.idle i] at hi
    cases hi
  ok r k hk := by
    rw [h.free hk]
    rcases h.cases r with ⟨_,hr⟩ | hr
    · exact hr.ok
    · rw [hr]
      exact inert_ok r
  unborn r hr := by
    rcases h.cases r with ⟨hin,_⟩ | hinert
    · exact absurd (h.born r hin) (by omega)
    · rw [hinert]
  nodup := h.nodup
  order r hr := by
    have hrestored := (h.restored r hr).1
    refine ⟨h.born r hr,?_,.inr hrestored.store⟩
    by_cases hs : (s.runs r).status = .stale
    · exact .inr hs
    · exact .inl (hrestored.live.mpr hs)
  stored r _ hstore n _ := by
    rcases h.cases r with ⟨hr,_⟩ | hinert
    · have hrows : s.rowsAt n r = s.tables.events r := by
        rw [Manager.rowsAt, h.ops, List.take_nil]
        rfl
      rw [hrows]
      exact (h.restored r hr).2
    · rw [hinert] at hstore
      cases hstore
  threads i := by
    rw [h.idle i]
    trivial
  locked r hr := by
    rw [h.locked] at hr
    cases hr
  unlocked _ := h.locked
  clears i hi := by
    rw [h.idle i] at hi
    cases hi
  alone i j hi _ := by
    rw [h.idle i] at hi
    cases hi
  written := by rw [h.applied]; exact Nat.zero_le _

theorem Loaded.log (h : Loaded s) : LogInv s :=
  fun r _ _ hyd => by cases (h.unhydrated r).symm.trans hyd

end Loaded

section Runs

variable {bindRootCauseEvidence : List RunEvent → Verdict → Verdict} {s t u : Manager} {a : Act}
  {as : List Act}

/-- The invariant holds in every state, whatever the steps. -/
theorem reached_inv (hs : Loaded s) (hr : run (Manager.step bindRootCauseEvidence) s as = some t) :
    ManagerInv t :=
  Radar.Run.run_invariant (fun _ _ _ inv ht => (step_kept inv ht).1) hs.inv hr

/-- Where every step is attributed, every log is in place. -/
theorem reached_log (hs : Loaded s)
    (hm : Meets (Manager.step bindRootCauseEvidence) AttributedAt s as)
    (hr : run (Manager.step bindRootCauseEvidence) s as = some t) : LogInv t := by
  have hboth := meets_invariant (I := fun s => ManagerInv s ∧ LogInv s)
    (fun s a t hs hattr ht => ⟨(step_kept hs.1 ht).1,(step_kept hs.1 ht).2 hs.2 hattr⟩)
    ⟨hs.inv,hs.log⟩ hm hr
  exact hboth.2

end Runs

section Interrupts

/-- Stop, Shutdown, and the sweep of a context switch, which a look-up may catch up on. -/
def Act.interrupts : Act → Bool
  | .stop _ => true
  | .markStale _ => true
  | .shutdownRun _ => true
  | .get _ _ _ => true
  | _ => false

/-- What such a step makes of a run. -/
def Interrupted (a b : Run) : Prop :=
  b = a ∨ b = a.stop.1 ∨ b = a.shutdown.1 ∨ b = a.markStale.1

theorem log_of_core {a b : Run} (h : b.core = a.core) : b.log = a.log := by
  unfold Run.log
  rw [core_events h]

theorem markStale_log_eq (r : Run) : r.markStale.1.log = r.log ∨
    r.markStale.1.log = r.log++[staleTerminal r.activeApply,closedEvent] := by
  rcases markStale_cases r with hsame | ⟨_,hlive,_,hstale⟩ | ⟨_,_,_,hstale⟩
  · rw [hsame]
    exact .inl rfl
  · right
    rw [hstale, log_of_core (appendTerminalAndFinalizeLocked_core hlive _ _)]
    exact log_extend r _ .stale
  · rw [hstale]
    exact .inl rfl

theorem stop_log_eq (r : Run) :
    r.stop.1.log = r.log ∨ r.stop.1.log = r.log++[stopTerminal r.activeApply] := by
  unfold Run.stop
  cases r.taking with
  | false => exact .inl rfl
  | true => exact .inr ((log_of_core (appendLocked_core r _ .stopped)).trans (log_extend r _ _))

theorem shutdown_log_eq (r : Run) :
    r.shutdown.1.log = r.log ∨ r.shutdown.1.log = r.log++[shutdownTerminal r.activeApply] := by
  unfold Run.shutdown
  cases r.taking with
  | false => exact .inl rfl
  | true => exact .inr ((log_of_core (appendLocked_core r _ .stopped)).trans (log_extend r _ _))

/-- An open apply turn that is interrupted ends with the outcome unknown. -/
theorem interrupted_unknown {a b : Run} {turn e : StreamEvent} {rest : List StreamEvent}
    (h : Interrupted a b) (hin : a.inFlight = true) (hopen : OpenTurn a.log turn)
    (happly : turn.apply = true) (hlog : b.log = a.log++e::rest) :
    e.applyOutcome = some .unknown := by
  have hactive : a.activeApply = true := (activeApply_open hin hopen).trans happly
  have hfirst : ∀ {d : StreamEvent} {more : List StreamEvent},
      b.log = a.log ∨ b.log = a.log++d::more → d = e := by
    rintro d more (hsame | hmore)
    · rw [hsame] at hlog
      simp at hlog
    · rw [hlog] at hmore
      exact (List.cons.inj (List.append_cancel_left hmore)).1.symm
  rcases h with rfl | rfl | rfl | rfl
  · simp at hlog
  · rw [← hfirst (stop_log_eq a), hactive]
    rfl
  · rw [← hfirst (shutdown_log_eq a), hactive]
    rfl
  · rw [← hfirst (markStale_log_eq a), hactive]
    rfl

variable {bindRootCauseEvidence : List RunEvent → Verdict → Verdict} {s t : Manager} {a : Act}

theorem put_interrupted (s : Manager) (q : ℕ) (done : Run × List StoreOp)
    (h : Interrupted (s.runs q) done.1) (r : ℕ) :
    Interrupted (s.runs r) ((s.put q done).runs r) := by
  show Interrupted (s.runs r) (Function.update s.runs q done.1 r)
  by_cases hr : r = q
  · rw [hr, Function.update_self]
    exact h
  · rw [Function.update_of_ne hr]
    exact .inl rfl

theorem sweep_interrupted (r : ℕ) (rs : List ℕ) :
    ∀ s : Manager, rs.Nodup → Interrupted (s.runs r) ((rs.foldl
      (fun s r => if (s.runs r).context ≠ s.ctx then s.put r (s.runs r).markStale else s)
      s).runs r) ∧ (r ∉ rs → ((rs.foldl
      (fun s r => if (s.runs r).context ≠ s.ctx then s.put r (s.runs r).markStale else s)
      s).runs r) = s.runs r) := by
  induction rs with
  | nil => exact fun s _ => ⟨.inl rfl,fun _ => rfl⟩
  | cons q rs ih =>
    intro s hnodup
    obtain ⟨hq,hrest⟩ := List.nodup_cons.mp hnodup
    rw [List.foldl_cons]
    obtain ⟨hmore,hsame⟩ := ih
      (if (s.runs q).context ≠ s.ctx then s.put q (s.runs q).markStale else s) hrest
    by_cases hctx : (s.runs q).context ≠ s.ctx
    · rw [if_pos hctx] at hmore hsame ⊢
      by_cases hr : r = q
      · rw [hr] at hsame ⊢
        rw [hsame hq]
        exact ⟨put_interrupted s q _ (.inr (.inr (.inr rfl))) q,
          fun hn => absurd List.mem_cons_self hn⟩
      · have hrun : (s.put q (s.runs q).markStale).runs r = s.runs r :=
          Function.update_of_ne hr _ _
        rw [hrun] at hmore hsame
        exact ⟨hmore,fun hn => hsame fun hin => hn (List.mem_cons_of_mem q hin)⟩
    · rw [if_neg hctx] at hmore hsame ⊢
      exact ⟨hmore,fun hn => hsame fun hin => hn (List.mem_cons_of_mem q hin)⟩

theorem sweepForeign_interrupted (s : Manager) (hnodup : s.order.Nodup) (r : ℕ) :
    Interrupted (s.runs r) (s.sweepForeign.runs r) := by
  unfold Manager.sweepForeign
  split_ifs with hswept
  · exact .inl rfl
  · exact (sweep_interrupted r s.order { s with sweptCtx := s.ctx } hnodup).1

/-- A step that interrupts, interrupts. -/
theorem step_interrupted (hnodup : s.order.Nodup) (ha : a.interrupts = true)
    (ht : s.step bindRootCauseEvidence a = some t) (r : ℕ) :
    Interrupted (s.runs r) (t.runs r) := by
  cases a with
  | stop i =>
    simp only [Manager.step, Manager.turnStep] at ht
    split at ht
    · split_ifs at ht with hlocked
      obtain rfl := Option.some.inj ht
      exact put_interrupted s _ _ (.inr (.inl rfl)) r
    · cases ht
  | markStale i =>
    simp only [Manager.step, Manager.sweepStep] at ht
    split at ht
    · split_ifs at ht with hlocked
      obtain rfl := Option.some.inj ht
      exact put_interrupted s _ _ (.inr (.inr (.inr rfl))) r
    · obtain rfl := Option.some.inj ht
      exact .inl rfl
    · cases ht
  | shutdownRun i =>
    simp only [Manager.step, Manager.sweepStep] at ht
    split at ht
    · split_ifs at ht with hlocked
      obtain rfl := Option.some.inj ht
      exact put_interrupted s _ _ (.inr (.inr (.inl rfl))) r
    · cases ht
  | get i q goal =>
    have hsweep := sweepForeign_interrupted s hnodup r
    simp only [Manager.step, Manager.hydrateStep] at ht
    split at ht
    · split_ifs at ht
      all_goals
        obtain rfl := Option.some.inj ht
        exact hsweep
    · cases ht
  | _ => cases ha

end Interrupts

section Sessions

variable {bindRootCauseEvidence : List RunEvent → Verdict → Verdict} {s t : Manager} {a : Act}
  {r : ℕ}

theorem append_session (r : Run) (es : List StreamEvent) (p : Bool) :
    (r.appendEventsLocked es p).1.sessionID = r.sessionID :=
  (congrArg Run.sessionID (appendEventsLocked_core r es p) :)

theorem interrupted_session {a b : Run} (h : Interrupted a b) : b.sessionID = a.sessionID := by
  rcases h with rfl | rfl | rfl | rfl
  · rfl
  · unfold Run.stop
    cases a.taking with
    | false => rfl
    | true => exact append_session _ _ _
  · unfold Run.shutdown
    cases a.taking with
    | false => rfl
    | true => exact append_session _ _ _
  · rcases markStale_cases a with hsame | ⟨_,hlive,_,hstale⟩ | ⟨_,_,_,hstale⟩
    · rw [hsame]
    · rw [hstale]
      exact (core_session (appendTerminalAndFinalizeLocked_core hlive _ _)).trans rfl
    · rw [hstale]
      rfl

theorem put_session {q : ℕ} {done : Run × List StoreOp}
    (h : done.1.sessionID = (s.runs q).sessionID) (r : ℕ) :
    ((s.put q done).runs r).sessionID = (s.runs r).sessionID := by
  show (Function.update s.runs q done.1 r).sessionID = _
  by_cases hr : r = q
  · rw [hr, Function.update_self, h]
  · rw [Function.update_of_ne hr]

theorem drop_session (s : Manager) (q r : ℕ) :
    ((s.drop q).runs r).sessionID = (s.runs r).sessionID := by
  refine put_session ?_ r
  unfold finalizeLocked
  cases Run.live { s.runs q with store := false } with
  | false => rfl
  | true => exact (core_session (closeSubs_core (publish_core _ _))).trans rfl

theorem evictLocked_session (s : Manager) (r : ℕ) :
    (s.evictLocked.runs r).sessionID = (s.runs r).sessionID := by
  unfold Manager.evictLocked
  induction s.order.length-s.maxRetained with
  | zero => rfl
  | succ n ih =>
    rw [Function.iterate_succ_apply', ← ih]
    generalize Manager.evictOldest^[n] s = w
    unfold Manager.evictOldest
    split
    · rfl
    · rename_i q _
      exact drop_session { w with order := w.order.erase q } q r

theorem launch_session {i q : ℕ} {turn : RunTurn} (ht : s.launch i q turn = some t) (r : ℕ) :
    (t.runs r).sessionID = (s.runs r).sessionID := by
  unfold Manager.launch at ht
  split_ifs at ht
  split at ht
  · obtain rfl := Option.some.inj ht
    exact put_session rfl r
  · rename_i done hlaunch
    obtain rfl := Option.some.inj ht
    obtain ⟨_,rfl⟩ := launchTurn_spec hlaunch
    exact put_session (append_session _ _ _) r

theorem startStep_session (hr : r < s.made) (ht : s.startStep a = some t) :
    (t.runs r).sessionID = (s.runs r).sessionID := by
  cases a with
  | start i target =>
    simp only [Manager.startStep] at ht
    split at ht
    · obtain rfl := Option.some.inj ht
      rfl
    · cases ht
  | insert i =>
    simp only [Manager.startStep] at ht
    split at ht
    · rename_i target context _
      split_ifs at ht
      · obtain rfl := Option.some.inj ht
        rfl
      · obtain rfl := Option.some.inj ht
        rfl
      · obtain rfl := Option.some.inj ht
        refine (evictLocked_session _ r).trans ?_
        show (Function.update s.runs s.made (s.newRun target context) r).sessionID = _
        rw [Function.update_of_ne (by omega)]
    · cases ht
  | summarize i =>
    simp only [Manager.startStep] at ht
    split at ht
    · split_ifs at ht
      all_goals
        obtain rfl := Option.some.inj ht
        rfl
    · cases ht
  | saveRun i =>
    simp only [Manager.startStep] at ht
    split at ht
    · obtain rfl := Option.some.inj ht
      rfl
    · cases ht
  | _ => cases ht

theorem unhydrated_session (s : Manager) (i q : ℕ) (goal : Goal) (r : ℕ) :
    ((s.unhydrated i q goal).runs r).sessionID = (s.runs r).sessionID := by
  cases goal <;> rfl

theorem hydrateStep_session (hnodup : s.order.Nodup) (ht : s.hydrateStep a = some t) :
    (t.runs r).sessionID = (s.runs r).sessionID := by
  cases a with
  | get i q goal =>
    exact interrupted_session (@step_interrupted (fun _ v => v) _ _
      (.get i q goal) hnodup rfl ht r)
  | hydrate i =>
    simp only [Manager.hydrateStep] at ht
    split at ht
    · split_ifs at ht
      all_goals
        obtain rfl := Option.some.inj ht
        rfl
    · cases ht
  | load i fails =>
    simp only [Manager.hydrateStep] at ht
    split at ht
    · split_ifs at ht
      · obtain rfl := Option.some.inj ht
        exact unhydrated_session _ _ _ _ r
      · split at ht
        · obtain rfl := Option.some.inj ht
          exact unhydrated_session _ _ _ _ r
        · obtain rfl := Option.some.inj ht
          rfl
    · cases ht
  | install i =>
    simp only [Manager.hydrateStep] at ht
    split at ht
    · split_ifs at ht
      split at ht
      · obtain rfl := Option.some.inj ht
        exact unhydrated_session _ _ _ _ r
      · rename_i b hinstall
        obtain rfl := Option.some.inj ht
        refine put_session ?_ r
        rcases install_spec hinstall with ⟨_,rfl⟩ | ⟨_,_,rfl,_⟩ <;> rfl
    · cases ht
  | _ => cases ht

theorem turnStep_session (ht : s.turnStep a = some t) :
    (t.runs r).sessionID = (s.runs r).sessionID := by
  cases a with
  | launch i =>
    simp only [Manager.turnStep] at ht
    split at ht
    · exact launch_session ht r
    · exact launch_session ht r
    · cases ht
  | beginTurn i =>
    simp only [Manager.turnStep] at ht
    split at ht
    · split_ifs at ht
      · obtain rfl := Option.some.inj ht
        rfl
      · obtain rfl := Option.some.inj ht
        rfl
      · split at ht
        · obtain rfl := Option.some.inj ht
          rfl
        · rename_i done hbegin
          obtain rfl := Option.some.inj ht
          refine put_session ?_ r
          unfold Run.beginTurn at hbegin
          split_ifs at hbegin
          obtain rfl := Option.some.inj hbegin
          rfl
    · cases ht
  | stop i =>
    simp only [Manager.turnStep] at ht
    split at ht
    · split_ifs at ht
      obtain rfl := Option.some.inj ht
      exact put_session (interrupted_session (.inr (.inl rfl))) r
    · cases ht
  | _ => cases ht

theorem sweepStep_session (hnodup : s.order.Nodup) (ht : s.sweepStep a = some t) :
    (t.runs r).sessionID = (s.runs r).sessionID := by
  cases a with
  | markStale i =>
    exact interrupted_session (@step_interrupted (fun _ v => v) _ _
      (.markStale i) hnodup rfl ht r)
  | shutdownRun i =>
    exact interrupted_session (@step_interrupted (fun _ v => v) _ _
      (.shutdownRun i) hnodup rfl ht r)
  | onContextSwitch i | shutdown i =>
    simp only [Manager.sweepStep] at ht
    split at ht
    · split_ifs at ht
      obtain rfl := Option.some.inj ht
      rfl
    · cases ht
  | closeStore i =>
    simp only [Manager.sweepStep] at ht
    split at ht
    · obtain rfl := Option.some.inj ht
      rfl
    · cases ht
  | _ => cases ht

theorem drops_session (dropped : List ℕ) (s : Manager) (r : ℕ) :
    ((dropped.foldl Manager.drop s).runs r).sessionID = (s.runs r).sessionID := by
  induction dropped generalizing s with
  | nil => rfl
  | cons q dropped ih => exact (ih (s.drop q)).trans (drop_session s q r)

theorem clearStep_session (ht : s.clearStep a = some t) :
    (t.runs r).sessionID = (s.runs r).sessionID := by
  cases a with
  | clearHistory i | visit i | clearTerminal i _ =>
    simp only [Manager.clearStep] at ht
    split at ht
    · split_ifs at ht
      all_goals
        obtain rfl := Option.some.inj ht
        rfl
    · cases ht
  | clearReturns i =>
    simp only [Manager.clearStep] at ht
    split at ht
    · split_ifs at ht
      · obtain rfl := Option.some.inj ht
        exact drops_session _ s r
      · obtain rfl := Option.some.inj ht
        rfl
    · cases ht
  | _ => cases ht

theorem readStep_session (ht : s.readStep a = some t) :
    (t.runs r).sessionID = (s.runs r).sessionID := by
  cases a with
  | subscribe i =>
    simp only [Manager.readStep] at ht
    split at ht
    · split_ifs at ht
      obtain rfl := Option.some.inj ht
      exact put_session (core_session (subscribe_core _ _)) r
    · cases ht
  | receive i =>
    simp only [Manager.readStep] at ht
    split at ht
    · split_ifs at ht
      obtain rfl := Option.some.inj ht
      rfl
    · rename_i q c _
      split_ifs at ht
      split at ht
      · cases ht
      · rename_i e _ _
        obtain rfl := Option.some.inj ht
        exact put_session (s := s.process i e) (core_session (receive_core _ c)) r
    · cases ht
  | cancel i =>
    simp only [Manager.readStep] at ht
    split at ht
    · split_ifs at ht
      obtain rfl := Option.some.inj ht
      exact put_session (core_session (cancelSub_core _ _)) r
    · cases ht
  | resubscribe i =>
    simp only [Manager.readStep] at ht
    split at ht
    · split_ifs at ht
      obtain rfl := Option.some.inj ht
      rfl
    · cases ht
  | _ => cases ht

/-- Only the end of a turn that is no apply turn gives a run another session. -/
theorem agentStep_session (ht : s.agentStep bindRootCauseEvidence a = some t) :
    (t.runs r).sessionID = (s.runs r).sessionID ∨
      ∃ i turn diag turnErr timeout, a = .finish i ∧
        s.threads i = .returned r turn diag turnErr timeout ∧ turn.apply = false ∧
        (t.runs r).sessionID = diag.sessionID := by
  cases a with
  | emit i e =>
    left
    simp only [Manager.agentStep] at ht
    split at ht
    · split_ifs at ht
      obtain rfl := Option.some.inj ht
      refine put_session ?_ r
      unfold appendStreamEvent
      split_ifs
      · rfl
      · exact append_session _ _ _
    · cases ht
  | agentReturns i diag turnErr outcome timeout =>
    left
    simp only [Manager.agentStep] at ht
    split at ht
    · split_ifs at ht
      all_goals
        obtain rfl := Option.some.inj ht
        rfl
    · cases ht
  | finish i =>
    simp only [Manager.agentStep] at ht
    split at ht
    · rename_i q turn diag turnErr timeout hu
      split_ifs at ht
      obtain rfl := Option.some.inj ht
      rcases finishTurn_cases bindRootCauseEvidence (s.runs q) diag turnErr turn.apply
        timeout with ⟨hdone,_⟩ | ⟨_,session,preview,status,e,hdone,_,_,_,_,hsession⟩
      · rw [hdone]
        exact .inl (put_session rfl r)
      · have hthere : ((s.runs q).finishTurn bindRootCauseEvidence diag turnErr turn.apply
            timeout).1.sessionID = session := by
          rw [hdone]
          exact append_session _ _ _
        rcases hsession with hsame | ⟨happly,hnew⟩
        · exact .inl (put_session (hthere.trans hsame) r)
        · by_cases hr : r = q
          · right
            rw [← hr] at hu hthere ⊢
            refine ⟨i,turn,diag,turnErr,timeout,rfl,hu,happly,?_⟩
            show (Function.update s.runs r _ r).sessionID = _
            rw [Function.update_self, hthere, hnew]
          · left
            show (Function.update s.runs q _ r).sessionID = _
            rw [Function.update_of_ne hr]
    · left
      split_ifs at ht
      obtain rfl := Option.some.inj ht
      refine put_session ?_ r
      unfold finishApplyWithoutVerification
      split_ifs
      · rfl
      · exact append_session _ _ _
    · left
      split_ifs at ht
      split at ht
      · obtain rfl := Option.some.inj ht
        exact put_session rfl r
      · rename_i done hdone
        obtain rfl := Option.some.inj ht
        obtain ⟨_,rfl⟩ := finishApplyAndBeginVerification_spec hdone
        refine put_session ?_ r
        rw [append_session]
    · cases ht
  | _ => cases ht

theorem step_session (hnodup : s.order.Nodup) (hr : r < s.made)
    (ht : s.step bindRootCauseEvidence a = some t) :
    (t.runs r).sessionID = (s.runs r).sessionID ∨
      ∃ i turn diag turnErr timeout, a = .finish i ∧
        s.threads i = .returned r turn diag turnErr timeout ∧ turn.apply = false ∧
        (t.runs r).sessionID = diag.sessionID := by
  rcases step_cases ht with ⟨_,_,rfl⟩ | ⟨_,_,rfl⟩ | ht | ht | ht | ht | ht | ht | ht
  · exact .inl rfl
  · exact .inl rfl
  · exact .inl (startStep_session hr ht)
  · exact .inl (hydrateStep_session hnodup ht)
  · exact .inl (turnStep_session ht)
  · exact agentStep_session ht
  · exact .inl (sweepStep_session hnodup ht)
  · exact .inl (clearStep_session ht)
  · exact .inl (readStep_session ht)

end Sessions

/-- What the transcripts and the agents of a state are to be. -/
structure Protocol (s : Manager) : Prop where
  numbered : ∀ r, (s.runs r).hydrated = true → From RunEvent.seq 0 (s.runs r).events
  transcript : ∀ r, (s.runs r).hydrated = true → Transcript (s.runs r).log
  /-- At most one thread has reserved a run or runs its agent. -/
  one : ∀ i j r k l, (s.threads i).hold = some (r,k) → (s.threads j).hold = some (r,l) → i = j

/-- What a step is to do. -/
structure ProtocolStep (s : Manager) (a : Act) (t : Manager) : Prop where
  unknown : a.interrupts = true → ∀ r turn e rest, (s.runs r).hydrated = true →
    OpenTurn (s.runs r).log turn → turn.apply = true →
    (t.runs r).log = (s.runs r).log++e::rest → e.applyOutcome = some .unknown
  session : ∀ r < s.made, (t.runs r).sessionID = (s.runs r).sessionID ∨
    ∃ i turn diag turnErr timeout, a = .finish i ∧
      s.threads i = .returned r turn diag turnErr timeout ∧ turn.apply = false ∧
      (t.runs r).sessionID = diag.sessionID

section Protocol

variable {bindRootCauseEvidence : List RunEvent → Verdict → Verdict} {s t : Manager} {a : Act}

theorem protocol_of_inv (inv : ManagerInv s) (log : LogInv s) : Protocol s where
  numbered r _ := by
    obtain ⟨h,hh⟩ := exists_hold s r
    exact (inv.ok r h hh).numbered
  transcript r hyd := by
    obtain ⟨h,hh⟩ := exists_hold s r
    exact transcript_of_phase (log r h hh hyd)
  one := inv.one

/-- A turn is open only while the run is in flight. -/
theorem inFlight_of_open (inv : ManagerInv s) (log : LogInv s) {r : ℕ} {turn : StreamEvent}
    (hyd : (s.runs r).hydrated = true) (hopen : OpenTurn (s.runs r).log turn) :
    (s.runs r).inFlight = true := by
  obtain ⟨h,hh⟩ := exists_hold s r
  have hphase := phase_of_open (log r h hh hyd) hopen
  cases h with
  | none =>
    have hrunning := ((inv.ok r none hh).free rfl).2
    unfold expected at hphase
    rw [if_neg hrunning] at hphase
    split_ifs at hphase
  | some k => exact ((inv.ok r (some k) hh).held (by simp)).1

theorem protocol_step (inv : ManagerInv s) (log : LogInv s)
    (ht : s.step bindRootCauseEvidence a = some t) : ProtocolStep s a t where
  unknown ha r _ _ _ hyd hopen happly hlog :=
    interrupted_unknown (step_interrupted inv.nodup ha ht r) (inFlight_of_open inv log hyd hopen)
      hopen happly hlog
  session _ hr := step_session inv.nodup hr ht

end Protocol

/-- The transcript protocol, where no turn is stopped between its reservation and its marker after
an apply turn. -/
theorem transcripts_hold {bindRootCauseEvidence : List RunEvent → Verdict → Verdict}
    {s t : Manager} {as : List Act} (hs : Loaded s)
    (hm : Meets (Manager.step bindRootCauseEvidence) AttributedAt s as)
    (hr : run (Manager.step bindRootCauseEvidence) s as = some t) :
    Protocol t ∧ ∀ a u, t.step bindRootCauseEvidence a = some u → ProtocolStep t a u :=
  ⟨protocol_of_inv (reached_inv hs hr) (reached_log hs hm hr),
    fun _ _ => protocol_step (reached_inv hs hr) (reached_log hs hm hr)⟩

/-- An investigation that runs to its end, and a request to apply what it found. -/
def investigated : List Act :=
  [.start 0 { kind := "Deployment", name := "web" }, .insert 0, .summarize 0, .saveRun 0, .launch 0,
    .emit 0 { type := .step, content := "kubectl get" },
    .agentReturns 0 { verdict := { summary := "Wrong image" }, sessionID := "s1" } none .unknown "",
    .finish 0, .get 0 0 (.addTurn { question := "Apply it", apply := true }), .hydrate 0,
    .beginTurn 0, .launch 0]

/-- The apply is stopped while its agent runs. -/
def stoppedApply : List Act :=
  investigated++[Act.get 1 0 .stop, .hydrate 1, .stop 1, .agentReturns 0 {} none .confirmed "",
    .finish 0]

theorem transcripts_hold_stoppedApply :
    ∃ t, run (Manager.step fun _ v => v) {} stoppedApply = some t ∧ Protocol t := by
  have hsome : (run (Manager.step fun _ v => v) {} stoppedApply).isSome = true := by decide
  have hattr : Meets (Manager.step fun _ v => v) AttributedAt {} stoppedApply := by
    decide +kernel
  obtain ⟨t,ht⟩ := Option.isSome_iff_exists.mp hsome
  exact ⟨t,ht,(transcripts_hold loaded_fresh hattr ht).1⟩

/-- The apply fails; its follow-up is stopped after it is reserved and before it is launched. -/
def stoppedFollowUp : List Act :=
  investigated++[Act.agentReturns 0 {} none .failed "", .finish 0,
    .get 0 0 (.addTurn { question := "Why?" }), .hydrate 0, .beginTurn 0, .get 1 0 .stop,
    .hydrate 1, .stop 1]

/-- The terminal of a turn that was to read only says that a change may have completed. -/
theorem stoppedFollowUp_misattributed :
    ∃ t, run (Manager.step fun _ v => v) {} stoppedFollowUp = some t ∧ ¬ Protocol t := by
  have hsome : (run (Manager.step fun _ v => v) {} stoppedFollowUp).isSome = true := by decide
  obtain ⟨t,ht⟩ := Option.isSome_iff_exists.mp hsome
  refine ⟨t,ht,fun protocol => ?_⟩
  have hseen : ((run (Manager.step fun _ v => v) {} stoppedFollowUp).map fun s =>
      ((s.runs 0).hydrated,openTurn? ((s.runs 0).log.take 5),(s.runs 0).log.drop 5)) =
      some (true,none,[stopTerminal true]) := by decide +kernel
  rw [ht, Option.map_some, Option.some.injEq, Prod.mk.injEq, Prod.mk.injEq] at hseen
  obtain ⟨hyd,hnone,hlast⟩ := hseen
  have hlog : (t.runs 0).log = (t.runs 0).log.take 5++stopTerminal true::[] := by
    rw [← hlast, List.take_append_drop]
  obtain ⟨turn,hopen,_⟩ := (protocol.transcript 0 hyd).outcome _ _ _ hlog rfl nofun
  rw [← openTurn?_eq_some, hnone] at hopen
  nomatch hopen

end Radar.Ai
