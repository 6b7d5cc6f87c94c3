import Radar.Ai.ManagerSteps

/-!
# Transcripts in every interleaving

The steps of the manager one after another, then whole runs. A log goes wrong
in one way only: a turn is stopped after it is reserved and before its marker
is in the log, and the terminal speaks of the apply turn before it.
-/

set_option autoImplicit false

namespace Radar.Ai

open Radar.Numbered
open Radar.Run (run run_invariant)
open Radar.Ai.Run

/-- The runs to which a step of `Stop`, `Shutdown` or a context switch appends a terminal. -/
def Manager.interrupted (s : Manager) : Act → List ℕ
  | .stop i =>
    match s.threads i with
    | .ready r .stop => if (s.runs r).taking then [r] else []
    | _ => []
  | .markStale i =>
    match s.threads i with
    | .staling (r::_) => if (s.runs r).live then [r] else []
    | _ => []
  | .shutdownRun i =>
    match s.threads i with
    | .shuttingDown (r::_) => if (s.runs r).taking then [r] else []
    | _ => []
  | .get _ _ _ =>
    if s.ctx = "" ∨ s.ctx = s.sweptCtx then []
    else s.order.filter fun r => (s.runs r).context ≠ s.ctx && (s.runs r).live
  | _ => []

/-- The terminal that a step appends speaks of the turn that it closes. -/
def AttributedAt (s : Manager) (a : Act) : Prop := ∀ r ∈ s.interrupted a, Attributed (s.runs r)

instance (s : Manager) (a : Act) : Decidable (AttributedAt s a) :=
  inferInstanceAs (Decidable (∀ r ∈ s.interrupted a, Attributed (s.runs r)))

section Sections

variable {s t : Manager} {i : ℕ} {u v : Thread} {C : Prop}

/-- A thread that holds nothing goes on to hold nothing. -/
theorem kept_free (inv : ManagerInv s) (hu : s.threads i = u) (hold : u.hold = none)
    (hv : v.hold = none) (hc : v.clears = false) (hok : v.Ok (s.setThread i v)) :
    Kept s (s.setThread i v) C := by
  have hold : (s.threads i).hold = none := by rw [hu, hold]
  exact Kept.thread inv (moves_thread s i v 0) (hv.trans hold.symm)
    (fun _ _ hop => by cases hop) hok fun hn => by cases hc.symm.trans hn

/-- A section of some run, by a thread that holds nothing. -/
theorem kept_put {q : ℕ} {done : Run × List StoreOp} (inv : ManagerInv s)
    (hu : s.threads i = u) (hold : u.hold = none) (hv : v.hold = none) (hc : v.clears = false)
    (keep : Keeping (s.runs q) done.1)
    (ok : ∀ h, RunOk h (s.runs q) → RunOk h done.1)
    (log : C → ∀ h, RunOk h (s.runs q) → LogOk h (s.runs q) → LogOk h done.1)
    (own : ∀ r ≠ q, ∀ op ∈ done.2, Harmless r op)
    (aside : (s.runs q).hydrated = false → ∀ op ∈ done.2, Harmless q op)
    (hok : v.Ok ((s.put q done).setThread i v)) (unlocked : q ∉ s.locked) :
    Kept s ((s.put q done).setThread i v) C := by
  obtain ⟨more,m,hmore⟩ := moves_put s i v q done
  have hold : (s.threads i).hold = none := by rw [hu, hold]
  have hin : ∀ {r}, (∀ op ∈ done.2, Harmless r op) → ∀ op ∈ more, Harmless r op := by
    intro r hr
    rcases hmore with rfl | rfl
    · exact fun _ hop => by cases hop
    · exact hr
  exact Kept.aside inv m keep (hv.trans hold.symm) (fun h _ => ok h)
    (fun hcond h _ => log hcond h) (stored_aside inv m keep.toLater fun hn => hin (aside hn))
    (fun r hr => hin (own r hr)) hok
    (.inl unlocked) fun hn => by cases hc.symm.trans hn

/-- A section of the run that the thread holds. -/
theorem kept_own {q : ℕ} {k : Hold} {done : Run × List StoreOp} (inv : ManagerInv s)
    (hu : s.threads i = u) (hold : u.hold = some (q,k))
    (hv : v.hold = none ∨ ∃ k, v.hold = some (q,k)) (hc : v.clears = false)
    (keep : Keeping (s.runs q) done.1)
    (ok : RunOk (some k) (s.runs q) → RunOk (v.hold.map Prod.snd) done.1)
    (log : RunOk (some k) (s.runs q) → LogOk (some k) (s.runs q) →
      LogOk (v.hold.map Prod.snd) done.1)
    (own : ∀ r ≠ q, ∀ op ∈ done.2, Harmless r op)
    (hok : v.Ok ((s.put q done).setThread i v)) (unlocked : q ∉ s.locked) :
    Kept s ((s.put q done).setThread i v) C := by
  obtain ⟨more,m,hmore⟩ := moves_put s i v q done
  have hold : (s.threads i).hold = some (q,k) := by rw [hu, hold]
  refine Kept.own inv m hold hv keep ok (fun _ => log) ?_ hok unlocked hc
  intro r hr
  rcases hmore with rfl | rfl
  · exact fun _ hop => by cases hop
  · exact own r hr

/-- The own operations of a run are none of another's. -/
theorem ManagerInv.ne (inv : ManagerInv s) {q r : ℕ} (hr : r ≠ q) : (s.runs q).id ≠ r :=
  fun h => hr (h.symm.trans (inv.ids q))

theorem exists_hold (s : Manager) (r : ℕ) : ∃ h, Holds s r h := by
  by_cases hall : ∀ i k, (s.threads i).hold ≠ some (r,k)
  · exact ⟨none,hall⟩
  · simp only [not_forall, not_not] at hall
    obtain ⟨i,k,hk⟩ := hall
    exact ⟨some k,i,hk⟩

/-- No turn goes on where the log is not in memory. -/
theorem ManagerInv.not_taking (inv : ManagerInv s) {r : ℕ} (hyd : (s.runs r).hydrated = false) :
    (s.runs r).taking = false := by
  by_contra htaking
  obtain ⟨h,hh⟩ := exists_hold s r
  obtain ⟨_,_,hthere,_⟩ := (inv.ok r h hh).taking_spec (by simpa using htaking)
  cases hyd.symm.trans hthere

theorem ManagerInv.held (inv : ManagerInv s) {q : ℕ} {k : Hold} (hu : s.threads i = u)
    (hold : u.hold = some (q,k)) : RunOk (some k) (s.runs q) :=
  inv.ok q (some k) ⟨i,by rw [hu, hold]⟩

end Sections

section Steps

variable {s t : Manager} {a : Act} {i r : ℕ} {C : Prop}

theorem launch_kept {turn : RunTurn} {u : Thread} (inv : ManagerInv s) (hu : s.threads i = u)
    (hold : u.hold = some (r,.reserved)) (ht : s.launch i r turn = some t) : Kept s t C := by
  unfold Manager.launch at ht
  by_cases hlocked : r ∈ s.locked
  · rw [if_pos hlocked] at ht
    cases ht
  · rw [if_neg hlocked] at ht
    cases hlaunch : (s.runs r).launchTurn turn with
    | none =>
      rw [hlaunch] at ht
      obtain rfl := Option.some.inj ht
      have hfree := launchTurn_none hlaunch
      exact kept_own inv hu hold (.inl rfl) rfl (Keeping.of_core rfl).release
        (fun ok => release_ok ok hfree) (fun ok log => release_log ok log hfree)
        (fun _ _ _ hop => by cases hop) trivial hlocked
    | some done =>
      rw [hlaunch] at ht
      obtain rfl := Option.some.inj ht
      obtain ⟨htaking,rfl⟩ := launchTurn_spec hlaunch
      exact kept_own inv hu hold (.inr ⟨_,rfl⟩) rfl
        (Keeping.of_extend (appendLocked_taking htaking _) (taking_iff.mp htaking).2.2)
        (fun ok => launch_ok ok htaking) (fun _ log => launch_log log htaking)
        (fun q hq => appendEventsLocked_own _ _ _ (inv.ne hq)) trivial hlocked

theorem unhydrated_kept {goal : Goal} {u : Thread} (inv : ManagerInv s) (hu : s.threads i = u)
    (hold : u.hold = none) : Kept s (s.unhydrated i r goal) C := by
  cases goal with
  | addTurn turn => exact kept_free inv hu hold rfl rfl trivial
  | stop => exact kept_free inv hu hold rfl rfl fun hn => absurd rfl hn
  | subscribe => exact kept_free inv hu hold rfl rfl trivial

theorem hydrate_kept (inv : ManagerInv s) (ht : s.hydrateStep (.hydrate i) = some t) :
    Kept s t C := by
  simp only [Manager.hydrateStep] at ht
  split at ht
  · rename_i q goal hu
    split_ifs at ht with hlocked hready
    · obtain rfl := Option.some.inj ht
      refine kept_free inv hu rfl rfl rfl fun _ => ?_
      exact hready.imp_right (by simp [Manager.setThread])
    · obtain rfl := Option.some.inj ht
      exact kept_free inv hu rfl rfl rfl trivial
  · cases ht

/-- The barrier and the read: the rows of some moment, if they have no gap. -/
theorem load_kept {fails : Bool} (inv : ManagerInv s)
    (ht : s.hydrateStep (.load i fails) = some t) : Kept s t C := by
  simp only [Manager.hydrateStep] at ht
  split at ht
  · rename_i q goal stamp hu
    split_ifs at ht with hwait hfails
    · obtain rfl := Option.some.inj ht
      exact unhydrated_kept inv hu rfl
    · split at ht
      · obtain rfl := Option.some.inj ht
        exact unhydrated_kept inv hu rfl
      · rename_i events hload
        obtain rfl := Option.some.inj ht
        refine kept_free inv hu rfl rfl rfl fun hyd hstore => ?_
        have hrows : events = s.rowsAt s.applied q := by
          unfold Tables.loadEvents at hload
          split_ifs at hload
          exact (Option.some.inj hload).symm
        rw [hrows]
        exact inv.stored q hyd hstore s.applied inv.written
  · cases ht

theorem install_kept (inv : ManagerInv s) (ht : s.hydrateStep (.install i) = some t) :
    Kept s t C := by
  simp only [Manager.hydrateStep] at ht
  split at ht
  · rename_i q goal events hu
    have hread : (s.runs q).hydrated = false → (s.runs q).store = true →
        Restorable (s.runs q).live events := by
      have hok := inv.threads i
      rw [hu] at hok
      exact hok
    split_ifs at ht with hlocked
    split at ht
    · obtain rfl := Option.some.inj ht
      exact unhydrated_kept inv hu rfl
    · rename_i b hinstall
      obtain rfl := Option.some.inj ht
      refine kept_put inv hu rfl rfl rfl (install_keeping hinstall)
        (fun h ok => install_ok ok hinstall hread)
        (fun _ h ok log => install_log ok log hinstall hread) (fun _ _ _ hop => by cases hop)
        (fun _ _ hop => by cases hop) (fun _ => .inl ?_) hlocked
      have hthere : ((s.put q (b,[])).setThread i (.ready q goal)).runs q = b := by
        simp [Manager.setThread, Manager.put]
      rw [hthere]
      rcases install_spec hinstall with ⟨hyd,rfl⟩ | ⟨_,_,rfl,_⟩
      · exact hyd
      · rfl
  · cases ht

theorem stop_kept (inv : ManagerInv s) (ht : s.turnStep (.stop i) = some t) :
    Kept s t (AttributedAt s (.stop i)) := by
  simp only [Manager.turnStep] at ht
  split at ht
  · rename_i q hu
    split_ifs at ht with hlocked
    obtain rfl := Option.some.inj ht
    refine kept_put inv hu rfl rfl rfl (stop_keeping _) (fun h ok => stop_ok ok) ?_
      (fun r hr => stop_own _ (inv.ne hr)) ?_ trivial hlocked
    · intro hattr h ok log
      refine stop_log ok log fun htaking => hattr q ?_
      simp [Manager.interrupted, hu, htaking]
    · intro hyd
      rw [Run.stop, inv.not_taking hyd]
      exact fun _ hop => by cases hop
  · cases ht

theorem beginTurn_kept (inv : ManagerInv s) (ht : s.turnStep (.beginTurn i) = some t) :
    Kept s t C := by
  simp only [Manager.turnStep] at ht
  split at ht
  · rename_i q turn hu
    split_ifs at ht with hbusy hexplain hgone
    · obtain rfl := Option.some.inj ht
      exact kept_free inv hu rfl rfl rfl trivial
    · obtain rfl := Option.some.inj ht
      exact kept_free inv hu rfl rfl rfl trivial
    split at ht
    · obtain rfl := Option.some.inj ht
      exact kept_free inv hu rfl rfl rfl trivial
    · rename_i done hbegin
      obtain rfl := Option.some.inj ht
      have hold : (s.threads i).hold = none := by rw [hu]; rfl
      have hlocked : q ∉ s.locked := fun hq => hbusy (.inr hq)
      have hq : q ∈ s.order := by
        by_contra hn
        exact hgone (.inl hn)
      obtain ⟨hborn,hends,hkept⟩ := inv.order q hq
      have hready := inv.threads i
      rw [hu] at hready
      have hyd : (s.runs q).hydrated = true := by
        rcases hready (by simp) with hyd | hstore
        · exact hyd
        · exact hkept.resolve_right (by simp [hstore])
      have hidle : (s.runs q).inFlight = false := by
        by_contra hin
        simp only [Run.beginTurn, if_pos (show (s.runs q).inFlight = true by simpa using hin)]
          at hbegin
        cases hbegin
      have hfree : ∀ j l, (s.threads j).hold ≠ some (q,l) := by
        intro j l hj
        cases hidle.symm.trans ((inv.ok q (some l) ⟨j,hj⟩).held (by simp)).1
      obtain ⟨hdone,hok⟩ := beginTurn_ok (inv.ok q none hfree) hyd hends hbegin
      have hlive : (s.runs q).live = true := by
        have := hok.running (by rw [hdone])
        rw [hdone] at this
        exact this
      obtain ⟨more,m,hmore⟩ := moves_put s i
        (.begun q { turn with canonicalSession := (s.runs q).sessionID }) q done
      have harmless : ∀ r, ∀ op ∈ more, Harmless r op := by
        intro r op hop
        rcases hmore with rfl | rfl
        · exact absurd hop List.not_mem_nil
        · exact beginTurn_harmless hbegin r op hop
      have new : (Thread.begun q { turn with canonicalSession := (s.runs q).sessionID }).hold =
          some (q,.reserved) := rfl
      have other : ∀ r ≠ q, ∀ h, Holds _ r h → Holds s r h :=
        fun r hr h hh => m.holds_other (.inl hold) (.inr ⟨_,new⟩) hr hh
      constructor
      · exact inv.keeps
          { moves := m
            later := by
              rw [hdone]
              exact ⟨rfl,fun hh => hh,fun hs => hs,fun hl => hl⟩
            inFlight := fun _ => .inr hborn
            one := m.one_move inv (.inr ⟨_,new⟩) fun _ j _ => hfree j
            other := other
            ok := fun h hh => by
              rw [m.holds_begin new hfree hh]
              exact hok
            order := fun _ => by
              rw [hdone]
              exact ⟨.inl hlive,.inl hyd⟩
            stored := fun hn => by
              rw [hdone] at hn
              cases hyd.symm.trans hn
            others := fun r _ => harmless r
            thread := trivial
            unlocked := .inl hlocked
            clears := nofun }
      · intro hlog _
        refine hlog.shift m.toShift other fun h hh => ?_
        rw [m.holds_begin new hfree hh, hdone]
        exact reserve_log (inv.ok q none hfree) (hlog q none hfree) hlive
  · cases ht

section Agents

variable {bindRootCauseEvidence : List RunEvent → Verdict → Verdict}

theorem emit_kept {e : StreamEvent} (inv : ManagerInv s)
    (ht : s.agentStep bindRootCauseEvidence (.emit i e) = some t) : Kept s t C := by
  simp only [Manager.agentStep] at ht
  split at ht
  · rename_i q turn hu
    split_ifs at ht with hrefused
    obtain rfl := Option.some.inj ht
    have hagent : e.isAgent = true := by
      by_contra hn
      exact hrefused (.inr (by simpa using hn))
    have hlocked : q ∉ s.locked := fun hq => hrefused (.inl hq)
    have hsame : s.put q ((s.runs q).appendStreamEvent e) =
        (s.put q ((s.runs q).appendStreamEvent e)).setThread i (.running q turn) := by
      have hthreads : Function.update s.threads i (.running q turn) = s.threads := by
        rw [← hu, Function.update_eq_self]
      show _ = { s.put q ((s.runs q).appendStreamEvent e) with
        threads := Function.update s.threads i (.running q turn) }
      rw [hthreads]
      rfl
    rw [hsame]
    exact kept_own inv hu rfl (.inr ⟨_,rfl⟩) rfl (emit_keeping _ e) emit_ok
      (fun _ log => emit_log log hagent) (fun r hr => emit_own _ e (inv.ne hr)) trivial hlocked
  · cases ht

theorem closing_spec (s : Manager) (r : ℕ) (turn : RunTurn) (diag : Diagnosis)
    (turnErr : Option TurnErr) (outcome : ApplyMutationOutcome) (timeout : String) :
    ∃ terminal verify, s.closing r turn diag turnErr outcome timeout =
      .applied r turn terminal verify ∧ terminal.isTerminal = true := by
  unfold Manager.closing
  by_cases hverify : outcome ≠ .failed ∧ s.ctx = (s.runs r).context
  · rw [if_pos hverify]
    exact ⟨_,_,rfl,applyTerminalEvent_terminal _ _ _ _ _⟩
  · rw [if_neg hverify]
    refine ⟨_,_,rfl,?_⟩
    by_cases hfailed : outcome ≠ .failed
    · rw [if_pos hfailed]
      rfl
    · rw [if_neg hfailed]
      exact applyTerminalEvent_terminal _ _ _ _ _

theorem agentReturns_kept {diag : Diagnosis} {turnErr : Option TurnErr}
    {outcome : ApplyMutationOutcome} {timeout : String} (inv : ManagerInv s)
    (ht : s.agentStep bindRootCauseEvidence (.agentReturns i diag turnErr outcome timeout) =
      some t) : Kept s t C := by
  simp only [Manager.agentStep] at ht
  split at ht
  · rename_i q turn hu
    have hmine : ∀ {v : Thread}, v.hold = some (q,.launched turn.apply) → v.clears = false →
        v.Ok (s.setThread i v) → Kept s (s.setThread i v) C := by
      intro v hv hc hok
      refine Kept.thread inv (moves_thread s i v q) ?_ (fun _ _ hop => by cases hop)
        hok fun hn => by cases hc.symm.trans hn
      rw [hu, hv]
      rfl
    split_ifs at ht with happly
    · obtain rfl := Option.some.inj ht
      obtain ⟨terminal,verify,hclosing,hterminal⟩ :=
        closing_spec s q turn diag turnErr outcome timeout
      rw [hclosing]
      exact hmine rfl rfl ⟨hterminal,happly.1⟩
    · obtain rfl := Option.some.inj ht
      exact hmine rfl rfl trivial
  · cases ht

theorem finish_kept (inv : ManagerInv s)
    (ht : s.agentStep bindRootCauseEvidence (.finish i) = some t) : Kept s t C := by
  simp only [Manager.agentStep] at ht
  split at ht
  · rename_i q turn diag turnErr timeout hu
    split_ifs at ht with hlocked
    obtain rfl := Option.some.inj ht
    exact kept_own inv hu rfl (.inl rfl) rfl (finishTurn_keeping _ _ _ _ _)
      (fun ok => finishTurn_ok _ ok _ _ _ _) (fun ok log => finishTurn_log _ ok log _ _ _ _)
      (fun r hr => finishTurn_own _ _ _ _ _ (inv.ne hr)) trivial hlocked
  · rename_i q turn terminal hu
    split_ifs at ht with hlocked
    obtain rfl := Option.some.inj ht
    have hthread := inv.threads i
    rw [hu] at hthread
    refine kept_own inv hu rfl (.inl rfl) rfl (finishApply_keeping _ _) finishApply_ok ?_
      (fun r hr => finishApply_own _ _ (inv.ne hr)) trivial hlocked
    rw [hthread.2]
    exact fun ok log => finishApply_log ok log hthread.1
  · rename_i q turn terminal question hu
    have hthread := inv.threads i
    rw [hu] at hthread
    split_ifs at ht with hlocked
    split at ht
    · rename_i hdone
      obtain rfl := Option.some.inj ht
      have hfree := finishApplyAndBeginVerification_none hdone
      exact kept_own inv hu rfl (.inl rfl) rfl (Keeping.of_core rfl).release
        (fun ok => release_ok ok hfree) (fun ok log => release_log ok log hfree)
        (fun _ _ _ hop => by cases hop) trivial hlocked
    · rename_i done hdone
      obtain rfl := Option.some.inj ht
      obtain ⟨htaking,rfl⟩ := finishApplyAndBeginVerification_spec hdone
      refine kept_own inv hu rfl (.inr ⟨_,rfl⟩) rfl ?_ (fun ok => verify_ok ok htaking) ?_
        (fun r hr => appendEventsLocked_own _ _ _ (inv.ne hr)) trivial hlocked
      · have hkeep := Keeping.of_extend
          (appendEventsLocked_taking htaking
            [terminal,turnMarker { question := question, verify := true }]
            ((s.runs q).applyPreview terminal)) (taking_iff.mp htaking).2.2
        exact ⟨⟨hkeep.id,hkeep.hydrated,hkeep.store,hkeep.live⟩,hkeep.ends,hkeep.kept,hkeep.idle⟩
      · rw [hthread.2]
        exact fun _ log => verify_log log htaking hthread.1
  · cases ht

end Agents

end Steps

section Sweeps

variable {s t : Manager} {i : ℕ} {u v : Thread}

/-- The store numbers the markers of a run that is not in memory. -/
theorem stale_rows {rows : List RunEvent} {e : StreamEvent} (h : Restorable true rows)
    (he : e.isTerminal = true) (hout : e.applyOutcome = none) :
    Restorable false ([(⟨0,e⟩ : RunEvent),⟨0,closedEvent⟩].foldl appendRow rows) := by
  have hone := appendRow_next (e := ⟨0,e⟩) h.numbered (.inr rfl)
  have hnum : From RunEvent.seq 0 (rows++[⟨rows.length+1,e⟩]) :=
    from_append.mpr ⟨h.numbered,by simp [From]⟩
  have htwo := appendRow_next (e := ⟨0,closedEvent⟩) hnum (.inr rfl)
  rw [List.foldl_cons, List.foldl_cons, List.foldl_nil, hone, htwo]
  have hphase : phase (rows.map (·.event)) = some .between := by
    rcases h.settled with hphase | ⟨hdead,_⟩
    · exact hphase
    · cases hdead
  constructor
  · exact from_append.mpr ⟨hnum,by simp [From]⟩
  · refine .inr ⟨rfl,?_⟩
    have hnext : Phase.between.next e = some .between :=
      next_terminal_hold (k := .reserved) he fun hsome => absurd hout hsome
    rw [List.append_assoc, List.map_append, phase_append hphase]
    show run Phase.next .between [e,closedEvent] = some .closed
    rw [Radar.Run.run_cons, hnext]
    rfl

theorem stale_stored {q : ℕ} {more : List StoreOp} (inv : ManagerInv s)
    (m : Moves s t i v q (s.runs q).markStale.1 more)
    (hmore : more = [] ∨ more = (s.runs q).markStale.2) :
    (s.runs q).markStale.1.hydrated = false → (s.runs q).markStale.1.store = true →
    ∀ n ≤ t.ops.length, Restorable (s.runs q).markStale.1.live (t.rowsAt n q) := by
  intro hyd hstore n hn
  have later := (markStale_keeping (s.runs q)).toLater
  rcases markStale_cases (s.runs q) with hsame | ⟨_,_,hthere,_⟩ | ⟨_,hlive,hgone,hstale⟩
  · have hnone : more = [] := by
      rcases hmore with h | h
      · exact h
      · rw [h, hsame]
    exact stored_aside inv m later (fun _ op hop => by rw [hnone] at hop; cases hop) hyd hstore
      n hn
  · cases hyd.symm.trans (later.hydrated hthere)
  · have hstore := later.store hstore
    have hfree : (s.runs q).inFlight = false := by
      by_contra hin
      obtain ⟨h,hh⟩ := exists_hold s q
      have hok := inv.ok q h hh
      obtain ⟨k,rfl⟩ := hok.hold_of_inFlight (by simpa using hin)
      cases hgone.symm.trans (hok.held (by simp)).2
    have hplain : staleTerminal (s.runs q).activeApply = staleTerminal false := by
      rw [activeApply_idle hfree]
    have hlast := inv.stored q hgone hstore _ (Nat.le_refl _)
    rw [rowsAt_length, hlive] at hlast
    have hdead : (s.runs q).markStale.1.live = false := by
      rw [hstale]
      rfl
    rw [hdead]
    rcases rowsAt_append m.tables m.ops (n := n) (r := q) with ⟨hrows,hle⟩ | hrows
    · rw [hrows]
      exact (inv.stored q hgone hstore n hle).mono (by simp)
    · rw [hrows]
      have hop : (s.runs q).markStale.2 = [.appendEvents q [⟨0,staleTerminal false⟩,⟨0,closedEvent⟩]
          (some { s.runs q with status := .stale }.summaryLocked)] := by
        rw [hstale, hplain]
        simp [Run.persist, hstore, inv.ids q]
      have htake : more.take (n-s.ops.length) = [] ∨
          more.take (n-s.ops.length) = (s.runs q).markStale.2 := by
        rcases hmore with h | h
        · rw [h]
          exact .inl List.take_nil
        · rw [h, hop]
          cases n-s.ops.length with
          | zero => exact .inl rfl
          | succ k => exact .inr (by simp)
      rcases htake with htake | htake
      · rw [htake]
        exact hlast.mono (by simp)
      · rw [htake, hop]
        have hevents : (((s.tables.applyAll s.ops).applyAll
            [.appendEvents q [⟨0,staleTerminal false⟩,⟨0,closedEvent⟩]
              (some { s.runs q with status := .stale }.summaryLocked)]).events q) =
            [(⟨0,staleTerminal false⟩ : RunEvent),⟨0,closedEvent⟩].foldl appendRow
              ((s.tables.applyAll s.ops).events q) := by
          simp [Tables.applyAll, Tables.apply, Tables.upsertRun]
        rw [hevents]
        exact stale_rows hlast rfl rfl

/-- A run is swept while the thread goes on with what it holds. -/
theorem stale_kept {q : ℕ} (inv : ManagerInv s) (hu : s.threads i = u) (hold : u.hold = none)
    (hv : v.hold = none) (hc : v.clears = true → u.clears = true)
    (hok : v.Ok ((s.put q (s.runs q).markStale).setThread i v)) (unlocked : q ∉ s.locked) :
    Kept s ((s.put q (s.runs q).markStale).setThread i v)
      ((s.runs q).live = true → Attributed (s.runs q)) := by
  obtain ⟨more,m,hmore⟩ := moves_put s i v q (s.runs q).markStale
  have keep := markStale_keeping (s.runs q)
  have hold : (s.threads i).hold = none := by rw [hu, hold]
  have hown : ∀ r ≠ q, ∀ op ∈ more, Harmless r op := by
    intro r hr op hop
    rcases hmore with rfl | rfl
    · exact absurd hop List.not_mem_nil
    · exact markStale_own _ (inv.ne hr) op hop
  exact Kept.aside inv m keep (hv.trans hold.symm) (fun h _ ok => markStale_ok ok)
    (fun hattr h _ ok log => markStale_log ok log hattr) (stale_stored inv m hmore) hown hok
    (.inl unlocked) (by rw [hu]; exact hc)

theorem markStale_kept (inv : ManagerInv s) (ht : s.sweepStep (.markStale i) = some t) :
    Kept s t (AttributedAt s (.markStale i)) := by
  simp only [Manager.sweepStep] at ht
  split at ht
  · rename_i q todo hu
    split_ifs at ht with hlocked
    obtain rfl := Option.some.inj ht
    refine (stale_kept (v := .staling todo) inv hu rfl rfl nofun trivial hlocked).weaken
      fun hattr hlive => hattr q ?_
    simp [Manager.interrupted, hu, hlive]
  · rename_i hu
    obtain rfl := Option.some.inj ht
    exact kept_free inv hu rfl rfl rfl trivial
  · cases ht

theorem shutdownRun_kept (inv : ManagerInv s) (ht : s.sweepStep (.shutdownRun i) = some t) :
    Kept s t (AttributedAt s (.shutdownRun i)) := by
  simp only [Manager.sweepStep] at ht
  split at ht
  · rename_i q todo hu
    split_ifs at ht with hlocked
    obtain rfl := Option.some.inj ht
    refine kept_put inv hu rfl rfl rfl (shutdown_keeping _) (fun h ok => shutdown_ok ok) ?_
      (fun r hr => shutdown_own _ (inv.ne hr)) ?_ trivial hlocked
    · intro hattr h ok log
      refine shutdown_log ok log fun htaking => hattr q ?_
      simp [Manager.interrupted, hu, htaking]
    · intro hyd
      rw [Run.shutdown, inv.not_taking hyd]
      exact fun _ hop => by cases hop
  · cases ht

/-- The sweep of the runs of other contexts, by a thread that holds nothing. -/
theorem sweep_kept (hold : u.hold = none) (rs : List ℕ) :
    ∀ s : Manager, ManagerInv s → s.threads i = u → s.locked = [] → rs.Nodup →
      (∀ t : Manager, u.Ok t) →
      Kept s (rs.foldl (fun s r => if (s.runs r).context ≠ s.ctx then s.put r (s.runs r).markStale
        else s) s) (∀ r ∈ rs, (s.runs r).context ≠ s.ctx → (s.runs r).live = true →
          Attributed (s.runs r)) := by
  induction rs with
  | nil => exact fun s inv _ _ _ _ => ⟨inv,fun log _ => log⟩
  | cons q rs ih =>
    intro s inv hu hlocked hnodup hok
    obtain ⟨hq,hrest⟩ := List.nodup_cons.mp hnodup
    rw [List.foldl_cons]
    by_cases hforeign : (s.runs q).context ≠ s.ctx
    · rw [if_pos hforeign]
      have hsame : s.put q (s.runs q).markStale =
          (s.put q (s.runs q).markStale).setThread i u := by
        have hthreads : Function.update s.threads i u = s.threads := by
          rw [← hu, Function.update_eq_self]
        show _ = { s.put q (s.runs q).markStale with threads := Function.update s.threads i u }
        rw [hthreads]
        rfl
      have hone : Kept s (s.put q (s.runs q).markStale)
          ((s.runs q).live = true → Attributed (s.runs q)) := by
        rw [hsame]
        exact stale_kept inv hu hold hold (fun h => h) (hok _) (by simp [hlocked])
      refine (hone.trans (ih _ hone.1 hu hlocked hrest hok)).weaken fun hall => ?_
      refine ⟨hall q List.mem_cons_self hforeign,fun r hr hctx => ?_⟩
      have hne : r ≠ q := fun h => hq (h ▸ hr)
      have hrun : (s.put q (s.runs q).markStale).runs r = s.runs r :=
        Function.update_of_ne hne _ _
      rw [hrun] at hctx ⊢
      exact hall r (List.mem_cons_of_mem q hr) hctx
    · rw [if_neg hforeign]
      exact (ih s inv hu hlocked hrest hok).weaken fun hall r hr =>
        hall r (List.mem_cons_of_mem q hr)

end Sweeps

end Radar.Ai
