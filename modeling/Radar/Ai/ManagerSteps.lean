import Radar.Ai.ManagerInv

/-!
# Every step keeps the invariant

First what the sections of a run leave, then one lemma for each kind of step.
-/

set_option autoImplicit false

namespace Radar.Ai

open Radar.Numbered
open Radar.Run (run run_invariant)
open Radar.Ai.Run

/-- What every section keeps but the drop of a run and the start of a turn. -/
structure Keeping (a b : Run) : Prop extends Later a b where
  ends : a.live = true ∨ a.status = .stale → b.live = true ∨ b.status = .stale
  kept : a.hydrated = true ∨ a.store = true → b.hydrated = true ∨ b.store = true
  idle : b.inFlight = true → a.inFlight = true

section Keeping

variable {a b : Run} {es : List StreamEvent} {status : Status}

theorem Keeping.of_core (h : b.core = a.core) : Keeping a b where
  toLater := Later.of_core h
  ends := by rw [core_live h, core_status h]; exact fun hh => hh
  kept := by rw [core_hydrated h, core_store h]; exact fun hh => hh
  idle := by rw [core_inFlight h]; exact fun hh => hh

theorem Keeping.of_extend (h : b.core = (a.extend es status).core) (hlive : a.live = true) :
    Keeping a b where
  id := (core_id h :)
  hydrated := by rw [core_hydrated h]; exact fun hh => hh
  store := by rw [core_store h]; exact fun hh => hh
  live := fun _ => hlive
  ends := by rw [core_live h]; exact fun _ => .inl hlive
  kept := by rw [core_hydrated h, core_store h]; exact fun hh => hh
  idle := by rw [core_inFlight h]; exact fun hh => hh

theorem Keeping.release (h : Keeping a b) : Keeping a b.release where
  id := h.id
  hydrated := h.hydrated
  store := h.store
  live := h.live
  ends := h.ends
  kept := h.kept
  idle := nofun

theorem stop_keeping (r : Run) : Keeping r r.stop.1 := by
  unfold Run.stop
  cases ht : r.taking with
  | false => exact Keeping.of_core rfl
  | true => exact Keeping.of_extend (appendLocked_core r _ .stopped) (taking_iff.mp ht).2.2

theorem shutdown_keeping (r : Run) : Keeping r r.shutdown.1 := by
  unfold Run.shutdown
  cases ht : r.taking with
  | false => exact Keeping.of_core rfl
  | true => exact Keeping.of_extend (appendLocked_core r _ .stopped) (taking_iff.mp ht).2.2

theorem markStale_keeping (r : Run) : Keeping r r.markStale.1 := by
  rcases markStale_cases r with hsame | ⟨_,hlive,hyd,hstale⟩ | ⟨_,hlive,hyd,hstale⟩
  · rw [hsame]
    exact Keeping.of_core rfl
  · rw [hstale]
    have hcore := appendTerminalAndFinalizeLocked_core hlive (staleTerminal r.activeApply) .stale
    exact
      { id := (core_id hcore :)
        hydrated := fun _ => (core_hydrated hcore).trans hyd
        store := fun hs => (core_store hcore).symm.trans hs
        live := fun _ => hlive
        ends := fun _ => .inr (core_status hcore)
        kept := fun _ => .inl ((core_hydrated hcore).trans hyd)
        idle := fun hin => (core_inFlight hcore).symm.trans hin }
  · rw [hstale]
    exact
      { id := rfl
        hydrated := fun hh => hh
        store := fun hs => hs
        live := nofun
        ends := fun _ => .inr rfl
        kept := fun hh => hh
        idle := fun hin => hin }

theorem emit_keeping (r : Run) (e : StreamEvent) : Keeping r (r.appendStreamEvent e).1 := by
  unfold appendStreamEvent
  cases ht : r.taking with
  | false => exact Keeping.of_core rfl
  | true => exact Keeping.of_extend (appendLocked_taking ht e) (taking_iff.mp ht).2.2

theorem finishApply_keeping (r : Run) (e : StreamEvent) :
    Keeping r (r.finishApplyWithoutVerification e).1 := by
  unfold finishApplyWithoutVerification
  cases ht : r.taking with
  | false => exact (Keeping.of_core rfl).release
  | true =>
    exact (Keeping.of_extend (appendLocked_core r e .error) (taking_iff.mp ht).2.2).release

theorem finishTurn_keeping {bindRootCauseEvidence : List RunEvent → Verdict → Verdict} (r : Run)
    (diag : Diagnosis) (turnErr : Option TurnErr) (apply : Bool) (timeout : String) :
    Keeping r (r.finishTurn bindRootCauseEvidence diag turnErr apply timeout).1 := by
  rcases finishTurn_cases bindRootCauseEvidence r diag turnErr apply
    timeout with ⟨hdone,_⟩ | ⟨hlive,session,preview,status,e,hdone,_⟩
  · rw [hdone]
    exact (Keeping.of_core rfl).release
  · rw [hdone]
    have hcore := appendLocked_core { r with sessionID := session, preview := preview } e status
    have hkeep := Keeping.of_extend hcore hlive
    exact Keeping.release ⟨⟨hkeep.id,hkeep.hydrated,hkeep.store,hkeep.live⟩,hkeep.ends,hkeep.kept,
      hkeep.idle⟩

theorem install_keeping {r run : Run} {events : List RunEvent}
    (h : r.install events = some run) : Keeping r run := by
  rcases install_spec h with ⟨_,rfl⟩ | ⟨_,_,rfl,_⟩
  · exact Keeping.of_core rfl
  · exact
      { id := rfl
        hydrated := fun _ => rfl
        store := fun hs => hs
        live := fun hl => hl
        ends := fun hh => hh
        kept := fun _ => .inl rfl
        idle := fun hin => hin }

theorem persist_own (r : Run) (batch : List RunEvent) (p : Bool) {q : ℕ} (h : r.id ≠ q) :
    ∀ op ∈ r.persist batch p, Harmless q op := by
  intro op hop
  unfold persist at hop
  by_cases hstore : r.store = true
  · rw [if_pos hstore] at hop
    rw [List.mem_singleton.mp hop]
    exact h
  · rw [if_neg hstore] at hop
    exact absurd hop List.not_mem_nil

theorem appendEventsLocked_own (r : Run) (es : List StreamEvent) (p : Bool) {q : ℕ}
    (h : r.id ≠ q) : ∀ op ∈ (r.appendEventsLocked es p).2, Harmless q op :=
  persist_own _ _ _ h

theorem beginTurn_harmless {r : Run} {requireSession : Bool} {done : Run × List StoreOp}
    (h : r.beginTurn requireSession = some done) (q : ℕ) : ∀ op ∈ done.2, Harmless q op := by
  intro op hop
  unfold beginTurn at h
  split_ifs at h
  obtain rfl := Option.some.inj h
  by_cases hstore : r.store = true
  · simp only [hstore, if_true, List.mem_singleton] at hop
    rw [hop]
    trivial
  · simp only [hstore] at hop
    exact absurd hop List.not_mem_nil

theorem stop_own (r : Run) {q : ℕ} (h : r.id ≠ q) : ∀ op ∈ r.stop.2, Harmless q op := by
  unfold Run.stop
  cases r.taking with
  | false => exact fun _ hop => nomatch hop
  | true => exact appendEventsLocked_own _ _ _ h

theorem shutdown_own (r : Run) {q : ℕ} (h : r.id ≠ q) : ∀ op ∈ r.shutdown.2, Harmless q op := by
  unfold Run.shutdown
  cases r.taking with
  | false => exact fun _ hop => nomatch hop
  | true => exact appendEventsLocked_own _ _ _ h

theorem markStale_own (r : Run) {q : ℕ} (h : r.id ≠ q) : ∀ op ∈ r.markStale.2, Harmless q op := by
  rcases markStale_cases r with hsame | ⟨_,hlive,_,hstale⟩ | ⟨_,_,_,hstale⟩
  · rw [hsame]
    exact fun _ hop => by cases hop
  · rw [hstale, appendTerminalAndFinalizeLocked,
      show Run.live { r with status := .stale } = true from hlive]
    exact appendEventsLocked_own _ _ _ h
  · rw [hstale]
    exact persist_own _ _ _ h

theorem emit_own (r : Run) (e : StreamEvent) {q : ℕ} (h : r.id ≠ q) :
    ∀ op ∈ (r.appendStreamEvent e).2, Harmless q op := by
  unfold appendStreamEvent
  cases r.taking with
  | false => exact fun _ hop => nomatch hop
  | true => exact appendEventsLocked_own _ _ _ h

theorem finishApply_own (r : Run) (e : StreamEvent) {q : ℕ} (h : r.id ≠ q) :
    ∀ op ∈ (r.finishApplyWithoutVerification e).2, Harmless q op := by
  unfold finishApplyWithoutVerification
  cases r.taking with
  | false => exact fun _ hop => nomatch hop
  | true => exact appendEventsLocked_own _ _ _ h

theorem finishTurn_own {bindRootCauseEvidence : List RunEvent → Verdict → Verdict} (r : Run)
    (diag : Diagnosis) (turnErr : Option TurnErr) (apply : Bool) (timeout : String) {q : ℕ}
    (h : r.id ≠ q) :
    ∀ op ∈ (r.finishTurn bindRootCauseEvidence diag turnErr apply timeout).2, Harmless q op := by
  rcases finishTurn_cases bindRootCauseEvidence r diag turnErr apply
    timeout with ⟨hdone,_⟩ | ⟨_,_,_,_,_,hdone,_⟩
  · rw [hdone]
    exact fun _ hop => nomatch hop
  · rw [hdone]
    exact appendEventsLocked_own _ _ _ h

end Keeping

/-- The invariant is kept, and where `cond` is met, the logs stay in place too. -/
def Kept (s t : Manager) (cond : Prop) : Prop :=
  ManagerInv t ∧ (LogInv s → cond → LogInv t)

theorem Kept.weaken {s t : Manager} {p q : Prop} (h : Kept s t p) (hpq : q → p) : Kept s t q :=
  ⟨h.1,fun log hq => h.2 log (hpq hq)⟩

theorem Kept.trans {s t u : Manager} {p q : Prop} (h : Kept s t p) (k : Kept t u q) :
    Kept s u (p ∧ q) :=
  ⟨k.1,fun log hpq => k.2 (h.2 log hpq.1) hpq.2⟩

section Moving

variable {s t : Manager} {i q : ℕ} {v : Thread} {b : Run} {more : List StoreOp} {cond : Prop}

theorem LogInv.shift (log : LogInv s) (m : Shift s t i v q b)
    (other : ∀ r ≠ q, ∀ h, Holds t r h → Holds s r h) (h : ∀ h, Holds t q h → LogOk h b) :
    LogInv t := by
  intro r k hk
  by_cases hr : r = q
  · rw [hr] at hk
    rw [hr, m.run]
    exact h k hk
  · rw [m.run_of_ne hr]
    exact log r k (other r hr k hk)

/-- What may be read for a run that is not in memory, when nothing of its own is enqueued. -/
theorem stored_aside (inv : ManagerInv s) (m : Moves s t i v q b more)
    (later : Later (s.runs q) b)
    (harmless : (s.runs q).hydrated = false → ∀ op ∈ more, Harmless q op) :
    b.hydrated = false → b.store = true → ∀ n ≤ t.ops.length, Restorable b.live (t.rowsAt n q) := by
  intro hyd hstore n _
  have hyd : (s.runs q).hydrated = false := by
    by_contra hn
    cases hyd.symm.trans (later.hydrated (by simpa using hn))
  exact (m.toWritten.stored inv hyd (later.store hstore) (harmless hyd)).mono later.live

/-- A section of a run, by a thread that goes on to hold what it held. -/
theorem Kept.aside (inv : ManagerInv s) (m : Moves s t i v q b more)
    (keep : Keeping (s.runs q) b) (same : v.hold = (s.threads i).hold)
    (ok : ∀ h, Holds s q h → RunOk h (s.runs q) → RunOk h b)
    (log : cond → ∀ h, Holds s q h → RunOk h (s.runs q) → LogOk h (s.runs q) → LogOk h b)
    (stored : b.hydrated = false → b.store = true → ∀ n ≤ t.ops.length,
      Restorable b.live (t.rowsAt n q))
    (others : ∀ r ≠ q, ∀ op ∈ more, Harmless r op) (thread : v.Ok t)
    (unlocked : q ∉ s.locked ∨ b.status ≠ .running)
    (clears : v.clears = true → (s.threads i).clears = true) : Kept s t cond := by
  have other : ∀ r ≠ q, ∀ h, Holds t r h → Holds s r h := fun _ _ _ hh => m.holds_same same hh
  constructor
  · exact inv.keeps
      { moves := m
        later := keep.toLater
        inFlight := fun hin => .inl (keep.idle hin)
        one := m.one_same inv same
        other := other
        ok := fun h hh => ok h (m.holds_same same hh) (inv.ok q h (m.holds_same same hh))
        order := fun hq => ⟨keep.ends (inv.order q hq).2.1,keep.kept (inv.order q hq).2.2⟩
        stored := stored
        others := others
        thread := thread
        unlocked := unlocked
        clears := clears }
  · intro hlog hcond
    refine hlog.shift m.toShift other fun h hh => ?_
    have hs := m.holds_same same hh
    exact log hcond h hs (inv.ok q h hs) (hlog q h hs)

/-- Only a thread goes on, and it holds what it held. -/
theorem Kept.thread (inv : ManagerInv s) (m : Moves s t i v q (s.runs q) more)
    (same : v.hold = (s.threads i).hold) (harmless : ∀ r, ∀ op ∈ more, Harmless r op)
    (thread : v.Ok t) (clears : v.clears = true → (s.threads i).clears = true) :
    Kept s t cond := by
  have later : Keeping (s.runs q) (s.runs q) := Keeping.of_core rfl
  refine Kept.aside inv m later same (fun _ _ ok => ok) (fun _ _ _ _ log => log)
    (stored_aside inv m later.toLater fun _ => harmless q) (fun r _ => harmless r) thread ?_ clears
  by_cases hq : q ∈ s.locked
  · exact .inr (inv.locked q hq)
  · exact .inl hq

/-- A section of the run that the thread holds. -/
theorem Kept.own (inv : ManagerInv s) (m : Moves s t i v q b more) {k : Hold}
    (old : (s.threads i).hold = some (q,k)) (new : v.hold = none ∨ ∃ k, v.hold = some (q,k))
    (keep : Keeping (s.runs q) b)
    (ok : RunOk (some k) (s.runs q) → RunOk (v.hold.map Prod.snd) b)
    (log : cond → RunOk (some k) (s.runs q) → LogOk (some k) (s.runs q) →
      LogOk (v.hold.map Prod.snd) b)
    (others : ∀ r ≠ q, ∀ op ∈ more, Harmless r op) (thread : v.Ok t) (unlocked : q ∉ s.locked)
    (clears : v.clears = false) : Kept s t cond := by
  have held : Holds s q (some k) := ⟨i,old⟩
  have hyd : (s.runs q).hydrated = true := ((inv.ok q _ held).held (by simp)).2
  have other : ∀ r ≠ q, ∀ h, Holds t r h → Holds s r h :=
    fun r hr h hh => m.holds_other (.inr ⟨k,old⟩) new hr hh
  constructor
  · exact inv.keeps
      { moves := m
        later := keep.toLater
        inFlight := fun hin => .inl (keep.idle hin)
        one := m.one_move inv new fun _ j hj l hl => hj (inv.one j i q l k hl old)
        other := other
        ok := fun h hh => by
          rw [m.holds_own inv old new hh]
          exact ok (inv.ok q _ held)
        order := fun hq => ⟨keep.ends (inv.order q hq).2.1,keep.kept (inv.order q hq).2.2⟩
        stored := fun hn => by cases hn.symm.trans (keep.hydrated hyd)
        others := others
        thread := thread
        unlocked := .inl unlocked
        clears := fun hc => by cases clears.symm.trans hc }
  · intro hlog hcond
    refine hlog.shift m.toShift other fun h hh => ?_
    rw [m.holds_own inv old new hh]
    exact log hcond (inv.ok q _ held) (hlog q _ held)

/-- Nothing the invariant speaks of has changed. -/
theorem Kept.same (inv : ManagerInv s) (hthreads : t.threads = s.threads) (hruns : t.runs = s.runs)
    (htables : t.tables = s.tables) (hops : t.ops = s.ops) (happlied : t.applied = s.applied)
    (hmade : t.made = s.made)
    (horder : t.order = s.order) (hlocked : t.locked = s.locked) (hmu : t.mu = s.mu) :
    Kept s t cond := by
  have m : Moves s t 0 (s.threads 0) 0 (s.runs 0) [] :=
    { threads := hthreads.trans (Function.update_eq_self 0 s.threads).symm
      runs := hruns.trans (Function.update_eq_self 0 s.runs).symm
      tables := htables, ops := by rw [hops, List.append_nil], applied := happlied, made := hmade
      order := horder, locked := hlocked, mu := hmu }
  exact Kept.thread inv m rfl (fun _ _ hop => by cases hop)
    (m.thread_ok (Later.of_core rfl) (inv.threads 0)) fun hc => hc

end Moving

end Radar.Ai
