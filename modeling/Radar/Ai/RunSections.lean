import Radar.Ai.Runs
import Radar.Ai.Transcript

/-!
# What the critical sections keep

A run is held by at most one thread: one that has reserved it, or one whose
agent was launched. Between two sections the log stands where the status and
the hold say; this is stated here for one run and proved section by section.
-/

set_option autoImplicit false

namespace Radar.Ai

open Radar.Run (run run_cons run_cons_some run_append_some)
open Radar.Numbered

inductive Hold where
  | reserved
  | launched (apply : Bool)
  deriving DecidableEq, Repr

def Hold.phase : Hold → Phase
  | .reserved => .between
  | .launched apply => .inTurn apply

namespace Run

def log (r : Run) : List StreamEvent := r.events.map (·.event)

/-- A run without its channels. -/
def core (r : Run) : Run :=
  { r with subs := r.subs.map fun _ => [], nextSub := 0, chans := fun _ => {} }

section Core

variable {a b r : Run}

theorem publish_core (r : Run) (re : RunEvent) : (r.publish re).core = r.core := by
  unfold publish
  cases hsubs : r.subs with
  | none => rfl
  | some ids => simp [core, hsubs]

theorem publish_all_core (r : Run) (batch : List RunEvent) :
    (batch.foldl publish r).core = r.core := by
  induction batch generalizing r with
  | nil => rfl
  | cons re batch ih => rw [List.foldl_cons, ih, publish_core]

theorem closeSubs_core (h : a.core = b.core) :
    a.closeSubs.core = Run.core { b with subs := none } := by
  have hcore : a.closeSubs.core = { a.core with subs := none } := rfl
  rw [hcore, h]
  rfl

theorem appendEventsLocked_core (r : Run) (es : List StreamEvent) (persistSummary : Bool) :
    (r.appendEventsLocked es persistSummary).1.core =
      { r.core with events := r.events++numberFrom r.events.length es } := by
  rw [appendEventsLocked, publish_all_core]
  rfl

theorem core_id (h : a.core = b.core) : a.id = b.id := (congrArg Run.id h :)
theorem core_status (h : a.core = b.core) : a.status = b.status := (congrArg Run.status h :)
theorem core_events (h : a.core = b.core) : a.events = b.events := (congrArg Run.events h :)
theorem core_hydrated (h : a.core = b.core) : a.hydrated = b.hydrated := (congrArg Run.hydrated h :)
theorem core_inFlight (h : a.core = b.core) : a.inFlight = b.inFlight := (congrArg Run.inFlight h :)
theorem core_store (h : a.core = b.core) : a.store = b.store := (congrArg Run.store h :)
theorem core_context (h : a.core = b.core) : a.context = b.context := (congrArg Run.context h :)
theorem core_session (h : a.core = b.core) : a.sessionID = b.sessionID :=
  (congrArg Run.sessionID h :)

theorem live_core (r : Run) : r.core.live = r.live := by
  unfold live core
  cases r.subs <;> rfl

theorem core_live (h : a.core = b.core) : a.live = b.live := by
  rw [← live_core a, h, live_core]

@[simp] theorem subscribe_core (r : Run) (n : ℕ) : (r.subscribe n).1.core = r.core := by
  unfold subscribe
  cases hsubs : r.subs <;> simp [core, hsubs]

@[simp] theorem cancelSub_core (r : Run) (c : ℕ) : (r.cancelSub c).core = r.core := by
  unfold cancelSub
  cases hsubs : r.subs with
  | none => rfl
  | some ids =>
    by_cases hc : c ∈ ids
    · simp [core, hsubs, hc]
    · simp [hc]

@[simp] theorem receive_core (r : Run) (c : ℕ) : (r.receive c).core = r.core := rfl

end Core

section Numbers

theorem numberFrom_numbered (n : ℕ) (es : List StreamEvent) :
    From RunEvent.seq n (numberFrom n es) := by
  induction es generalizing n with
  | nil => trivial
  | cons e es ih => exact ⟨rfl,ih (n+1)⟩

theorem numberFrom_events (n : ℕ) (es : List StreamEvent) :
    (numberFrom n es).map (·.event) = es := by
  induction es generalizing n with
  | nil => rfl
  | cons e es ih => rw [numberFrom, List.map_cons, ih]

end Numbers

/-- The run goes on with more events and another status. -/
def extend (r : Run) (es : List StreamEvent) (status : Status) : Run :=
  { r with events := r.events++numberFrom r.events.length es, status := status }

/-- The same, and nothing more comes. -/
def close (r : Run) (es : List StreamEvent) (status : Status) : Run :=
  { r.extend es status with subs := none }

theorem log_extend (r : Run) (es : List StreamEvent) (status : Status) :
    (r.extend es status).log = r.log++es := by
  simp [log, extend, numberFrom_events]

section Cores

variable {r : Run}

theorem appendLocked_core (r : Run) (e : StreamEvent) (status : Status) :
    ({ r with status := status }.appendLocked e).1.core = (r.extend [e] status).core := by
  rw [appendLocked, appendEventsLocked_core]
  rfl

theorem finalizeLocked_core (h : r.live = true) :
    r.finalizeLocked.1.core = (r.close [closedEvent] r.status).core := by
  rw [finalizeLocked, h]
  exact closeSubs_core (b := r.extend [closedEvent] r.status) (publish_core _ _)

theorem appendTerminalAndFinalizeLocked_core (h : r.live = true) (terminal : StreamEvent)
    (status : Status) :
    ({ r with status := status }.appendTerminalAndFinalizeLocked terminal).1.core =
      (r.close [terminal,closedEvent] status).core := by
  have hlive : { r with status := status }.live = true := h
  rw [appendTerminalAndFinalizeLocked, hlive]
  exact closeSubs_core (b := r.extend [terminal,closedEvent] status)
    (appendEventsLocked_core _ _ _)

end Cores

end Run

open Radar.Ai.Run

section Active

/-- The marker of a turn that is open is the last one. -/
theorem find_open {log : List StreamEvent} {turn : StreamEvent} (h : OpenTurn log turn) :
    log.reverse.find? StreamEvent.isTurn = some turn := by
  obtain ⟨a,b,rfl,hturn,hrest⟩ := h
  have hnone : b.reverse.find? StreamEvent.isTurn = none := by
    apply List.find?_eq_none.mpr
    intro e he
    simp [(hrest e (List.mem_reverse.mp he)).2]
  rw [List.reverse_append, List.reverse_cons, List.append_assoc, List.find?_append, hnone]
  simp [hturn]

theorem activeApply_open {r : Run} {turn : StreamEvent} (hin : r.inFlight = true)
    (hopen : OpenTurn r.log turn) : r.activeApply = turn.apply := by
  have hfind : (r.events.map (·.event)).reverse.find? StreamEvent.isTurn = some turn :=
    find_open hopen
  rw [activeApply, activeTurnLocked, if_pos hin, hfind]

theorem activeApply_idle {r : Run} (hin : r.inFlight = false) : r.activeApply = false := by
  rw [activeApply, activeTurnLocked, hin]
  rfl

end Active

/-- What a section may rely on, whatever the log says. -/
structure RunOk (h : Option Hold) (r : Run) : Prop where
  held : h ≠ none → r.inFlight = true ∧ r.hydrated = true
  free : h = none → r.inFlight = false ∧ r.status ≠ .running
  running : r.status = .running → r.live = true
  stale : r.status = .stale → r.live = false
  numbered : From RunEvent.seq 0 r.events
  unhydrated : r.hydrated = false → r.store = true → r.events = []
  detached : r.hydrated = false → r.store = false → r.live = false

/-- Where the log has come to. -/
def expected (h : Option Hold) (r : Run) : Phase :=
  if r.live then
    if r.status = .running then (h.map Hold.phase).getD .between else .between
  else .closed

def LogOk (h : Option Hold) (r : Run) : Prop :=
  r.hydrated = true → phase r.log = some (expected h r)

/-- The last turn marker speaks of the turn that is open. -/
def Attributed (r : Run) : Prop :=
  r.hydrated = true → r.activeApply = true → ∃ turn, OpenTurn r.log turn

instance (r : Run) : Decidable (Attributed r) :=
  decidable_of_iff (r.hydrated = true → r.activeApply = true → (openTurn? r.log).isSome = true) (by
    simp only [Attributed, Option.isSome_iff_exists, openTurn?_eq_some])

section Frames

variable {h : Option Hold} {a b r : Run}

theorem RunOk.of_core (ok : RunOk h a) (hcore : b.core = a.core) : RunOk h b where
  held := by rw [core_inFlight hcore, core_hydrated hcore]; exact ok.held
  free := by rw [core_inFlight hcore, core_status hcore]; exact ok.free
  running := by rw [core_status hcore, core_live hcore]; exact ok.running
  stale := by rw [core_status hcore, core_live hcore]; exact ok.stale
  numbered := by rw [core_events hcore]; exact ok.numbered
  unhydrated := by
    rw [core_hydrated hcore, core_store hcore, core_events hcore]; exact ok.unhydrated
  detached := by
    rw [core_hydrated hcore, core_store hcore, core_live hcore]; exact ok.detached

theorem LogOk.of_core (ok : LogOk h a) (hcore : b.core = a.core) : LogOk h b := by
  unfold LogOk expected log
  rw [core_hydrated hcore, core_live hcore, core_status hcore, core_events hcore]
  exact ok

/-- More events do no harm to a hydrated run. -/
theorem RunOk.extend (ok : RunOk h r) (es : List StreamEvent) (hyd : r.hydrated = true)
    {status : Status} (hfree : h = none → status ≠ .running)
    (hrunning : status = .running → r.live = true) (hstale : status ≠ .stale) :
    RunOk h (r.extend es status) where
  held := ok.held
  free hnone := ⟨(ok.free hnone).1,hfree hnone⟩
  running := hrunning
  stale hs := absurd hs hstale
  numbered := from_append.mpr ⟨ok.numbered,by
    rw [Nat.zero_add]
    exact numberFrom_numbered _ _⟩
  unhydrated hn := by cases hyd.symm.trans hn
  detached hn := by cases hyd.symm.trans hn

theorem LogOk.extend {k : Option Hold} (ok : LogOk h r) (es : List StreamEvent) (status : Status)
    (hes : r.hydrated = true → run Phase.next (expected h r) es =
      some (expected k (r.extend es status))) : LogOk k (r.extend es status) := by
  intro hyd
  rw [log_extend, phase_append (ok hyd)]
  exact hes hyd

end Frames

section Sections

variable {h : Option Hold} {r : Run} {e : StreamEvent}

theorem taking_iff : r.taking = true ↔
    r.inFlight = true ∧ r.status = .running ∧ r.live = true := by
  simp [taking, and_assoc]

/-- A run that is in flight is held. -/
theorem RunOk.hold_of_inFlight (ok : RunOk h r) (hin : r.inFlight = true) :
    ∃ k, h = some k := by
  cases h with
  | none => exact absurd hin (by simp [(ok.free rfl).1])
  | some k => exact ⟨k,rfl⟩

theorem RunOk.taking_spec (ok : RunOk h r) (ht : r.taking = true) :
    ∃ k, h = some k ∧ r.hydrated = true ∧ r.live = true ∧ r.status = .running := by
  obtain ⟨hin,hstatus,hlive⟩ := taking_iff.mp ht
  obtain ⟨k,rfl⟩ := ok.hold_of_inFlight hin
  exact ⟨k,rfl,(ok.held (by simp)).2,hlive,hstatus⟩

theorem expected_taking {k : Hold} (ht : r.taking = true) :
    expected (some k) r = k.phase := by
  obtain ⟨_,hstatus,hlive⟩ := taking_iff.mp ht
  simp [expected, hstatus, hlive]

/-- From within a turn or between two, a terminal leads between; an outcome is in place where an
apply turn is open. -/
theorem next_terminal_hold {k : Hold} (he : e.isTerminal = true)
    (hout : e.applyOutcome ≠ none → k = .launched true) :
    k.phase.next e = some .between := by
  cases k with
  | reserved =>
    have hnone : e.applyOutcome = none := by
      by_contra hsome
      nomatch hout hsome
    rcases type_of_terminal he with htype | htype <;> simp [Hold.phase, Phase.next, htype, hnone]
  | launched apply =>
    have hor : e.applyOutcome = none ∨ apply = true := by
      by_cases hsome : e.applyOutcome = none
      · exact .inl hsome
      · exact .inr (Hold.launched.inj (hout hsome))
    rcases type_of_terminal he with htype | htype <;> simp [Hold.phase, Phase.next, htype, hor]

/-- What the last turn marker says is what the hold says, where it speaks of the open turn. -/
theorem LogOk.active {k : Hold} (log : LogOk (some k) r) (hyd : r.hydrated = true)
    (ht : r.taking = true) (hattr : Attributed r) (hactive : r.activeApply = true) :
    k = .launched true := by
  have hphase := log hyd
  rw [expected_taking ht] at hphase
  obtain ⟨turn,hopen⟩ := hattr hyd hactive
  have hin := phase_of_open hphase hopen
  have happly := activeApply_open (taking_iff.mp ht).1 hopen
  cases k with
  | reserved => nomatch hin
  | launched apply =>
    have : apply = turn.apply := Phase.inTurn.inj hin
    rw [this, ← happly, hactive]

/-- `Stop` and `Shutdown` differ in the terminal they append. -/
theorem halt_ok (ok : RunOk h r) (ht : r.taking = true) :
    RunOk h ({ r with status := .stopped }.appendLocked e).1 := by
  obtain ⟨k,_,hyd,_⟩ := ok.taking_spec ht
  exact (ok.extend [e] hyd (by simp) (by simp) (by simp)).of_core (appendLocked_core _ _ _)

theorem halt_log (ok : RunOk h r) (log : LogOk h r) (ht : r.taking = true)
    (hattr : Attributed r) (he : e.isTerminal = true)
    (hout : e.applyOutcome ≠ none → r.activeApply = true) :
    LogOk h ({ r with status := .stopped }.appendLocked e).1 := by
  obtain ⟨k,rfl,hyd,hlive,_⟩ := ok.taking_spec ht
  refine (log.extend [e] .stopped fun _ => ?_).of_core (appendLocked_core _ _ _)
  rw [expected_taking ht]
  have hnext := next_terminal_hold he fun hsome => log.active hyd ht hattr (hout hsome)
  have hthere : expected (some k) (r.extend [e] .stopped) = .between := by
    have hlive : (r.extend [e] .stopped).live = true := hlive
    have hstatus : (r.extend [e] .stopped).status = .stopped := rfl
    simp [expected, hlive, hstatus]
  rw [hthere, run_cons, hnext]
  rfl

theorem stopTerminal_spec (apply : Bool) : (stopTerminal apply).isTerminal = true ∧
    ((stopTerminal apply).applyOutcome ≠ none → apply = true) := by
  cases apply <;> simp [stopTerminal, StreamEvent.isTerminal]

theorem shutdownTerminal_spec (apply : Bool) : (shutdownTerminal apply).isTerminal = true ∧
    ((shutdownTerminal apply).applyOutcome ≠ none → apply = true) := by
  cases apply <;> simp [shutdownTerminal, StreamEvent.isTerminal]

theorem staleTerminal_spec (apply : Bool) : (staleTerminal apply).isTerminal = true ∧
    ((staleTerminal apply).applyOutcome ≠ none → apply = true) := by
  cases apply <;> simp [staleTerminal, StreamEvent.isTerminal]

theorem stop_ok (ok : RunOk h r) : RunOk h r.stop.1 := by
  unfold stop
  cases ht : r.taking with
  | false => exact ok
  | true => exact halt_ok ok ht

theorem stop_log (ok : RunOk h r) (log : LogOk h r) (hattr : r.taking = true → Attributed r) :
    LogOk h r.stop.1 := by
  unfold stop
  cases ht : r.taking with
  | false => exact log
  | true => exact halt_log ok log ht (hattr ht) (stopTerminal_spec _).1 (stopTerminal_spec _).2

theorem shutdown_ok (ok : RunOk h r) : RunOk h r.shutdown.1 := by
  unfold Run.shutdown
  cases ht : r.taking with
  | false => exact ok
  | true => exact halt_ok ok ht

theorem shutdown_log (ok : RunOk h r) (log : LogOk h r)
    (hattr : r.taking = true → Attributed r) : LogOk h r.shutdown.1 := by
  unfold Run.shutdown
  cases ht : r.taking with
  | false => exact log
  | true =>
    exact halt_log ok log ht (hattr ht) (shutdownTerminal_spec _).1 (shutdownTerminal_spec _).2

/-- The stream ends; what is appended before, ends with closed. -/
theorem RunOk.close (ok : RunOk h r) {es : List StreamEvent} {status : Status}
    (hyd : r.hydrated = true) (hfree : status ≠ .running) :
    RunOk h (r.close es status) where
  held := ok.held
  free hnone := ⟨(ok.free hnone).1,hfree⟩
  running hs := absurd hs hfree
  stale _ := rfl
  numbered := from_append.mpr ⟨ok.numbered,by
    rw [Nat.zero_add]
    exact numberFrom_numbered _ _⟩
  unhydrated hn := by cases hyd.symm.trans hn
  detached _ _ := rfl

theorem LogOk.close (log : LogOk h r) (es : List StreamEvent) (status : Status)
    (hes : r.hydrated = true → run Phase.next (expected h r) es = some .closed) :
    LogOk h (r.close es status) := by
  intro hyd
  have hlog : (r.close es status).log = r.log++es := log_extend r es status
  rw [hlog, phase_append (log hyd)]
  exact hes hyd

theorem markStale_cases (r : Run) :
    r.markStale = (r,[]) ∨
    (r.status ≠ .stale ∧ r.live = true ∧ r.hydrated = true ∧ r.markStale =
      { r with status := .stale }.appendTerminalAndFinalizeLocked (staleTerminal r.activeApply)) ∨
    (r.status ≠ .stale ∧ r.live = true ∧ r.hydrated = false ∧ r.markStale =
      ({ r with status := .stale }.closeSubs,{ r with status := .stale }.persist
        [⟨0,staleTerminal r.activeApply⟩,⟨0,closedEvent⟩] true)) := by
  unfold markStale
  by_cases hdone : r.status = .stale ∨ (!r.live) = true
  · exact .inl (if_pos hdone)
  · rw [if_neg hdone]
    have hstale : r.status ≠ .stale := fun hs => hdone (.inl hs)
    have hlive : r.live = true := by simpa using fun hn => hdone (.inr hn)
    by_cases hyd : r.hydrated = true
    · exact .inr (.inl ⟨hstale,hlive,hyd,if_pos hyd⟩)
    · exact .inr (.inr ⟨hstale,hlive,by simpa using hyd,if_neg hyd⟩)

theorem markStale_ok (ok : RunOk h r) : RunOk h r.markStale.1 := by
  rcases markStale_cases r with hsame | ⟨_,hlive,hyd,hstale⟩ | ⟨_,_,hyd,hstale⟩
  · rw [hsame]
    exact ok
  · rw [hstale]
    exact (ok.close hyd (by simp)).of_core (appendTerminalAndFinalizeLocked_core hlive _ _)
  · rw [hstale]
    exact
      { held := fun hh => by cases hyd.symm.trans (ok.held hh).2
        free := fun hnone => ⟨(ok.free hnone).1,nofun⟩
        running := nofun
        stale := fun _ => rfl
        numbered := ok.numbered
        unhydrated := fun _ => ok.unhydrated hyd
        detached := fun _ _ => rfl }

theorem markStale_log (ok : RunOk h r) (log : LogOk h r) (hattr : r.live = true → Attributed r) :
    LogOk h r.markStale.1 := by
  rcases markStale_cases r with hsame | ⟨_,hlive,hyd,hstale⟩ | ⟨_,_,hyd,hstale⟩
  · rw [hsame]
    exact log
  · rw [hstale]
    have hattr := hattr hlive
    obtain ⟨hterminal,hout⟩ := staleTerminal_spec r.activeApply
    refine (log.close [staleTerminal r.activeApply,closedEvent] .stale
      fun _ => ?_).of_core (appendTerminalAndFinalizeLocked_core hlive _ _)
    have hnext : (expected h r).next (staleTerminal r.activeApply) = some .between := by
      by_cases hrunning : r.status = .running
      · cases h with
        | none => exact absurd hrunning (ok.free rfl).2
        | some k =>
          have ht : r.taking = true :=
            taking_iff.mpr ⟨(ok.held (by simp)).1,hrunning,hlive⟩
          rw [expected_taking ht]
          exact next_terminal_hold hterminal fun hsome => log.active hyd ht hattr (hout hsome)
      · have hexp : expected h r = .between := by simp [expected, hlive, hrunning]
        have hnone : (staleTerminal r.activeApply).applyOutcome = none := by
          by_contra hsome
          obtain ⟨turn,hopen⟩ := hattr hyd (hout hsome)
          have hphase := phase_of_open (log hyd) hopen
          rw [hexp] at hphase
          cases hphase
        rw [hexp]
        exact next_terminal_hold (k := .reserved) hterminal fun hsome => absurd hnone hsome
    rw [run_cons, hnext]
    rfl
  · rw [hstale]
    exact fun hn => by cases hyd.symm.trans hn

/-- A run that is dropped is detached and finalized. -/
theorem drop_ok (ok : RunOk h r) (hs : r.status ≠ .running) :
    RunOk h ({ r with store := false }.finalizeLocked).1 := by
  cases hlive : r.live with
  | false =>
    have hlive' : Run.live { r with store := false } = false := hlive
    rw [finalizeLocked, hlive']
    exact { ok with
      unhydrated := fun _ hstore => nomatch hstore
      detached := fun _ _ => hlive }
  | true =>
    refine RunOk.of_core ?_ (finalizeLocked_core (r := { r with store := false }) hlive)
    exact
      { held := ok.held
        free := ok.free
        running := fun hrunning => absurd hrunning hs
        stale := fun _ => rfl
        numbered := from_append.mpr ⟨ok.numbered,by
          rw [Nat.zero_add]
          exact numberFrom_numbered _ _⟩
        unhydrated := fun _ hstore => nomatch hstore
        detached := fun _ _ => rfl }

theorem drop_log (log : LogOk h r) (hs : r.status ≠ .running) :
    LogOk h ({ r with store := false }.finalizeLocked).1 := by
  cases hlive : r.live with
  | false =>
    have hlive' : Run.live { r with store := false } = false := hlive
    rw [finalizeLocked, hlive']
    exact log
  | true =>
    refine LogOk.of_core ?_ (finalizeLocked_core (r := { r with store := false }) hlive)
    refine LogOk.close (r := { r with store := false }) log [closedEvent] r.status fun _ => ?_
    have hexp : expected h { r with store := false } = .between := by
      have hlive' : Run.live { r with store := false } = true := hlive
      simp [expected, hlive', hs]
    rw [hexp]
    rfl

/-- A run that nobody holds is reserved. -/
theorem beginTurn_ok {requireSession : Bool} {done : Run × List StoreOp} (ok : RunOk none r)
    (hyd : r.hydrated = true) (hlive : r.live = true ∨ r.status = .stale)
    (hbegin : r.beginTurn requireSession = some done) :
    done.1 = { r with inFlight := true, status := .running } ∧ RunOk (some .reserved) done.1 := by
  unfold beginTurn at hbegin
  split_ifs at hbegin with hin hstale
  have hthere := (congrArg Prod.fst (Option.some.inj hbegin)).symm
  have hlive : r.live = true := hlive.resolve_right hstale
  refine ⟨hthere,?_⟩
  rw [hthere]
  exact
    { held := fun _ => ⟨rfl,hyd⟩
      free := (by simp)
      running := fun _ => hlive
      stale := (by simp)
      numbered := ok.numbered
      unhydrated := fun hn => by cases hyd.symm.trans hn
      detached := fun hn => by cases hyd.symm.trans hn }

theorem reserve_log (ok : RunOk none r) (log : LogOk none r) (hlive : r.live = true) :
    LogOk (some .reserved) { r with inFlight := true, status := .running } := by
  intro hyd
  have hlive' : Run.live { r with inFlight := true, status := .running } = true := hlive
  have hexp : expected none r = .between := by simp [expected, hlive, (ok.free rfl).2]
  have hthere : expected (some .reserved) { r with inFlight := true, status := .running } =
      .between := by simp [expected, hlive', Hold.phase]
  rw [hthere, ← hexp]
  exact log hyd

/-- The holder gives a run up that it may not go on with. -/
theorem release_ok {k : Hold} (ok : RunOk (some k) r) (ht : r.taking = false) :
    RunOk none r.release where
  held := fun hn => absurd rfl hn
  free _ := by
    refine ⟨rfl,fun hrunning => ?_⟩
    have ht' := taking_iff.mpr ⟨(ok.held (by simp)).1,hrunning,ok.running hrunning⟩
    cases ht.symm.trans ht'
  running := ok.running
  stale := ok.stale
  numbered := ok.numbered
  unhydrated := ok.unhydrated
  detached := ok.detached

theorem release_log {k : Hold} (ok : RunOk (some k) r) (log : LogOk (some k) r)
    (ht : r.taking = false) : LogOk none r.release := by
  intro hyd
  have hs : r.status ≠ .running := (release_ok ok ht).free rfl |>.2
  have hexp : expected none r.release = expected (some k) r := by
    simp [expected, release, Run.live, hs]
  rw [hexp]
  exact log hyd

theorem launchTurn_spec {turn : RunTurn} {done : Run × List StoreOp}
    (hlaunch : r.launchTurn turn = some done) :
    r.taking = true ∧ done = r.appendLocked (turnMarker turn) := by
  unfold launchTurn at hlaunch
  split_ifs at hlaunch with ht
  exact ⟨by simpa using ht,(Option.some.inj hlaunch).symm⟩

theorem launchTurn_none {turn : RunTurn} (hlaunch : r.launchTurn turn = none) :
    r.taking = false := by
  unfold launchTurn at hlaunch
  split_ifs at hlaunch with ht
  simpa using ht

/-- The status is what it was. -/
theorem extend_status (r : Run) (es : List StreamEvent) :
    { r with events := r.events++numberFrom r.events.length es } = r.extend es r.status := rfl

/-- An append by the holder, from one hold to the next. -/
theorem append_ok {k l : Hold} {es : List StreamEvent} (ok : RunOk (some k) r)
    (ht : r.taking = true) : RunOk (some l) (r.extend es .running) := by
  obtain ⟨hin,hstatus,hlive⟩ := taking_iff.mp ht
  have hyd := (ok.held (by simp)).2
  have hheld : RunOk (some l) r :=
    { ok with held := fun _ => ⟨hin,hyd⟩, free := nofun }
  exact hheld.extend es hyd nofun (fun _ => hlive) (by simp)

theorem append_log {k l : Hold} {es : List StreamEvent} (log : LogOk (some k) r)
    (ht : r.taking = true) (hes : run Phase.next k.phase es = some l.phase) :
    LogOk (some l) (r.extend es .running) := by
  refine log.extend es .running fun _ => ?_
  obtain ⟨_,_,hlive⟩ := taking_iff.mp ht
  have hlive' : (r.extend es .running).live = true := hlive
  have hstatus : (r.extend es .running).status = .running := rfl
  have hthere : expected (some l) (r.extend es .running) = l.phase := by
    simp [expected, hlive', hstatus]
  rw [expected_taking ht, hes, hthere]

theorem appendLocked_taking (ht : r.taking = true) (e : StreamEvent) :
    (r.appendLocked e).1.core = (r.extend [e] .running).core := by
  have hsame : { r with status := .running } = r := by
    rw [← (taking_iff.mp ht).2.1]
  have hcore := appendLocked_core r e .running
  rw [hsame] at hcore
  exact hcore

theorem launch_ok {turn : RunTurn} (ok : RunOk (some .reserved) r) (ht : r.taking = true) :
    RunOk (some (.launched turn.apply)) (r.appendLocked (turnMarker turn)).1 :=
  (append_ok ok ht).of_core (appendLocked_taking ht _)

theorem launch_log {turn : RunTurn} (log : LogOk (some .reserved) r) (ht : r.taking = true) :
    LogOk (some (.launched turn.apply)) (r.appendLocked (turnMarker turn)).1 :=
  (append_log (l := .launched turn.apply) log ht rfl).of_core (appendLocked_taking ht _)

/-- What an agent emits goes into the turn that is open, or nowhere. -/
theorem emit_ok {k : Hold} (ok : RunOk (some k) r) :
    RunOk (some k) (r.appendStreamEvent e).1 := by
  unfold appendStreamEvent
  cases ht : r.taking with
  | false => exact ok
  | true => exact (append_ok ok ht).of_core (appendLocked_taking ht _)

theorem emit_log {apply : Bool} (log : LogOk (some (.launched apply)) r)
    (he : e.isAgent = true) : LogOk (some (.launched apply)) (r.appendStreamEvent e).1 := by
  unfold appendStreamEvent
  cases ht : r.taking with
  | false => exact log
  | true =>
    refine (append_log log ht ?_).of_core (appendLocked_taking ht _)
    rcases type_of_agent he with htype | htype | htype <;>
      simp [Hold.phase, Phase.next, htype]

/-- The terminal is in the log, and the holder lets go. -/
theorem ended_ok {k : Hold} {a : Run} {es : List StreamEvent} {status : Status}
    (ok : RunOk (some k) r) (hrunning : status ≠ .running) (hstale : status ≠ .stale)
    (hcore : a.core = (r.extend es status).core) : RunOk none a.release := by
  have hyd := (ok.held (by simp)).2
  have hthere := (ok.extend es hyd (by simp) (absurd · hrunning) hstale).of_core hcore
  refine release_ok hthere ?_
  have hs : a.status = status := core_status hcore
  simp [taking, hs, hrunning]

theorem ended_log {k : Hold} {a : Run} {status : Status} (ok : RunOk (some k) r)
    (log : LogOk (some k) r) (hlive : r.live = true) (hrunning : status ≠ .running)
    (hstale : status ≠ .stale) (hcore : a.core = (r.extend [e] status).core)
    (he : (expected (some k) r).next e = some .between) : LogOk none a.release := by
  have hyd := (ok.held (by simp)).2
  have hthere : LogOk (some k) (r.extend [e] status) := by
    refine log.extend [e] status fun _ => ?_
    have hlive' : (r.extend [e] status).live = true := hlive
    have hs : (r.extend [e] status).status = status := rfl
    have hexp : expected (some k) (r.extend [e] status) = .between := by
      simp [expected, hlive', hs, hrunning]
    rw [hexp, run_cons, he]
    rfl
  have hok := (ok.extend [e] hyd (by simp) (absurd · hrunning) hstale).of_core hcore
  refine release_log hok (hthere.of_core hcore) ?_
  have hs : a.status = status := core_status hcore
  simp [taking, hs, hrunning]

theorem RunOk.setPreview (ok : RunOk h r) (sessionID preview : String) :
    RunOk h { r with sessionID := sessionID, preview := preview } :=
  ⟨ok.held,ok.free,ok.running,ok.stale,ok.numbered,ok.unhydrated,ok.detached⟩

theorem LogOk.setPreview (log : LogOk h r) (sessionID preview : String) :
    LogOk h { r with sessionID := sessionID, preview := preview } := log

theorem finishApplyAndBeginVerification_spec {question : String} {done : Run × List StoreOp}
    (hdone : r.finishApplyAndBeginVerification e question = some done) :
    r.taking = true ∧ done = { r with preview := r.applyPreview e }.appendEventsLocked
      [e,turnMarker { question := question, verify := true }] true := by
  unfold finishApplyAndBeginVerification at hdone
  split_ifs at hdone with ht
  exact ⟨by simpa using ht,(Option.some.inj hdone).symm⟩

theorem finishApplyAndBeginVerification_none {question : String}
    (hdone : r.finishApplyAndBeginVerification e question = none) : r.taking = false := by
  unfold finishApplyAndBeginVerification at hdone
  split_ifs at hdone with ht
  simpa using ht

theorem appendEventsLocked_taking (ht : r.taking = true) (es : List StreamEvent)
    (preview : String) :
    ({ r with preview := preview }.appendEventsLocked es true).1.core =
      ({ r with preview := preview }.extend es .running).core := by
  rw [appendEventsLocked_core, ← (taking_iff.mp ht).2.1]
  rfl

/-- From the apply turn to its verification. -/
theorem verify_ok {k : Hold} {question : String} (ok : RunOk (some k) r) (ht : r.taking = true) :
    RunOk (some (.launched false)) ({ r with preview := r.applyPreview e }.appendEventsLocked
      [e,turnMarker { question := question, verify := true }] true).1 := by
  refine RunOk.of_core ?_ (appendEventsLocked_taking ht _ _)
  exact append_ok (ok.setPreview r.sessionID _) ht

theorem verify_log {question : String} (log : LogOk (some (.launched true)) r)
    (ht : r.taking = true) (he : e.isTerminal = true) :
    LogOk (some (.launched false)) ({ r with preview := r.applyPreview e }.appendEventsLocked
      [e,turnMarker { question := question, verify := true }] true).1 := by
  refine LogOk.of_core ?_ (appendEventsLocked_taking ht _ _)
  refine append_log (log.setPreview r.sessionID _) ht ?_
  rw [run_cons, next_terminal_hold (k := .launched true) he fun _ => rfl]
  rfl

theorem finishApply_ok {k : Hold} (ok : RunOk (some k) r) :
    RunOk none (r.finishApplyWithoutVerification e).1 := by
  unfold finishApplyWithoutVerification
  cases ht : r.taking with
  | false => exact release_ok ok ht
  | true => exact ended_ok ok (by simp) (by simp) (appendLocked_core r e .error)

theorem finishApply_log (ok : RunOk (some (.launched true)) r)
    (log : LogOk (some (.launched true)) r) (he : e.isTerminal = true) :
    LogOk none (r.finishApplyWithoutVerification e).1 := by
  unfold finishApplyWithoutVerification
  cases ht : r.taking with
  | false => exact release_log ok log ht
  | true =>
    refine ended_log ok log (taking_iff.mp ht).2.2 (by simp) (by simp)
      (appendLocked_core r e .error) ?_
    rw [expected_taking ht]
    exact next_terminal_hold he fun _ => rfl

/-- A terminal without an outcome may close any turn. -/
theorem next_plain {k : Hold} (he : e.isTerminal = true) (hout : e.applyOutcome = none)
    (hlive : r.live = true) : (expected (some k) r).next e = some .between := by
  by_cases hrunning : r.status = .running
  · have hexp : expected (some k) r = k.phase := by simp [expected, hlive, hrunning]
    rw [hexp]
    exact next_terminal_hold he fun hsome => absurd hout hsome
  · have hexp : expected (some k) r = .between := by simp [expected, hlive, hrunning]
    rw [hexp]
    exact next_terminal_hold (k := .reserved) he fun hsome => absurd hout hsome

variable (bindRootCauseEvidence : List RunEvent → Verdict → Verdict)

/-- How a turn ends: another owns the terminal, or it is the run's own. -/
theorem finishTurn_cases (r : Run) (diag : Diagnosis) (turnErr : Option TurnErr) (apply : Bool)
    (timeout : String) :
    (r.finishTurn bindRootCauseEvidence diag turnErr apply timeout = (r.release,[]) ∧
      r.taking = false) ∨
    r.live = true ∧ ∃ session preview status e,
      r.finishTurn bindRootCauseEvidence diag turnErr apply timeout =
        (({ r with sessionID := session, preview := preview, status := status }.appendLocked
            e).1.release,
          ({ r with sessionID := session, preview := preview, status := status }.appendLocked
            e).2) ∧
      status ≠ .running ∧ status ≠ .stale ∧ e.isTerminal = true ∧ e.applyOutcome = none ∧
      (session = r.sessionID ∨ apply = false ∧ session = diag.sessionID) := by
  unfold finishTurn
  by_cases hover : r.status = .stopped ∨ r.status = .stale ∨ (!r.live) = true
  · rw [if_pos hover]
    refine .inl ⟨rfl,?_⟩
    rcases hover with hs | hs | hlive
    · simp [taking, hs]
    · simp [taking, hs]
    · have : r.live = false := by simpa using hlive
      simp [taking, this]
  · rw [if_neg hover]
    have hlive : r.live = true := by simpa using fun hn => hover (.inr (.inr hn))
    refine .inr ⟨hlive,?_⟩
    cases turnErr with
    | some failure =>
      exact ⟨r.sessionID,r.preview,.error,_,rfl,by simp,by simp,rfl,rfl,.inl rfl⟩
    | none =>
      refine ⟨_,_,.done,_,rfl,by simp,by simp,rfl,rfl,?_⟩
      by_cases hsession : diag.sessionID ≠ "" ∧ (!apply) = true
      · exact .inr ⟨by simpa using hsession.2,if_pos hsession⟩
      · exact .inl (if_neg hsession)

theorem finishTurn_ok {k : Hold} (ok : RunOk (some k) r) (diag : Diagnosis)
    (turnErr : Option TurnErr) (apply : Bool) (timeout : String) :
    RunOk none (r.finishTurn bindRootCauseEvidence diag turnErr apply timeout).1 := by
  rcases finishTurn_cases bindRootCauseEvidence r diag turnErr apply
    timeout with ⟨hdone,ht⟩ | ⟨_,session,preview,status,e,hdone,hrunning,hstale,_⟩
  · rw [hdone]
    exact release_ok ok ht
  · rw [hdone]
    exact ended_ok (ok.setPreview session preview) hrunning hstale
      (appendLocked_core { r with sessionID := session, preview := preview } e status)

theorem finishTurn_log {k : Hold} (ok : RunOk (some k) r) (log : LogOk (some k) r)
    (diag : Diagnosis) (turnErr : Option TurnErr) (apply : Bool) (timeout : String) :
    LogOk none (r.finishTurn bindRootCauseEvidence diag turnErr apply timeout).1 := by
  rcases finishTurn_cases bindRootCauseEvidence r diag turnErr apply
    timeout with ⟨hdone,ht⟩ | ⟨hlive,session,preview,status,e,hdone,hrunning,hstale,he,hout,_⟩
  · rw [hdone]
    exact release_log ok log ht
  · rw [hdone]
    exact ended_log (ok.setPreview session preview) (log.setPreview session preview) hlive
      hrunning hstale
      (appendLocked_core { r with sessionID := session, preview := preview } e status)
      (next_plain (r := r) he hout hlive)

/-- What may be read of the store for a run whose log is not in memory. -/
structure Restorable (live : Bool) (events : List RunEvent) : Prop where
  numbered : From RunEvent.seq 0 events
  settled : phase (events.map (·.event)) = some .between ∨
    live = false ∧ phase (events.map (·.event)) = some .closed

theorem last_closed {log : List StreamEvent} {p : Phase} (h : phase log = some p)
    (hlast : (log.getLast?.map (·.isClosed)).getD false = true) : p = .closed := by
  induction log using List.reverseRecOn with
  | nil => nomatch hlast
  | append_singleton log e _ =>
    obtain ⟨q,_,hnext⟩ := run_append_some Phase.next h
    have hclosed : e.isClosed = true := by simpa using hlast
    exact (next_closed hclosed (by simpa using hnext)).2

theorem install_spec {events : List RunEvent} {run : Run} (hinstall : r.install events = some run) :
    (r.hydrated = true ∧ run = r) ∨
    (r.hydrated = false ∧ r.store = true ∧ run = { r with events := events, hydrated := true } ∧
      (r.live = false → (events.getLast?.map (·.event.isClosed)).getD false = true)) := by
  unfold install at hinstall
  split_ifs at hinstall with hyd hstore hclosed
  · exact .inl ⟨hyd,(Option.some.inj hinstall).symm⟩
  · refine .inr ⟨by simpa using hyd,by simpa using hstore,(Option.some.inj hinstall).symm,?_⟩
    intro hlive
    by_contra hn
    exact hclosed ⟨by simp [hlive],by simpa using hn⟩

theorem install_ok {events : List RunEvent} {run : Run} (ok : RunOk h r)
    (hinstall : r.install events = some run)
    (hread : r.hydrated = false → r.store = true → Restorable r.live events) : RunOk h run := by
  rcases install_spec hinstall with ⟨_,rfl⟩ | ⟨hyd,hstore,rfl,_⟩
  · exact ok
  · exact
      { held := fun hh => by cases hyd.symm.trans (ok.held hh).2
        free := ok.free
        running := ok.running
        stale := ok.stale
        numbered := (hread hyd hstore).numbered
        unhydrated := (by simp)
        detached := (by simp) }

theorem install_log {events : List RunEvent} {run : Run} (ok : RunOk h r) (log : LogOk h r)
    (hinstall : r.install events = some run)
    (hread : r.hydrated = false → r.store = true → Restorable r.live events) : LogOk h run := by
  rcases install_spec hinstall with ⟨_,rfl⟩ | ⟨hyd,hstore,rfl,hlast⟩
  · exact log
  · intro _
    have hfree : h = none := by
      by_contra hh
      cases hyd.symm.trans (ok.held hh).2
    have hrunning : r.status ≠ .running := (ok.free hfree).2
    show phase (events.map (·.event)) = some (expected h { r with events := events, hydrated := true })
    cases hlive : r.live with
    | true =>
      have hlive' : Run.live { r with events := events, hydrated := true } = true := hlive
      rcases (hread hyd hstore).settled with hbetween | ⟨hdead,_⟩
      · rw [hbetween]
        simp [expected, hlive', hrunning]
      · cases hlive.symm.trans hdead
    | false =>
      have hlive' : Run.live { r with events := events, hydrated := true } = false := hlive
      have hexp : expected h { r with events := events, hydrated := true } = .closed := by
        simp [expected, hlive']
      have hclosed : ((events.map (·.event)).getLast?.map (·.isClosed)).getD false = true := by
        rw [List.getLast?_map, Option.map_map]
        exact hlast hlive
      rw [hexp]
      rcases (hread hyd hstore).settled with hphase | ⟨_,hphase⟩
      · cases last_closed hphase hclosed
      · exact hphase

end Sections

end Radar.Ai
