import Mathlib.Data.List.Infix
import Radar.Ai.Restart

/-!
# What the store is told of a run

The row of a run and its transcript are written by operations of their own.
What a critical section enqueues is what it does to the run, as far as a
restart shows it.
-/

set_option autoImplicit false

namespace Radar.Ai

open Radar.Numbered
open Radar.Ai.Run

theorem forget_id (sum : RunSummary) : sum.forget.id = sum.id := by
  unfold RunSummary.forget
  split <;> rfl

theorem forget_status (sum : RunSummary) : sum.forget.status = sum.status := by
  unfold RunSummary.forget
  split <;> rfl

/-- The store shows the run, but for the session that a restart forgets. -/
structure Shown (t : Tables) (r : Run) : Prop where
  row : ∃ sum, t.runs r.id = some sum ∧ sum.forget = r.summaryLocked.forget
  log : r.hydrated = true → t.events r.id = r.events
  numbered : From RunEvent.seq 0 (t.events r.id)
  /-- Only a run that is running has a turn that is open. -/
  running : (openTurn? ((t.events r.id).map (·.event))).isSome = true → r.status = .running

/-- An operation of one run, and none that deletes. -/
def StoreOp.of (id : ℕ) : StoreOp → Prop
  | .saveRun sum => sum.id = id
  | .appendEvents runID _ summary => runID = id ∧ ∀ row, summary = some row → row.id = id
  | _ => False

/-- What an operation adds to the log of a run. -/
def StoreOp.appended (id : ℕ) : StoreOp → List RunEvent
  | .appendEvents runID events _ => if runID = id then events else []
  | _ => []

/-- What a section enqueues is what it does to the run. -/
structure Tells (a : Run) (done : Run × List StoreOp) : Prop where
  id : done.1.id = a.id
  store : done.1.store = a.store
  hydrated : done.1.hydrated = a.hydrated
  grows : a.hydrated = true → a.events <+: done.1.events
  silent : a.store = false → done.2 = []
  few : done.2.length ≤ 1
  own : ∀ op ∈ done.2, op.of a.id
  /-- A run whose log is not in memory can only end. -/
  rests : a.hydrated = false →
    done.2 = [] ∧ done.1.live = a.live ∨ a.live = true ∧ done.1.live = false
  shown : a.store = true → ∀ t, Shown t a →
    Shown (t.applyAll done.2) done.1 ∧ t.events a.id <+: (t.applyAll done.2).events a.id

section Ops

variable {op : StoreOp} {id q : ℕ}

theorem StoreOp.of.aside (h : op.of id) (hq : q ≠ id) : ¬ op.about q := by
  cases op with
  | saveRun sum => exact fun he => hq (he.symm.trans h)
  | appendEvents runID events summary =>
    rintro (he | ⟨row,hrow,he⟩)
    · exact hq (he.symm.trans h.1)
    · exact hq (he.symm.trans (h.2 row hrow))
  | _ => cases h

theorem StoreOp.of.events (h : op.of id) (t : Tables) :
    (t.apply op).events id = (op.appended id).foldl appendRow (t.events id) := by
  cases op with
  | saveRun sum => rfl
  | appendEvents runID events summary =>
    obtain ⟨rfl,_⟩ := h
    rw [apply_appendEvents, StoreOp.appended, if_pos rfl]
  | _ => cases h

theorem appended_aside (h : ¬ op.about id) : op.appended id = [] := by
  cases op with
  | appendEvents runID events summary => exact if_neg fun he => h (.inl he)
  | _ => rfl

end Ops

section Appends

variable {a b r : Run} {t : Tables} {es : List StreamEvent} {e : StreamEvent}

theorem openTurn?_terminal {log : List StreamEvent} (he : e.isTerminal = true) :
    openTurn? (log++[e]) = none := by
  have hturn : e.isTurn = false := by
    rcases type_of_terminal he with h | h <;> simp [StreamEvent.isTurn, h]
  unfold openTurn?
  rw [List.reverse_append, List.reverse_singleton, List.singleton_append, List.find?_cons, hturn, he]
  simp [Option.filter, hturn]

/-- What neither opens nor ends a turn. -/
theorem openTurn?_other {log : List StreamEvent} (hturn : e.isTurn = false)
    (he : e.isTerminal = false) : openTurn? (log++[e]) = openTurn? log := by
  unfold openTurn?
  rw [List.reverse_append, List.reverse_singleton, List.singleton_append, List.find?_cons, hturn, he]
  rfl

/-- Nothing changes that the store shows. -/
theorem Tells.quiet (hsum : b.summaryLocked = a.summaryLocked) (hstore : b.store = a.store)
    (hyd : b.hydrated = a.hydrated) (hevents : b.events = a.events) (hlive : b.live = a.live) :
    Tells a (b,[]) where
  id := congrArg RunSummary.id hsum
  store := hstore
  hydrated := hyd
  grows _ := by
    show a.events <+: b.events
    rw [hevents]
  silent _ := rfl
  few := Nat.zero_le _
  own _ hop := by cases hop
  rests _ := .inl ⟨rfl,hlive⟩
  shown _ t h := by
    have hid : b.id = a.id := congrArg RunSummary.id hsum
    have hstatus : b.status = a.status := congrArg RunSummary.status hsum
    refine ⟨⟨?_,fun hh => ?_,?_,fun hopen => ?_⟩,List.prefix_rfl⟩
    · show ∃ sum, t.runs b.id = some sum ∧ _
      rw [hid, hsum]
      exact h.row
    · show t.events b.id = b.events
      rw [hid, hevents]
      exact h.log (hyd.symm.trans hh)
    · show From RunEvent.seq 0 (t.events b.id)
      rw [hid]
      exact h.numbered
    · rw [hstatus]
      refine h.running ?_
      rw [← hid]
      exact hopen

theorem core_summary (h : b.core = a.core) : b.summaryLocked = a.summaryLocked := by
  have hsum : ∀ r : Run, r.core.summaryLocked = r.summaryLocked := fun _ => rfl
  rw [← hsum b, h, hsum]

theorem Tells.of_core (h : b.core = a.core) : Tells a (b,[]) :=
  Tells.quiet (core_summary h) (core_store h) (core_hydrated h) (core_events h) (core_live h)

theorem Tells.release {done : Run × List StoreOp} (h : Tells a done) :
    Tells a (done.1.release,done.2) where
  id := h.id
  store := h.store
  hydrated := h.hydrated
  grows := h.grows
  silent := h.silent
  few := h.few
  own := h.own
  rests := h.rests
  shown hstore t ht := by
    obtain ⟨⟨hrow,hlog,hnum,hrunning⟩,hgrows⟩ := h.shown hstore t ht
    exact ⟨⟨hrow,hlog,hnum,hrunning⟩,hgrows⟩

theorem persist_of (r : Run) (batch : List RunEvent) (p : Bool) :
    ∀ op ∈ r.persist batch p, op.of r.id := by
  intro op hop
  unfold persist at hop
  split_ifs at hop with hstore hp
  · rw [List.mem_singleton.mp hop]
    refine ⟨rfl,fun row hrow => ?_⟩
    rw [← Option.some.inj hrow]
    rfl
  · rw [List.mem_singleton.mp hop]
    exact ⟨rfl,nofun⟩
  · exact absurd hop List.not_mem_nil

theorem persist_few (r : Run) (batch : List RunEvent) (p : Bool) :
    (r.persist batch p).length ≤ 1 := by
  unfold persist
  split_ifs <;> simp

theorem persist_silent {batch : List RunEvent} {p : Bool} (h : r.store = false) :
    r.persist batch p = [] := by
  rw [persist, h]
  rfl

/-- The tables once the writer has done what a run told it. -/
theorem apply_persist (h : r.store = true) (t : Tables) (batch : List RunEvent) (p : Bool) :
    (t.applyAll (r.persist batch p)).events r.id = batch.foldl appendRow (t.events r.id) ∧
      (t.applyAll (r.persist batch p)).runs r.id =
        if p then some r.summaryLocked else t.runs r.id := by
  rw [persist, if_pos h, applyAll_one]
  refine ⟨apply_appendEvents _ _ _ _,?_⟩
  cases p with
  | false => rfl
  | true => exact Function.update_self ..

/-- Events are appended; the row is written again where the summary may have changed. -/
theorem Tells.append {p : Bool} (hid : b.id = a.id) (hstore : b.store = a.store)
    (hyd : b.hydrated = a.hydrated) (hevents : b.events = a.events)
    (hsum : p = false → b.summaryLocked = a.summaryLocked) (hthere : a.hydrated = true)
    (hopen : (openTurn? (a.log++es)).isSome = true → b.status = .running) :
    Tells a (b.appendEventsLocked es p) := by
  have hcore : (b.appendEventsLocked es p).1.core =
      Run.core { b with events := b.events++numberFrom b.events.length es } :=
    appendEventsLocked_core b es p
  have hgrown : (b.appendEventsLocked es p).1.events =
      a.events++numberFrom a.events.length es := by
    rw [← hevents]
    exact core_events hcore
  have hhyd : (b.appendEventsLocked es p).1.hydrated = a.hydrated :=
    (core_hydrated hcore).trans hyd
  have hsummary : (b.appendEventsLocked es p).1.summaryLocked = b.summaryLocked :=
    (core_summary hcore :)
  exact
    { id := (core_id hcore).trans hid
      store := (core_store hcore).trans hstore
      hydrated := hhyd
      grows := fun _ => ⟨_,hgrown.symm⟩
      silent := fun hs => persist_silent (hstore.trans hs)
      few := persist_few _ _ _
      own := fun op hop => hid ▸ persist_of _ _ _ op hop
      rests := fun hn => by cases hthere.symm.trans hn
      shown := fun hs t ht => by
        have htold := apply_persist
          (r := { b with events := b.events++numberFrom b.events.length es })
          (hstore.trans hs) t (numberFrom b.events.length es) p
        have hrows : (t.applyAll (b.appendEventsLocked es p).2).events a.id =
            (numberFrom b.events.length es).foldl appendRow (t.events a.id) := by
          rw [← hid]
          exact htold.1
        have hrow : (t.applyAll (b.appendEventsLocked es p).2).runs a.id =
            if p then some b.summaryLocked else t.runs a.id := by
          rw [← hid]
          exact htold.2
        have hlog := ht.log hthere
        have hnumbered : From RunEvent.seq 0 (a.events++numberFrom a.events.length es) := by
          refine from_append.mpr ⟨hlog ▸ ht.numbered,?_⟩
          rw [Nat.zero_add]
          exact numberFrom_numbered _ _
        rw [hlog, hevents, appendRows_numbered hnumbered] at hrows
        have hname : (b.appendEventsLocked es p).1.id = a.id := (core_id hcore).trans hid
        refine ⟨⟨?_,fun _ => ?_,?_,fun ho => ?_⟩,?_⟩
        · rw [hname, hrow]
          cases p with
          | true => exact ⟨b.summaryLocked,rfl,congrArg RunSummary.forget hsummary.symm⟩
          | false =>
            rw [hsummary, hsum rfl]
            exact ht.row
        · rw [hname, hrows, hgrown]
        · rw [hname, hrows]
          exact hnumbered
        · rw [hname, hrows, List.map_append, numberFrom_events] at ho
          exact (congrArg RunSummary.status hsummary).trans (hopen ho)
        · rw [hrows, hlog]
          exact List.prefix_append _ _ }

end Appends

section Sections

variable {r : Run} {e : StreamEvent}

/-- A terminal with whatever the section leaves of the status and the summary. -/
theorem tells_terminal {b : Run} (hid : b.id = r.id) (hstore : b.store = r.store)
    (hyd : b.hydrated = r.hydrated) (hevents : b.events = r.events) (hthere : r.hydrated = true)
    (he : e.isTerminal = true) : Tells r (b.appendLocked e) := by
  refine Tells.append hid hstore hyd hevents (fun hn => by cases he.symm.trans hn) hthere ?_
  intro hopen
  rw [openTurn?_terminal he] at hopen
  cases hopen

theorem halt_tells (hthere : r.hydrated = true) (he : e.isTerminal = true) :
    Tells r ({ r with status := .stopped }.appendLocked e) :=
  tells_terminal rfl rfl rfl rfl hthere he

theorem stop_tells (hthere : r.taking = true → r.hydrated = true) : Tells r r.stop := by
  unfold stop
  cases ht : r.taking with
  | false => exact Tells.of_core rfl
  | true => exact halt_tells (hthere ht) (stopTerminal_spec _).1

theorem shutdown_tells (hthere : r.taking = true → r.hydrated = true) : Tells r r.shutdown := by
  unfold Run.shutdown
  cases ht : r.taking with
  | false => exact Tells.of_core rfl
  | true => exact halt_tells (hthere ht) (shutdownTerminal_spec _).1

/-- The channels are closed after the section has told the store. -/
theorem Tells.closeSubs {done : Run × List StoreOp} (h : Tells r done)
    (hrests : r.hydrated = false → r.live = true) : Tells r (done.1.closeSubs,done.2) where
  id := h.id
  store := h.store
  hydrated := h.hydrated
  grows := h.grows
  silent := h.silent
  few := h.few
  own := h.own
  rests hn := .inr ⟨hrests hn,rfl⟩
  shown hstore t ht := by
    obtain ⟨⟨hrow,hlog,hnum,hrunning⟩,hgrows⟩ := h.shown hstore t ht
    exact ⟨⟨hrow,hlog,hnum,hrunning⟩,hgrows⟩

/-- The store numbers what is appended to a log that is not in memory. -/
theorem appendRows_unnumbered {rows : List RunEvent} (h : From RunEvent.seq 0 rows)
    (e d : StreamEvent) : [(⟨0,e⟩ : RunEvent),⟨0,d⟩].foldl appendRow rows =
      rows++numberFrom rows.length [e,d] := by
  have hone : From RunEvent.seq 0 (rows++[⟨rows.length+1,e⟩]) :=
    from_append.mpr ⟨h,by rw [Nat.zero_add]; exact ⟨rfl,trivial⟩⟩
  rw [List.foldl_cons, List.foldl_cons, List.foldl_nil, appendRow_next h (.inr rfl),
    appendRow_next hone (.inr rfl)]
  simp [numberFrom]

theorem markStale_tells : Tells r r.markStale := by
  rcases markStale_cases r with hsame | ⟨_,hlive,hyd,hstale⟩ | ⟨_,hlive,hyd,hstale⟩
  · rw [hsame]
    exact Tells.of_core rfl
  · have hlive' : Run.live { r with status := .stale } = true := hlive
    rw [hstale, appendTerminalAndFinalizeLocked, hlive']
    refine Tells.closeSubs (Tells.append rfl rfl rfl rfl (by simp) hyd ?_) fun _ => hlive
    intro hopen
    rw [show [staleTerminal r.activeApply,closedEvent] =
      [staleTerminal r.activeApply]++[closedEvent] from rfl, ← List.append_assoc,
      openTurn?_other rfl rfl, openTurn?_terminal (staleTerminal_spec _).1] at hopen
    cases hopen
  · rw [hstale]
    have hnotHydrated : r.hydrated ≠ true := by simp [hyd]
    exact
      { id := rfl
        store := rfl
        hydrated := rfl
        grows := fun hh => absurd hh hnotHydrated
        silent := fun hs => persist_silent (r := { r with status := .stale }) hs
        few := persist_few _ _ _
        own := persist_of { r with status := .stale } _ _
        rests := fun _ => .inr ⟨hlive,rfl⟩
        shown := fun hs t ht => by
          obtain ⟨hrows,hrow⟩ := apply_persist (r := { r with status := .stale }) hs t
            [⟨0,staleTerminal r.activeApply⟩,⟨0,closedEvent⟩] true
          change Tables.events _ r.id = _ at hrows
          change Tables.runs _ r.id = _ at hrow
          rw [appendRows_unnumbered ht.numbered] at hrows
          refine ⟨⟨⟨_,hrow,rfl⟩,fun hh => absurd hh hnotHydrated,?_,fun hopen => ?_⟩,?_⟩
          · show From RunEvent.seq 0 (Tables.events _ r.id)
            rw [hrows]
            refine from_append.mpr ⟨ht.numbered,?_⟩
            rw [Nat.zero_add]
            exact numberFrom_numbered _ _
          · change (openTurn? ((Tables.events _ r.id).map (·.event))).isSome = true at hopen
            rw [hrows, List.map_append, numberFrom_events,
              show [staleTerminal r.activeApply,closedEvent] =
                [staleTerminal r.activeApply]++[closedEvent] from rfl, ← List.append_assoc,
              openTurn?_other rfl rfl, openTurn?_terminal (staleTerminal_spec _).1] at hopen
            cases hopen
          · rw [hrows]
            exact List.prefix_append _ _ }

theorem beginTurn_tells {requireSession : Bool} {done : Run × List StoreOp}
    (h : r.beginTurn requireSession = some done) (hthere : r.hydrated = true) : Tells r done := by
  unfold beginTurn at h
  split_ifs at h
  obtain rfl := Option.some.inj h
  by_cases hs : r.store = true
  · rw [if_pos hs]
    exact
      { id := rfl, store := rfl, hydrated := rfl, grows := fun _ => List.prefix_rfl
        silent := fun hn => by cases hs.symm.trans hn
        few := Nat.le_refl _
        own := fun op hop => by
          rw [List.mem_singleton.mp hop]
          rfl
        rests := fun hn => by cases hthere.symm.trans hn
        shown := fun _ t ht =>
          ⟨⟨⟨_,Function.update_self ..,rfl⟩,ht.log,ht.numbered,fun _ => rfl⟩,List.prefix_rfl⟩ }
  · rw [if_neg hs]
    exact
      { id := rfl, store := rfl, hydrated := rfl, grows := fun _ => List.prefix_rfl
        silent := fun _ => rfl
        few := Nat.zero_le _
        own := (by simp)
        rests := fun hn => by cases hthere.symm.trans hn
        shown := fun hn => absurd hn hs }

/-- An event of a turn that goes on. -/
theorem tells_taking (hthere : r.hydrated = true) (ht : r.taking = true) : Tells r (r.appendLocked e) :=
  Tells.append rfl rfl rfl rfl (fun _ => rfl) hthere fun _ => (taking_iff.mp ht).2.1

theorem emit_tells (hthere : r.hydrated = true) : Tells r (r.appendStreamEvent e) := by
  unfold appendStreamEvent
  cases ht : r.taking with
  | false => exact Tells.of_core rfl
  | true => exact tells_taking hthere ht

theorem release_tells (r : Run) : Tells r (r.release,[]) := (Tells.of_core rfl).release

theorem finishApply_tells (hthere : r.hydrated = true) (he : e.isTerminal = true) :
    Tells r (r.finishApplyWithoutVerification e) := by
  unfold finishApplyWithoutVerification
  cases ht : r.taking with
  | false => exact release_tells r
  | true =>
    exact (tells_terminal (r := r) (b := { r with status := .error }) rfl rfl rfl rfl hthere
      he).release

theorem verify_tells {question : String} {done : Run × List StoreOp}
    (h : r.finishApplyAndBeginVerification e question = some done) (hthere : r.hydrated = true) :
    Tells r done := by
  obtain ⟨ht,rfl⟩ := finishApplyAndBeginVerification_spec h
  exact Tells.append rfl rfl rfl rfl (by simp) hthere fun _ => (taking_iff.mp ht).2.1

theorem finishTurn_tells {bindRootCauseEvidence : List RunEvent → Verdict → Verdict}
    (hthere : r.hydrated = true) (diag : Diagnosis) (turnErr : Option TurnErr) (apply : Bool)
    (timeout : String) :
    Tells r (r.finishTurn bindRootCauseEvidence diag turnErr apply timeout) := by
  rcases finishTurn_cases bindRootCauseEvidence r diag turnErr apply
    timeout with ⟨hdone,_⟩ | ⟨_,session,preview,status,e,hdone,_,_,he,_⟩
  · rw [hdone]
    exact release_tells r
  · rw [hdone]
    exact (tells_terminal (r := r) (b := { r with
      sessionID := session, preview := preview, status := status }) rfl rfl rfl rfl hthere
      he).release

theorem launch_tells {turn : RunTurn} {done : Run × List StoreOp}
    (h : r.launchTurn turn = some done) (hthere : r.hydrated = true) : Tells r done := by
  obtain ⟨ht,rfl⟩ := launchTurn_spec h
  exact tells_taking hthere ht

end Sections

end Radar.Ai
