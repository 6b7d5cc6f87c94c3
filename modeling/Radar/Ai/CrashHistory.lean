import Radar.Ai.HistoryRuns

/-!
# What a crash leaves of the history

A crash keeps a prefix of the queue. The restart shows every run of which the
row was written, with a prefix of its log, and ends those that were running.
-/

set_option autoImplicit false

namespace Radar.Ai

open Radar.Numbered
open Radar.Run (run Meets meets_invariant)
open Radar.Ai.Run

/-- A restart that has found its store, once the writer has done what it enqueued. -/
structure Recovered (s : Manager) : Prop extends Loaded s where
  open_ : s.storeClosed = false
  hasStore : s.hasStore = true
  rows : ∀ r ∈ s.order, ∃ sum, s.tables.runs r = some sum ∧
    sum.forget = (s.runs r).summaryLocked.forget
  gone : ∀ r ∉ s.order, s.tables.runs r = none ∧ s.tables.events r = []

theorem recovered_fresh : Recovered {} where
  toLoaded := loaded_fresh
  open_ := rfl
  hasStore := rfl
  rows := (by simp)
  gone _ _ := ⟨rfl,rfl⟩

section Recovered

variable {s : Manager} {r : ℕ}

/-- A transcript that nobody appends to has no open turn. -/
theorem Restorable.settles {live : Bool} {events : List RunEvent} (h : Restorable live events) :
    openTurn? (events.map (·.event)) = none := by
  by_contra hn
  obtain ⟨turn,hturn⟩ := Option.ne_none_iff_exists'.mp hn
  rw [openTurn?_eq_some] at hturn
  rcases h.settled with hphase | ⟨_,hphase⟩
  · cases phase_of_open hphase hturn
  · cases phase_of_open hphase hturn

theorem Recovered.rowsAt (h : Recovered s) (n r : ℕ) : s.rowsAt n r = s.tables.events r := by
  rw [Manager.rowsAt, h.ops, List.take_nil]
  rfl

theorem Recovered.final (h : Recovered s) : s.final = s.tables := by
  rw [Manager.final, h.ops]
  rfl

theorem Recovered.written (h : Recovered s) (r : ℕ) : s.written r = s.tables.events r := by
  rw [Manager.written, h.ops]
  rfl

theorem Recovered.told (h : Recovered s) (r : ℕ) : Told s r := by
  have hsaved : ∀ j, (s.threads j).unsaved ≠ some r := by
    intro j
    rw [h.idle j]
    simp [Thread.unsaved]
  by_cases hr : r ∈ s.order
  · obtain ⟨hrestored,hread⟩ := h.restored r hr
    refine .recorded ⟨hrestored.store,⟨?_,fun hyd => ?_,?_,fun hopen => ?_⟩,?_,fun _ n _ => ?_,
      fun _ j goal events hj => ?_⟩ hsaved fun j => ?_
    · rw [h.final, h.ids]
      exact h.rows r hr
    · cases hyd.symm.trans hrestored.hydrated
    · rw [h.final, h.ids]
      exact hread.numbered
    · rw [h.final, h.ids, hread.settles] at hopen
      cases hopen
    · rw [h.final, h.written]
    · left
      rw [h.rowsAt, h.written]
    · rw [h.idle j] at hj
      cases hj
    · rw [h.idle j]
      exact List.not_mem_nil
  · obtain ⟨hrow,hrows⟩ := h.gone r hr
    refine .gone ⟨by rw [h.final, hrow],by rw [h.final, hrows],fun _ => ?_⟩ hsaved ?_ fun _ => ?_
    · rw [h.written, hrows]
      exact List.nil_prefix
    · rw [h.inert r hr]
    · rw [h.written, hrows]

theorem Recovered.history (h : Recovered s) : HistoryInv s where
  open_ := h.open_
  hasStore := h.hasStore
  attached r hr := by
    by_contra hn
    rw [h.inert r hn] at hr
    cases hr
  told := h.told
  past r := by
    have hnum : From RunEvent.seq 0 (s.written r) := by
      rw [h.written]
      by_cases hr : r ∈ s.order
      · exact (h.restored r hr).2.numbered
      · rw [(h.gone r hr).2]
        trivial
    refine ⟨hnum,fun n _ => ?_,fun n _ sum _ hopen => ?_⟩
    · rw [h.rowsAt, h.written]
    · rw [h.rowsAt] at hopen
      by_cases hr : r ∈ s.order
      · rw [(h.restored r hr).2.settles] at hopen
        cases hopen
      · rw [(h.gone r hr).2] at hopen
        cases hopen

variable {bindRootCauseEvidence : List RunEvent → Verdict → Verdict} {t : Manager} {as : List Act}

/-- In every state that honest steps reach, the store is told what the runs are. -/
theorem reached_history (h : Recovered s)
    (hm : Meets (Manager.step bindRootCauseEvidence) HonestAt s as)
    (hr : run (Manager.step bindRootCauseEvidence) s as = some t) :
    ManagerInv t ∧ HistoryInv t :=
  meets_invariant (I := fun s => ManagerInv s ∧ HistoryInv s)
    (fun _ _ _ hs honest ht => ⟨(step_kept hs.1 ht).1,step_history hs.2 hs.1 honest ht⟩)
    ⟨h.toLoaded.inv,h.history⟩ hm hr

end Recovered

/-- What a restart makes of the first `k` operations: `m` is the manager, and `T` the tables once
it has written. -/
structure Survives (t : Manager) (k : ℕ) (expired : ℕ → Bool) (cap shown : ℕ) (m : Manager)
    (T : Tables) : Prop where
  log : ∀ r ∈ m.order, T.loadEvents r = some (t.rowsAt k r) ∨
    ∃ e, e.isTerminal = true ∧
      T.loadEvents r = some (t.rowsAt k r++[⟨(t.rowsAt k r).length+1,e⟩])
  start : ∀ r, t.rowsAt k r <+: t.written r ∧
    ((t.runs r).hydrated = true → t.written r <+: (t.runs r).events)
  ended : ∀ r ∈ m.order, (m.runs r).status ≠ .running ∧
    ∃ sum, T.runs r = some sum ∧ sum.status ≠ .running
  /-- A run whose last turn had ended, and of which nothing was left in the queue. -/
  restored : ∀ r ∈ m.order, (t.runs r).status ≠ .running → (∀ op ∈ t.ops.drop k, ¬ op.about r) →
    T.loadEvents r = some (t.written r) ∧
      ((t.runs r).hydrated = true → t.written r = (t.runs r).events) ∧
      (m.runs r).summaryLocked = (t.runs r).summaryLocked.forget
  there : shown ≤ cap → ∀ r ∈ t.order, (t.runs r).store = true → (t.runs r).status ≠ .running →
    (∀ op ∈ t.ops.drop k, ¬ op.about r) → r ∉ t.locked → expired r = false → r ∈ m.order
  unknown : ∀ r ∈ m.order, ∀ turn, OpenTurn ((t.rowsAt k r).map (·.event)) turn →
    turn.apply = true → ∃ e, e.applyOutcome = some .unknown ∧
      T.loadEvents r = some (t.rowsAt k r++[⟨(t.rowsAt k r).length+1,e⟩])
  dropped : k = t.ops.length → ∀ r ∉ t.order, r ∉ m.order

section Rows

variable {t : Tables} {rows : List RunSummary} {ops : List StoreOp}

/-- The rows of which the run is left. -/
theorem LoadRuns.filter {u : Tables} (h : LoadRuns t rows) (p : ℕ → Bool)
    (hu : ∀ id, u.runs id = if p id then t.runs id else none) :
    LoadRuns u (rows.filter fun sum => p sum.id) where
  nodup := (h.nodup.sublist (List.filter_sublist.map _) :)
  rows sum := by
    rw [List.mem_filter, h.rows, hu]
    cases p sum.id <;> simp

theorem LoadRuns.upsert (h : LoadRuns t rows) (sum : RunSummary) :
    LoadRuns (t.upsertRun sum) (sum::rows.filter fun row => decide (row.id ≠ sum.id)) where
  nodup := by
    rw [List.map_cons, List.nodup_cons]
    refine ⟨fun hin => ?_,h.nodup.sublist (List.filter_sublist.map _)⟩
    obtain ⟨row,hrow,hid⟩ := List.mem_map.mp hin
    exact of_decide_eq_true (List.mem_filter.mp hrow).2 hid
  rows row := by
    rw [List.mem_cons, List.mem_filter, h.rows, upsertRun_runs]
    by_cases hid : row.id = sum.id
    · rw [if_pos hid]
      constructor
      · rintro (rfl | ⟨_,hne⟩)
        · rfl
        · exact absurd hid (of_decide_eq_true hne)
      · exact fun he => .inl (Option.some.inj he).symm
    · rw [if_neg hid]
      constructor
      · rintro (rfl | ⟨hrow,_⟩)
        · exact absurd rfl hid
        · exact hrow
      · exact fun hrow => .inr ⟨hrow,decide_eq_true hid⟩

/-- Whatever the writer does, there is a list of the rows. -/
theorem LoadRuns.apply (h : LoadRuns t rows) (op : StoreOp) : ∃ more, LoadRuns (t.apply op) more := by
  cases op with
  | saveRun sum => exact ⟨_,h.upsert sum⟩
  | appendEvents runID events summary =>
    cases summary with
    | none => exact ⟨rows,h.nodup,h.rows⟩
    | some sum =>
      have happended : LoadRuns { t with
          events := Function.update t.events runID (events.foldl appendRow (t.events runID)) }
          rows := ⟨h.nodup,h.rows⟩
      exact ⟨_,happended.upsert sum⟩
  | deleteRun id =>
    refine ⟨_,h.filter (fun q => decide (q ≠ id)) fun q => ?_⟩
    show Function.update t.runs id none q = _
    by_cases hq : q = id
    · simp [hq]
    · simp [hq]
  | clearTerminal commits =>
    cases commits with
    | false => exact ⟨rows,h⟩
    | true => exact ⟨_,h.filter t.isRunning fun _ => rfl⟩

theorem LoadRuns.applyAll (h : LoadRuns t rows) (ops : List StoreOp) :
    ∃ more, LoadRuns (t.applyAll ops) more := by
  induction ops generalizing t rows with
  | nil => exact ⟨rows,h⟩
  | cons op ops ih =>
    obtain ⟨more,hmore⟩ := h.apply op
    exact ih hmore

theorem loadRuns_empty : LoadRuns {} [] := ⟨List.nodup_nil,fun _ => ⟨(by simp),(by simp)⟩⟩

end Rows

section Restarts

variable {s t : Manager} {k r : ℕ} {sum : RunSummary}

/-- What is left in the queue is not about the run. -/
theorem final_of_drained (h : ∀ op ∈ t.ops.drop k, ¬ op.about r) :
    t.final.runs r = (t.tablesAt k).runs r ∧ t.final.events r = t.rowsAt k r := by
  have hsplit : t.final = (t.tablesAt k).applyAll (t.ops.drop k) := by
    rw [Manager.tablesAt, ← applyAll_append, List.take_append_drop]
    rfl
  rw [hsplit]
  exact applyAll_other (t.tablesAt k) h

theorem from_start {a b : List RunEvent} (h : From RunEvent.seq 0 b) (hab : a <+: b) :
    From RunEvent.seq 0 a := by
  obtain ⟨rest,rfl⟩ := hab
  exact (from_append.mp h).1

theorem loadEvents_some {T : Tables} {events : List RunEvent} (hevents : T.events r = events)
    (hnum : From RunEvent.seq 0 events) : T.loadEvents r = some events := by
  rw [Tables.loadEvents, hevents, if_pos hnum]

/-- The marker that the restart looks for is that of the open turn. -/
theorem lastOpenTurn_open {events : List RunEvent} {turn : StreamEvent}
    (h : OpenTurn (events.map (·.event)) turn) : lastOpenTurnWasApply events = turn.apply := by
  rw [← openTurn?_eq_some, openTurn?, ← List.map_reverse, List.find?_map,
    Option.filter_eq_some_iff, Option.map_eq_some_iff] at h
  obtain ⟨⟨e,hfind,rfl⟩,hturn⟩ := h
  have hfind' : events.reverse.find? (fun e => e.event.isTurn || e.event.isTerminal) = some e :=
    hfind
  rw [lastOpenTurnWasApply, hfind']
  show (e.event.isTurn && e.event.apply) = e.event.apply
  rw [hturn, Bool.true_and]

theorem restartInterruptionEvent_terminal (events : Option (List RunEvent)) :
    (restartInterruptionEvent events).isTerminal = true := by
  unfold restartInterruptionEvent
  split
  · rfl
  · split <;> rfl

theorem repaired_events (sum : RunSummary) (events : List RunEvent) :
    (repaired sum events).2 = events ∨ ∃ e, e.isTerminal = true ∧
      (repaired sum events).2 = events++[⟨events.length+1,e⟩] := by
  unfold repaired
  split_ifs
  · exact .inr ⟨_,restartInterruptionEvent_terminal _,rfl⟩
  · exact .inl rfl

theorem repaired_status (sum : RunSummary) (events : List RunEvent) :
    (repaired sum events).1.status ≠ .running := by
  unfold repaired
  split_ifs with hs
  · show (restoredRun sum).status ≠ _
    rw [restoredRun, if_pos hs]
    simp
  · exact hs

/-- A run that was not running is what its row says, but for its session. -/
theorem restoredRun_summary (h : sum.status ≠ .running) :
    (restoredRun sum).summaryLocked = sum.forget := by
  unfold restoredRun summaryLocked RunSummary.forget
  rw [if_neg h]
  split <;> rfl

end Restarts

section Crashes

variable {bindRootCauseEvidence : List RunEvent → Verdict → Verdict} {s t : Manager}
  {as : List Act} {expired : ℕ → Bool} {rows : List RunSummary} {k r : ℕ}

/-- A run that is not running, and of which nothing is left in the queue, has its row. -/
theorem Recorded.drained (hrec : Recorded t r) (inv : ManagerInv t)
    (hdrained : ∀ op ∈ t.ops.drop k, ¬ op.about r) :
    ∃ sum, (t.tablesAt k).runs r = some sum ∧ sum.id = r ∧ sum.status = (t.runs r).status ∧
      sum.forget = (t.runs r).summaryLocked.forget ∧ t.rowsAt k r = t.written r := by
  obtain ⟨hrow,hrows⟩ := final_of_drained hdrained
  obtain ⟨sum,hsum,hforget⟩ := hrec.shown.row
  have hid := inv.ids r
  rw [hid, hrow] at hsum
  refine ⟨sum,hsum,?_,?_,hforget,hrows.symm.trans hrec.written⟩
  · rw [← forget_id, hforget, forget_id]
    exact hid
  · rw [← forget_status, hforget, forget_status]
    rfl

/-- What holds of every restart after a crash that keeps the first `k` operations. -/
theorem restart_survives (h : HistoryInv t) (inv : ManagerInv t) (hk : k ≤ t.ops.length)
    (hload : LoadRuns (t.tablesAt k) rows) (made cap : ℕ) :
    Survives t k expired cap rows.length
      ((Manager.begun (t.tablesAt k) made cap).loadPersisted expired rows)
      ((t.tablesAt k).applyAll
        ((Manager.begun (t.tablesAt k) made cap).loadPersisted expired rows).ops) := by
  have hnum : ∀ id, From RunEvent.seq 0 ((t.tablesAt k).events id) := fun id =>
    from_start (h.past id).numbered ((h.past id).rows k hk)
  have hspec := @loadPersisted_spec expired _ _ hload hnum made cap
  generalize hm : (Manager.begun (t.tablesAt k) made cap).loadPersisted expired rows = m at hspec
  have hone : ∀ (rows : List RunEvent) (e : StreamEvent), From RunEvent.seq 0 rows →
      From RunEvent.seq 0 (rows++[⟨rows.length+1,e⟩]) := by
    intro rows e hrows
    refine from_append.mpr ⟨hrows,?_⟩
    rw [Nat.zero_add]
    exact ⟨rfl,trivial⟩
  refine
    { log := fun r hr => ?_
      start := fun r => ⟨(h.past r).rows k hk,(h.told r).written_events (inv.ids r)⟩
      ended := fun r hr => ?_
      restored := fun r hr hs hdrained => ?_
      there := fun hcap r _ hstore hs hdrained hlocked hyoung => ?_
      unknown := fun r hr turn hopen happly => ?_
      dropped := fun hall r hr hin => ?_ }
  · obtain ⟨sum,rfl,_,mended⟩ := hspec r hr
    rcases repaired_events sum (t.rowsAt k sum.id) with hsame | ⟨e,he,hmore⟩
    · exact .inl (loadEvents_some (mended.events.trans hsame) (hnum _))
    · exact .inr ⟨e,he,loadEvents_some (mended.events.trans hmore) (hone _ e (hnum _))⟩
  · obtain ⟨sum,rfl,_,mended⟩ := hspec r hr
    refine ⟨?_,_,mended.row,repaired_status _ _⟩
    rw [mended.run, restoredRun]
    by_cases hs : sum.status = .running
    · rw [if_pos hs]
      simp
    · rw [if_neg hs]
      exact hs
  · obtain ⟨sum,rfl,hrow,mended⟩ := hspec r hr
    obtain ⟨hfinal,_⟩ := final_of_drained hdrained
    have hrec : Recorded t sum.id := by
      cases h.told sum.id with
      | fresh f _ _ => cases (f.row.symm.trans hfinal).trans hrow
      | recorded hrec _ _ => exact hrec
      | erased g _ _ _ => cases (g.row.symm.trans hfinal).trans hrow
      | gone g _ _ _ => cases (g.row.symm.trans hfinal).trans hrow
    obtain ⟨row,hrow',_,hstatus,hforget,hrows⟩ := hrec.drained inv hdrained
    obtain rfl := Option.some.inj (hrow.symm.trans hrow')
    have hended : sum.status ≠ .running := by
      rw [hstatus]
      exact hs
    have hsame : (repaired sum (t.rowsAt k sum.id)).2 = t.rowsAt k sum.id := by
      rw [repaired, if_neg hended]
    refine ⟨?_,fun hyd => ?_,?_⟩
    · rw [← hrows]
      exact loadEvents_some (mended.events.trans hsame) (hnum _)
    · have hlog := hrec.shown.log hyd
      rw [inv.ids, hrec.written] at hlog
      exact hlog
    · rw [mended.run, restoredRun_summary hended, hforget]
  · have hrec : Recorded t r := by
      cases h.told r with
      | fresh f _ _ => exact absurd f.status hs
      | recorded hrec _ _ => exact hrec
      | erased _ _ _ thread =>
        obtain ⟨i,hi⟩ := thread
        exact absurd hi (kept_of_unlocked inv hlocked i)
      | gone _ _ store _ => cases store.symm.trans hstore
    obtain ⟨sum,hrow,hid,_⟩ := hrec.drained inv hdrained
    rw [← hm]
    exact loadPersisted_shows hload hnum hcap hrow hid hyoung
  · obtain ⟨sum,rfl,hrow,mended⟩ := hspec r hr
    have hrunning : sum.status = .running := by
      refine (h.past sum.id).running k hk sum hrow ?_
      rw [openTurn?_eq_some.mpr hopen]
      rfl
    refine ⟨restartInterruptionEvent (some (t.rowsAt k sum.id)),?_,?_⟩
    · have hlast := lastOpenTurn_open hopen
      rw [restartInterruptionEvent, hlast, happly]
      rfl
    · refine loadEvents_some (mended.events.trans ?_) (hone _ _ (hnum _))
      rw [repaired, if_pos hrunning]
      rfl
  · obtain ⟨sum,rfl,hrow,_⟩ := hspec r hin
    have hgone : t.final.runs sum.id = none := by
      cases h.told sum.id with
      | fresh f _ _ => exact absurd (h.attached _ f.store) hr
      | recorded hrec _ _ => exact absurd (h.attached _ hrec.store) hr
      | erased _ _ store _ => exact absurd (h.attached _ store) hr
      | gone g _ _ _ => exact g.row
    rw [hall, tablesAt_length, hgone] at hrow
    cases hrow

end Crashes

/-- An investigation by Cursor that runs to its end. -/
def cursorRun : List Act :=
  [.start 0 { kind := "Deployment", name := "web", agent := "cursor-agent" }, .insert 0,
    .summarize 0, .saveRun 0, .launch 0,
    .agentReturns 0 { verdict := { summary := "Wrong image" }, sessionID := "s1" } none .unknown "",
    .finish 0]

end Radar.Ai
