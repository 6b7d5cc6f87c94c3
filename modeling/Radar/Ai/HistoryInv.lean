import Radar.Ai.History

/-!
# The history that the store is told

What the queue has been given of every run, whatever the order of the steps:
each prefix of the queue leaves a prefix of the log, and all of it leaves what
the run is in memory, unless the run is not saved yet or dropped.
-/

set_option autoImplicit false

namespace Radar.Ai

open Radar.Numbered
open Radar.Ai.Run

/-- The tables once the first `n` operations are applied. -/
def Manager.tablesAt (s : Manager) (n : ℕ) : Tables := s.tables.applyAll (s.ops.take n)

/-- The tables once the queue is empty. -/
def Manager.final (s : Manager) : Tables := s.tables.applyAll s.ops

/-- All that was ever appended to the log of a run, whether or not it was deleted since. -/
def Manager.written (s : Manager) (r : ℕ) : List RunEvent :=
  (s.ops.flatMap (·.appended r)).foldl appendRow (s.tables.events r)

/-- The run that Start has inserted and not saved yet. -/
def Thread.unsaved : Thread → Option ℕ
  | .inserted r => some r
  | .summarized r _ => some r
  | _ => none

/-- The runs that ClearHistory has deleted from the store. -/
def Thread.erases : Thread → List ℕ
  | .deleting _ dropped _ true => dropped
  | _ => []

/-- Start has not saved the run yet. -/
structure Fresh (s : Manager) (r : ℕ) : Prop where
  store : (s.runs r).store = true
  status : (s.runs r).status = .running
  hydrated : (s.runs r).hydrated = true
  events : (s.runs r).events = []
  row : s.final.runs r = none
  rows : s.final.events r = []
  written : s.written r = []

/-- What may be installed as the log of a run. -/
def Readable (s : Manager) (r : ℕ) (events : List RunEvent) : Prop :=
  events = s.written r ∨
    (s.runs r).live = false ∧ phase (events.map (·.event)) = some .between

/-- The store is told what the run is. -/
structure Recorded (s : Manager) (r : ℕ) : Prop where
  store : (s.runs r).store = true
  shown : Shown s.final (s.runs r)
  written : s.final.events r = s.written r
  rows : (s.runs r).hydrated = false → ∀ n ≤ s.ops.length, Readable s r (s.rowsAt n r)
  loaded : (s.runs r).hydrated = false → ∀ i goal events,
    s.threads i = .loaded r goal events → Readable s r events

/-- Nothing is left of the run in the store. -/
structure Removed (s : Manager) (r : ℕ) : Prop where
  row : s.final.runs r = none
  rows : s.final.events r = []
  written : (s.runs r).hydrated = true → s.written r <+: (s.runs r).events

inductive Told (s : Manager) (r : ℕ) : Prop
  | fresh (h : Fresh s r) (thread : ∃ i, (s.threads i).unsaved = some r)
      (summary : ∀ i sum, s.threads i = .summarized r sum → sum = (s.runs r).summaryLocked)
  | recorded (h : Recorded s r) (saved : ∀ i, (s.threads i).unsaved ≠ some r)
      (kept : ∀ i, r ∉ (s.threads i).erases)
  | erased (h : Removed s r) (saved : ∀ i, (s.threads i).unsaved ≠ some r)
      (store : (s.runs r).store = true) (thread : ∃ i, r ∈ (s.threads i).erases)
  | gone (h : Removed s r) (saved : ∀ i, (s.threads i).unsaved ≠ some r)
      (store : (s.runs r).store = false) (unborn : s.made ≤ r → s.written r = [])

/-- What every prefix of the queue leaves of a run. -/
structure Past (s : Manager) (r : ℕ) : Prop where
  numbered : From RunEvent.seq 0 (s.written r)
  rows : ∀ n ≤ s.ops.length, s.rowsAt n r <+: s.written r
  /-- Only the row of a run that is running has a turn that is open. -/
  running : ∀ n ≤ s.ops.length, ∀ sum, (s.tablesAt n).runs r = some sum →
    (openTurn? ((s.rowsAt n r).map (·.event))).isSome = true → sum.status = .running

structure HistoryInv (s : Manager) : Prop where
  open_ : s.storeClosed = false
  hasStore : s.hasStore = true
  attached : ∀ r, (s.runs r).store = true → r ∈ s.order
  told : ∀ r, Told s r
  past : ∀ r, Past s r

/-- A step that leaves a run, its rows and its threads alone. -/
structure Quiet (s t : Manager) (r : ℕ) : Prop where
  core : (t.runs r).core = (s.runs r).core
  made : s.made ≤ t.made
  tables : t.tables = s.tables
  ops : ∃ more, t.ops = s.ops++more ∧ ∀ op ∈ more, ¬ op.about r
  unsaved : ∀ i, (t.threads i).unsaved = some r ↔ (s.threads i).unsaved = some r
  summary : ∀ i sum, t.threads i = .summarized r sum →
    s.threads i = .summarized r sum ∨ sum = (s.runs r).summaryLocked
  erases : ∀ i, r ∈ (t.threads i).erases ↔ r ∈ (s.threads i).erases
  loaded : ∀ i goal events, t.threads i = .loaded r goal events →
    s.threads i = .loaded r goal events ∨
      (Recorded s r → (s.runs r).hydrated = false → Readable s r events)

section Frames

variable {s t u : Manager} {r : ℕ} {more : List StoreOp}

theorem tablesAt_length (s : Manager) : s.tablesAt s.ops.length = s.final := by
  rw [Manager.tablesAt, List.take_length]
  rfl

theorem final_append (htables : t.tables = s.tables) (hops : t.ops = s.ops++more) :
    t.final = s.final.applyAll more := by
  rw [Manager.final, htables, hops, applyAll_append]
  rfl

theorem written_append (htables : t.tables = s.tables) (hops : t.ops = s.ops++more) (r : ℕ) :
    t.written r = (more.flatMap (·.appended r)).foldl appendRow (s.written r) := by
  rw [Manager.written, htables, hops, List.flatMap_append, List.foldl_append]
  rfl

/-- What is read of an earlier moment is what was read before. -/
theorem tablesAt_append (htables : t.tables = s.tables) (hops : t.ops = s.ops++more) {n : ℕ}
    (hn : n ≤ s.ops.length) : t.tablesAt n = s.tablesAt n := by
  rw [Manager.tablesAt, htables, hops, List.take_append_of_le_length hn]
  rfl

theorem tablesAt_aside (htables : t.tables = s.tables) (hops : t.ops = s.ops++more)
    (hmore : ∀ op ∈ more, ¬ op.about r) (n : ℕ) :
    ∃ m ≤ s.ops.length, (t.tablesAt n).runs r = (s.tablesAt m).runs r ∧
      t.rowsAt n r = s.rowsAt m r := by
  by_cases hn : n ≤ s.ops.length
  · have hsame := tablesAt_append htables hops hn
    exact ⟨n,hn,by rw [hsame],congrArg (fun t => Tables.events t r) hsame⟩
  · refine ⟨s.ops.length,Nat.le_refl _,?_⟩
    have hthere : t.tablesAt n = s.final.applyAll (more.take (n-s.ops.length)) := by
      rw [Manager.tablesAt, htables, hops, List.take_append, List.take_of_length_le (by omega),
        applyAll_append]
      rfl
    have haside := applyAll_other s.final fun op (hop : op ∈ more.take (n-s.ops.length)) =>
      hmore op (List.mem_of_mem_take hop)
    refine ⟨?_,?_⟩
    · rw [hthere, tablesAt_length]
      exact haside.1
    · show (t.tablesAt n).events r = (s.tablesAt s.ops.length).events r
      rw [hthere, tablesAt_length]
      exact haside.2

theorem written_aside (htables : t.tables = s.tables) (hops : t.ops = s.ops++more)
    (hmore : ∀ op ∈ more, ¬ op.about r) : t.written r = s.written r := by
  have hnone : more.flatMap (·.appended r) = [] :=
    List.flatMap_eq_nil_iff.mpr fun op hop => appended_aside (hmore op hop)
  rw [written_append htables hops, hnone]
  rfl

theorem final_aside (htables : t.tables = s.tables) (hops : t.ops = s.ops++more)
    (hmore : ∀ op ∈ more, ¬ op.about r) :
    t.final.runs r = s.final.runs r ∧ t.final.events r = s.final.events r := by
  rw [final_append htables hops]
  exact applyAll_other s.final hmore

theorem Quiet.refl (s : Manager) (r : ℕ) : Quiet s s r where
  core := rfl
  made := Nat.le_refl _
  tables := rfl
  ops := ⟨[],(List.append_nil _).symm,(by simp)⟩
  unsaved _ := Iff.rfl
  summary _ _ h := .inl h
  erases _ := Iff.rfl
  loaded _ _ _ h := .inl h

theorem Readable.quiet (q : Quiet s t r) {events : List RunEvent} (h : Readable s r events) :
    Readable t r events := by
  obtain ⟨more,hops,hmore⟩ := q.ops
  unfold Readable
  rw [written_aside q.tables hops hmore, core_live q.core]
  exact h

theorem Shown.quiet {a b : Run} {t u : Tables} (h : Shown t a) (hcore : b.core = a.core)
    (hruns : u.runs a.id = t.runs a.id) (hevents : u.events a.id = t.events a.id) :
    Shown u b := by
  have hid : b.id = a.id := core_id hcore
  refine ⟨?_,fun hyd => ?_,?_,fun hopen => ?_⟩
  · rw [hid, hruns, core_summary hcore]
    exact h.row
  · rw [hid, hevents, core_events hcore]
    exact h.log ((core_hydrated hcore).symm.trans hyd)
  · rw [hid, hevents]
    exact h.numbered
  · rw [hid, hevents] at hopen
    rw [core_status hcore]
    exact h.running hopen

theorem Removed.quiet (h : Removed s r) (q : Quiet s t r) : Removed t r := by
  obtain ⟨more,hops,hmore⟩ := q.ops
  obtain ⟨hruns,hevents⟩ := final_aside q.tables hops hmore
  refine ⟨hruns.trans h.row,hevents.trans h.rows,?_⟩
  rw [core_hydrated q.core, core_events q.core, written_aside q.tables hops hmore]
  exact h.written

theorem Recorded.quiet (h : Recorded s r) (q : Quiet s t r) (hid : (s.runs r).id = r) :
    Recorded t r := by
  obtain ⟨more,hops,hmore⟩ := q.ops
  obtain ⟨hruns,hevents⟩ := final_aside q.tables hops hmore
  have hwritten := written_aside q.tables hops hmore
  have hhyd : (t.runs r).hydrated = (s.runs r).hydrated := core_hydrated q.core
  refine ⟨(core_store q.core).trans h.store,?_,?_,fun hyd n _ => ?_,fun hyd i goal events hi => ?_⟩
  · exact h.shown.quiet q.core (by rw [hid]; exact hruns) (by rw [hid]; exact hevents)
  · rw [hevents, hwritten]
    exact h.written
  · obtain ⟨m,hm,_,hrows⟩ := tablesAt_aside q.tables hops hmore n
    rw [hrows]
    exact (h.rows (hhyd.symm.trans hyd) m hm).quiet q
  · rcases q.loaded i goal events hi with hs | hread
    · exact (h.loaded (hhyd.symm.trans hyd) i goal events hs).quiet q
    · exact (hread h (hhyd.symm.trans hyd)).quiet q

theorem Fresh.quiet (h : Fresh s r) (q : Quiet s t r) : Fresh t r := by
  obtain ⟨more,hops,hmore⟩ := q.ops
  obtain ⟨hruns,hevents⟩ := final_aside q.tables hops hmore
  exact
    { store := (core_store q.core).trans h.store
      status := (core_status q.core).trans h.status
      hydrated := (core_hydrated q.core).trans h.hydrated
      events := (core_events q.core).trans h.events
      row := hruns.trans h.row
      rows := hevents.trans h.rows
      written := (written_aside q.tables hops hmore).trans h.written }

theorem Told.quiet (h : Told s r) (q : Quiet s t r) (hid : (s.runs r).id = r) : Told t r := by
  obtain ⟨more,hops,hmore⟩ := q.ops
  have hsaved : (∀ i, (s.threads i).unsaved ≠ some r) → ∀ i, (t.threads i).unsaved ≠ some r :=
    fun h i hi => h i ((q.unsaved i).mp hi)
  cases h with
  | fresh h thread summary =>
    obtain ⟨i,hi⟩ := thread
    refine .fresh (h.quiet q) ⟨i,(q.unsaved i).mpr hi⟩ fun j sum hj => ?_
    rw [core_summary q.core]
    rcases q.summary j sum hj with hs | hs
    · exact summary j sum hs
    · exact hs
  | recorded h saved kept =>
    exact .recorded (h.quiet q hid) (hsaved saved) fun i hi => kept i ((q.erases i).mp hi)
  | erased h saved store thread =>
    obtain ⟨i,hi⟩ := thread
    exact .erased (h.quiet q) (hsaved saved) ((core_store q.core).trans store)
      ⟨i,(q.erases i).mpr hi⟩
  | gone h saved store unborn =>
    refine .gone (h.quiet q) (hsaved saved) ((core_store q.core).trans store) fun hmade => ?_
    rw [written_aside q.tables hops hmore]
    exact unborn (Nat.le_trans q.made hmade)

theorem Past.quiet (h : Past s r) (q : Quiet s t r) : Past t r := by
  obtain ⟨more,hops,hmore⟩ := q.ops
  have hwritten := written_aside q.tables hops hmore
  refine ⟨?_,fun n _ => ?_,fun n _ sum hsum hopen => ?_⟩
  · rw [hwritten]
    exact h.numbered
  · obtain ⟨m,hm,_,hrows⟩ := tablesAt_aside q.tables hops hmore n
    rw [hwritten, hrows]
    exact h.rows m hm
  · obtain ⟨m,hm,hrow,hrows⟩ := tablesAt_aside q.tables hops hmore n
    rw [hrow] at hsum
    rw [hrows] at hopen
    exact h.running m hm sum hsum hopen

/-- A step that is quiet for all. -/
theorem HistoryInv.quiet (h : HistoryInv s) (inv : ManagerInv s) (q : ∀ r, Quiet s t r)
    (hopen : t.storeClosed = false) (hstore : t.hasStore = true)
    (horder : ∀ r ∈ s.order, r ∈ t.order) : HistoryInv t where
  open_ := hopen
  hasStore := hstore
  attached r hr := horder r (h.attached r ((core_store (q r).core).symm.trans hr))
  told r := (h.told r).quiet (q r) (inv.ids r)
  past r := (h.past r).quiet (q r)

/-- A step that is about one run. -/
theorem HistoryInv.one {q : ℕ} (h : HistoryInv s) (inv : ManagerInv s)
    (others : ∀ r ≠ q, Quiet s t r) (told : Told t q) (past : Past t q)
    (hopen : t.storeClosed = false) (hstore : t.hasStore = true)
    (horder : ∀ r ≠ q, r ∈ s.order → r ∈ t.order)
    (mine : (t.runs q).store = true → q ∈ t.order) : HistoryInv t where
  open_ := hopen
  hasStore := hstore
  attached r hr := by
    by_cases hq : r = q
    · rw [hq] at hr ⊢
      exact mine hr
    · exact horder r hq (h.attached r ((core_store (others r hq).core).symm.trans hr))
  told r := by
    by_cases hq : r = q
    · rw [hq]
      exact told
    · exact (h.told r).quiet (others r hq) (inv.ids r)
  past r := by
    by_cases hq : r = q
    · rw [hq]
      exact past
    · exact (h.past r).quiet (others r hq)

end Frames

/-- A thread that goes on as one that reads and writes nothing of the history. -/
structure Passes (u v : Thread) : Prop where
  unsaved : u.unsaved = none
  erases : u.erases = []
  unsavedThen : v.unsaved = none
  erasesThen : v.erases = []
  loadedThen : ∀ r goal events, v ≠ .loaded r goal events

section Sections

variable {s t : Manager} {i q r : ℕ} {u v : Thread} {more : List StoreOp}
  {done : Run × List StoreOp}

/-- One thread goes on, and other runs, or nothing, are written. -/
theorem quiet_thread (hu : s.threads i = u) (hthreads : t.threads = Function.update s.threads i v)
    (hcore : (t.runs r).core = (s.runs r).core) (hmade : s.made ≤ t.made)
    (htables : t.tables = s.tables) (hops : t.ops = s.ops++more)
    (hmore : ∀ op ∈ more, ¬ op.about r) (hsaved : v.unsaved = some r ↔ u.unsaved = some r)
    (hsum : ∀ sum, v = .summarized r sum → sum = (s.runs r).summaryLocked)
    (herases : r ∈ v.erases ↔ r ∈ u.erases)
    (hload : ∀ goal events, v = .loaded r goal events → Recorded s r →
      (s.runs r).hydrated = false → Readable s r events) : Quiet s t r where
  core := hcore
  made := hmade
  tables := htables
  ops := ⟨more,hops,hmore⟩
  unsaved j := by
    rw [hthreads]
    by_cases hj : j = i
    · rw [hj, Function.update_self, hu]
      exact hsaved
    · rw [Function.update_of_ne hj]
  summary j sum hj := by
    rw [hthreads] at hj
    by_cases hji : j = i
    · rw [hji, Function.update_self] at hj
      exact .inr (hsum sum hj)
    · rw [Function.update_of_ne hji] at hj
      exact .inl hj
  erases j := by
    rw [hthreads]
    by_cases hj : j = i
    · rw [hj, Function.update_self, hu]
      exact herases
    · rw [Function.update_of_ne hj]
  loaded j goal events hj := by
    rw [hthreads] at hj
    by_cases hji : j = i
    · rw [hji, Function.update_self] at hj
      exact .inr (hload goal events hj)
    · rw [Function.update_of_ne hji] at hj
      exact .inl hj

theorem Passes.quiet (p : Passes u v) (hu : s.threads i = u)
    (hthreads : t.threads = Function.update s.threads i v)
    (hcore : (t.runs r).core = (s.runs r).core) (hmade : s.made ≤ t.made)
    (htables : t.tables = s.tables) (hops : t.ops = s.ops++more)
    (hmore : ∀ op ∈ more, ¬ op.about r) : Quiet s t r := by
  refine quiet_thread hu hthreads hcore hmade htables hops hmore ?_ (fun sum hsum => ?_) ?_
    fun goal events hload => absurd hload (p.loadedThen r goal events)
  · rw [p.unsaved, p.unsavedThen]
  · have hnone := p.unsavedThen
    rw [hsum] at hnone
    nomatch hnone
  · rw [p.erases, p.erasesThen]

/-- What the store has at last of a run. -/
theorem Told.last (h : Told s r) (hid : (s.runs r).id = r) :
    s.final.events r <+: s.written r ∧ ∀ sum, s.final.runs r = some sum →
      (openTurn? ((s.final.events r).map (·.event))).isSome = true → sum.status = .running := by
  cases h with
  | fresh h _ _ =>
    rw [h.rows, h.row]
    exact ⟨List.nil_prefix,nofun⟩
  | recorded h _ _ =>
    refine ⟨by rw [h.written],fun sum hsum hopen => ?_⟩
    obtain ⟨row,hrow,hforget⟩ := h.shown.row
    have hrunning := h.shown.running
    rw [hid] at hrow hrunning
    obtain rfl := Option.some.inj (hsum.symm.trans hrow)
    rw [← forget_status, hforget, forget_status]
    exact hrunning hopen
  | erased h _ _ _ =>
    rw [h.rows, h.row]
    exact ⟨List.nil_prefix,nofun⟩
  | gone h _ _ _ =>
    rw [h.rows, h.row]
    exact ⟨List.nil_prefix,nofun⟩

/-- One more operation is one more moment, the last. -/
theorem Past.step (h : Past s r) (told : Told t r) (hid : (t.runs r).id = r)
    (htables : t.tables = s.tables) (hops : t.ops = s.ops++more) (hfew : more.length ≤ 1)
    (hnum : From RunEvent.seq 0 (t.written r)) (hgrows : s.written r <+: t.written r) :
    Past t r := by
  have hcases : ∀ n ≤ t.ops.length, n ≤ s.ops.length ∧ t.tablesAt n = s.tablesAt n ∨
      t.tablesAt n = t.final := by
    intro n hn
    by_cases hold : n ≤ s.ops.length
    · exact .inl ⟨hold,tablesAt_append htables hops hold⟩
    · right
      have hlength : t.ops.length = s.ops.length+more.length := by rw [hops, List.length_append]
      have hlast : n = t.ops.length := by omega
      rw [hlast, tablesAt_length]
  obtain ⟨hrows,hrunning⟩ := told.last hid
  refine ⟨hnum,fun n hn => ?_,fun n hn sum hsum hopen => ?_⟩
  · show (t.tablesAt n).events r <+: _
    rcases hcases n hn with ⟨hold,hsame⟩ | hlast
    · rw [hsame]
      exact (h.rows n hold).trans hgrows
    · rw [hlast]
      exact hrows
  · change (openTurn? (((t.tablesAt n).events r).map _)).isSome = true at hopen
    rcases hcases n hn with ⟨hold,hsame⟩ | hlast
    · rw [hsame] at hsum hopen
      exact h.running n hold sum hsum hopen
    · rw [hlast] at hsum hopen
      exact hrunning sum hsum hopen

/-- What a run told the store lands behind its rows. -/
theorem Tells.written (tells : Tells (s.runs q) done) (hid : (s.runs q).id = q)
    (htables : t.tables = s.tables) (hops : t.ops = s.ops++done.2)
    (h : s.final.events q = s.written q) : t.final.events q = t.written q := by
  rw [final_append htables hops, written_append htables hops]
  have hown := tells.own
  rw [hid] at hown
  match hdone : done.2, tells.few with
  | [], _ => exact h
  | [op], _ =>
    rw [List.flatMap_singleton, applyAll_one, (hown op (by rw [hdone]; simp)).events, h]

/-- A run that nobody can append to has rows that end between two turns. -/
theorem Restorable.between {events : List RunEvent} (h : Restorable true events) :
    phase (events.map (·.event)) = some .between :=
  h.settled.resolve_right fun hn => by cases hn.1

/-- A section of a run that is saved and not deleted. -/
theorem section_told (inv : ManagerInv s) (h : Told s q) (past : Past s q)
    (tells : Tells (s.runs q) done) (hrun : t.runs q = done.1) (htables : t.tables = s.tables)
    (hops : t.ops = s.ops++done.2) (hmade : s.made ≤ t.made)
    (saved : ∀ i, (s.threads i).unsaved ≠ some q) (kept : ∀ i, q ∉ (s.threads i).erases)
    (savedThen : ∀ i, (t.threads i).unsaved ≠ some q) (keptThen : ∀ i, q ∉ (t.threads i).erases)
    (hloaded : ∀ i goal events, t.threads i = .loaded q goal events →
      s.threads i = .loaded q goal events) : Told t q ∧ Past t q := by
  have hid := inv.ids q
  have hname : (t.runs q).id = q := by rw [hrun, tells.id, hid]
  cases h with
  | fresh _ thread _ =>
    obtain ⟨i,hi⟩ := thread
    exact absurd hi (saved i)
  | erased _ _ _ thread =>
    obtain ⟨i,hi⟩ := thread
    exact absurd hi (kept i)
  | gone h _ store unborn =>
    rw [tells.silent store] at hops
    have hwritten : t.written q = s.written q := written_aside htables hops (by simp)
    obtain ⟨hruns,hevents⟩ := final_aside (r := q) htables hops (by simp)
    have told : Told t q := by
      refine .gone ⟨hruns.trans h.row,hevents.trans h.rows,fun hyd => ?_⟩ savedThen ?_ fun hm => ?_
      · rw [hrun, tells.hydrated] at hyd
        rw [hwritten, hrun]
        exact (h.written hyd).trans (tells.grows hyd)
      · rw [hrun, tells.store, store]
      · rw [hwritten]
        exact unborn (Nat.le_trans hmade hm)
    refine ⟨told,past.step told hname htables hops (Nat.zero_le _) ?_ ?_⟩
    · rw [hwritten]
      exact past.numbered
    · rw [hwritten]
  | recorded h _ _ =>
    obtain ⟨hshown,hgrows⟩ := tells.shown h.store s.final h.shown
    rw [hid, ← final_append htables hops] at hgrows
    rw [← final_append htables hops] at hshown
    have hwritten := tells.written hid htables hops h.written
    rw [h.written, hwritten] at hgrows
    have hread : (t.runs q).hydrated = false → ∀ events, Readable s q events →
        ((s.runs q).live = true → Restorable true events) → Readable t q events := by
      intro hyd events hevents hrest
      rw [hrun, tells.hydrated] at hyd
      rcases tells.rests hyd with ⟨hnone,hlive⟩ | ⟨hlive,hdead⟩
      · rw [hnone] at hops
        unfold Readable
        rw [written_aside (r := q) htables hops (by simp), hrun, hlive]
        exact hevents
      · exact .inr ⟨by rw [hrun, hdead],(hrest hlive).between⟩
    have told : Told t q := by
      refine .recorded ⟨by rw [hrun, tells.store, h.store],by rw [hrun]; exact hshown,hwritten,
        fun hyd n hn => ?_,fun hyd i goal events hi => ?_⟩ savedThen keptThen
      · have hyd' : (s.runs q).hydrated = false := by
          rw [hrun, tells.hydrated] at hyd
          exact hyd
        by_cases hold : n ≤ s.ops.length
        · have hsame : t.rowsAt n q = s.rowsAt n q :=
            congrArg (fun t => Tables.events t q) (tablesAt_append htables hops hold)
          rw [hsame]
          refine hread hyd _ (h.rows hyd' n hold) fun hlive => ?_
          exact hlive ▸ inv.stored q hyd' h.store n hold
        · left
          have hlength : t.ops.length = s.ops.length+done.2.length := by
            rw [hops, List.length_append]
          have hlast : n = t.ops.length := by have := tells.few; omega
          show (t.tablesAt n).events q = _
          rw [hlast, tablesAt_length, hwritten]
      · have hyd' : (s.runs q).hydrated = false := by
          rw [hrun, tells.hydrated] at hyd
          exact hyd
        have hs := hloaded i goal events hi
        refine hread hyd events (h.loaded hyd' i goal events hs) fun hlive => ?_
        have hok := inv.threads i
        rw [hs] at hok
        exact hlive ▸ hok hyd' h.store
    refine ⟨told,past.step told hname htables hops tells.few ?_ hgrows⟩
    have hnum := hshown.numbered
    rw [tells.id, hid, hwritten] at hnum
    exact hnum

/-- A section of a run, by a thread that reads and writes nothing else. -/
theorem HistoryInv.put (h : HistoryInv s) (inv : ManagerInv s) (hu : s.threads i = u)
    (p : Passes u v) (tells : Tells (s.runs q) done)
    (hq : (done.1.core = (s.runs q).core ∧ done.2 = []) ∨
      (∀ i, (s.threads i).unsaved ≠ some q) ∧ ∀ i, q ∉ (s.threads i).erases) :
    HistoryInv ((s.put q done).setThread i v) := by
  have hops : ((s.put q done).setThread i v).ops = s.ops++done.2 := enqueue_open h.open_ done.2
  have haside : ∀ r ≠ q, Quiet s ((s.put q done).setThread i v) r := by
    intro r hr
    refine p.quiet hu rfl ?_ (Nat.le_refl _) rfl hops fun op hop => ?_
    · show (Function.update s.runs q done.1 r).core = _
      rw [Function.update_of_ne hr]
    · have hown := tells.own op hop
      rw [inv.ids q] at hown
      exact hown.aside hr
  have hrun : ((s.put q done).setThread i v).runs q = done.1 := Function.update_self ..
  have hboth : Told ((s.put q done).setThread i v) q ∧ Past ((s.put q done).setThread i v) q := by
    rcases hq with ⟨hcore,hnone⟩ | ⟨saved,kept⟩
    · have hquiet : Quiet s ((s.put q done).setThread i v) q :=
        p.quiet hu rfl (by rw [hrun, hcore]) (Nat.le_refl _) rfl hops (by rw [hnone]; simp)
      exact ⟨(h.told q).quiet hquiet (inv.ids q),(h.past q).quiet hquiet⟩
    · have hthreads : ∀ j, ((s.put q done).setThread i v).threads j =
          Function.update s.threads i v j := fun _ => rfl
      refine section_told inv (h.told q) (h.past q) tells hrun rfl hops (Nat.le_refl _) saved kept
        (fun j => ?_) (fun j => ?_) fun j goal events hj => ?_
      · rw [hthreads]
        by_cases hj : j = i
        · rw [hj, Function.update_self, p.unsavedThen]
          simp
        · rw [Function.update_of_ne hj]
          exact saved j
      · rw [hthreads]
        by_cases hj : j = i
        · rw [hj, Function.update_self, p.erasesThen]
          exact List.not_mem_nil
        · rw [Function.update_of_ne hj]
          exact kept j
      · rw [hthreads] at hj
        by_cases hji : j = i
        · rw [hji, Function.update_self] at hj
          exact absurd hj (p.loadedThen q goal events)
        · rw [Function.update_of_ne hji] at hj
          exact hj
  refine h.one inv haside hboth.1 hboth.2 h.open_ h.hasStore (fun _ _ hr => hr) fun hstore => ?_
  rw [hrun, tells.store] at hstore
  exact h.attached q hstore

/-- Only a thread goes on, or what the history does not speak of. -/
theorem HistoryInv.thread (h : HistoryInv s) (inv : ManagerInv s) (hu : s.threads i = u)
    (p : Passes u v) (hthreads : t.threads = Function.update s.threads i v)
    (hruns : t.runs = s.runs) (hmade : t.made = s.made) (htables : t.tables = s.tables)
    (hops : t.ops = s.ops) (hopen : t.storeClosed = s.storeClosed)
    (hstore : t.hasStore = s.hasStore) (horder : t.order = s.order) : HistoryInv t := by
  refine h.quiet inv (fun r => ?_) (hopen.trans h.open_) (hstore.trans h.hasStore)
    fun r hr => horder ▸ hr
  have hsame : t.ops = s.ops++[] := by rw [hops, List.append_nil]
  exact p.quiet hu hthreads (by rw [hruns]) (Nat.le_of_eq hmade.symm) htables hsame (by simp)

theorem HistoryInv.go (h : HistoryInv s) (inv : ManagerInv s) (hu : s.threads i = u)
    (p : Passes u v) : HistoryInv (s.setThread i v) :=
  h.thread inv hu p rfl rfl rfl rfl rfl rfl rfl rfl

theorem HistoryInv.same (h : HistoryInv s) (inv : ManagerInv s) (hthreads : t.threads = s.threads)
    (hruns : t.runs = s.runs) (hmade : t.made = s.made) (htables : t.tables = s.tables)
    (hops : t.ops = s.ops) (hopen : t.storeClosed = s.storeClosed)
    (hstore : t.hasStore = s.hasStore) (horder : t.order = s.order) : HistoryInv t := by
  refine h.quiet inv (fun r => ?_) (hopen.trans h.open_) (hstore.trans h.hasStore)
    fun r hr => horder ▸ hr
  exact
    { core := by rw [hruns]
      made := Nat.le_of_eq hmade.symm
      tables := htables
      ops := ⟨[],by rw [hops, List.append_nil],(by simp)⟩
      unsaved := fun i => by rw [hthreads]
      summary := fun i sum hi => .inl (hthreads ▸ hi)
      erases := fun i => by rw [hthreads]
      loaded := fun i goal events hi => .inl (hthreads ▸ hi) }

end Sections

section Who

variable {s : Manager} {i q : ℕ} {u : Thread} {k : Hold}

theorem unsaved_hold {v : Thread} (h : v.unsaved = some q) : v.hold = some (q,.reserved) := by
  cases v with
  | inserted r => exact congrArg (fun o => o.map fun r => (r,Hold.reserved)) h
  | summarized r sum => exact congrArg (fun o => o.map fun r => (r,Hold.reserved)) h
  | _ => cases h

/-- A run that goes on past its first save is saved. -/
theorem saved_of_hold (inv : ManagerInv s) (hu : s.threads i = u) (hold : u.hold = some (q,k))
    (hsaved : u.unsaved = none) (j : ℕ) : (s.threads j).unsaved ≠ some q := by
  intro hj
  have hi : (s.threads i).hold = some (q,k) := by rw [hu, hold]
  have hsame := inv.one j i q .reserved k (unsaved_hold hj) hi
  rw [hsame, hu, hsaved] at hj
  cases hj

theorem saved_of_idle (inv : ManagerInv s) (h : (s.runs q).inFlight = false) (j : ℕ) :
    (s.threads j).unsaved ≠ some q := by
  intro hj
  have hheld := (inv.ok q (some .reserved) ⟨j,unsaved_hold hj⟩).held (by simp)
  cases h.symm.trans hheld.1

theorem HistoryInv.saved_of_row (h : HistoryInv s) (hrow : (s.final.runs q).isSome = true)
    (j : ℕ) : (s.threads j).unsaved ≠ some q := by
  cases h.told q with
  | fresh h _ _ =>
    rw [h.row] at hrow
    nomatch hrow
  | recorded _ saved _ => exact saved j
  | erased _ saved _ _ => exact saved j
  | gone _ saved _ _ => exact saved j

theorem HistoryInv.saved_of_status (h : HistoryInv s) (hs : (s.runs q).status ≠ .running)
    (j : ℕ) : (s.threads j).unsaved ≠ some q := by
  cases h.told q with
  | fresh h _ _ => exact absurd h.status hs
  | recorded _ saved _ => exact saved j
  | erased _ saved _ _ => exact saved j
  | gone _ saved _ _ => exact saved j

theorem kept_of_unlocked (inv : ManagerInv s) (hq : q ∉ s.locked) (j : ℕ) :
    q ∉ (s.threads j).erases := by
  intro hj
  have hok := inv.threads j
  cases hu : s.threads j with
  | deleting kept dropped stamp commits =>
    rw [hu] at hok hj
    cases commits with
    | false => cases hj
    | true => exact hq (hok.1 ▸ hj)
  | _ =>
    rw [hu] at hj
    cases hj

end Who

end Radar.Ai
