import Radar.Ai.TranscriptRuns

/-!
# The restart

What the manager makes of the rows that the store kept: a run that was running
is ended with a terminal, a run that is too old or beyond the cap is deleted.
The transcripts stay in the store.
-/

set_option autoImplicit false

namespace Radar.Ai

open Radar.Numbered
open Radar.Ai.Run

/-- The last turn marker, unless a terminal follows it. -/
def lastOpenTurnWasApply (events : List RunEvent) : Bool :=
  match events.reverse.find? fun e => e.event.isTurn || e.event.isTerminal with
  | some e => e.event.isTurn && e.event.apply
  | none => false

/-- None is a transcript that could not be loaded. -/
def restartInterruptionEvent : Option (List RunEvent) → StreamEvent
  | none =>
    { type := .error, applyOutcome := some .unknown,
      error := "Radar restarted while this investigation was running, and its active transcript could not be reloaded. An apply may have completed without verification; re-check the original cluster before retrying." }
  | some events =>
    if lastOpenTurnWasApply events then
      { type := .error, applyOutcome := some .unknown,
        error := "Radar restarted during an apply. The change may have completed, but Radar could not verify it; re-check the original cluster before retrying." }
    else
      { type := .error,
        error := "Radar restarted while this investigation was running. Start a new investigation to analyze the current cluster." }

/-- The session of a Cursor run lives in a workspace that the restart removed. -/
def RunSummary.forget (sum : RunSummary) : RunSummary :=
  if sum.target.agent = "cursor-agent" then { sum with sessionID := "" } else sum

/-- The run of a row. -/
def restoredRun (sum : RunSummary) : Run where
  id := sum.id
  target := sum.forget.target
  context := sum.forget.context
  status := if sum.status = Status.running then .error else sum.status
  sessionID := sum.forget.sessionID
  preview := sum.forget.preview
  subs := if sum.status = Status.stale then none else some []
  store := true

section Load

-- Whether the row of a run was last written before the cutoff of the history's age.
variable (expired : ℕ → Bool)

/-- One round of the loop of `loadPersisted`. A row that was running has no live owner. -/
def Manager.loadRow (s : Manager) (sum : RunSummary) : Manager :=
  if expired sum.id then s.enqueue [.deleteRun sum.id]
  else
    let r := restoredRun sum
    { s with runs := Function.update s.runs sum.id r, order := s.order++[sum.id] }.enqueue
      (if sum.status = Status.running then
        [.appendEvents sum.id
          [⟨0,restartInterruptionEvent ((s.tables.applyAll s.ops).loadEvents sum.id)⟩]
          (some r.summaryLocked)]
      else [])

/-- `rows` is what `LoadRuns` returns. -/
def Manager.loadPersisted (s : Manager) (rows : List RunSummary) : Manager :=
  (rows.foldl (Manager.loadRow expired) s).evictLocked

end Load

/-- The rows of the table of runs, each once. -/
structure LoadRuns (t : Tables) (rows : List RunSummary) : Prop where
  nodup : (rows.map (·.id)).Nodup
  rows : ∀ sum, sum ∈ rows ↔ t.runs sum.id = some sum

/-- What is left of a row and its transcript once the restart has written what it has to write. -/
def repaired (sum : RunSummary) (events : List RunEvent) : RunSummary × List RunEvent :=
  if sum.status = .running then
    ((restoredRun sum).summaryLocked,
      events++[⟨events.length+1,restartInterruptionEvent (some events)⟩])
  else (sum,events)

section Load

variable {expired : ℕ → Bool} {s : Manager} {t : Tables} {rows : List RunSummary}
  {sum : RunSummary} {id cap : ℕ}

theorem applyAll_one (t : Tables) (op : StoreOp) : t.applyAll [op] = t.apply op := rfl

theorem apply_appendEvents (t : Tables) (id : ℕ) (es : List RunEvent) (row : Option RunSummary) :
    (t.apply (.appendEvents id es row)).events id = es.foldl appendRow (t.events id) := by
  cases row <;> simp [Tables.apply, Tables.upsertRun]

theorem upsertRun_runs (t : Tables) (sum : RunSummary) (id : ℕ) :
    (t.upsertRun sum).runs id = if id = sum.id then some sum else t.runs id := by
  simp only [Tables.upsertRun, Function.update_apply]

/-- An operation is about one run. -/
def StoreOp.about : StoreOp → ℕ → Prop
  | .saveRun sum, id => sum.id = id
  | .appendEvents runID _ sum, id => runID = id ∨ ∃ row, sum = some row ∧ row.id = id
  | .deleteRun runID, id => runID = id
  | .clearTerminal commits, _ => commits = true

theorem apply_other (t : Tables) {op : StoreOp} (h : ¬ op.about id) :
    (t.apply op).runs id = t.runs id ∧ (t.apply op).events id = t.events id := by
  cases op with
  | saveRun sum =>
    have hne : id ≠ sum.id := fun he => h he.symm
    simp [Tables.apply, Tables.upsertRun, hne]
  | appendEvents runID events summary =>
    simp only [StoreOp.about, not_or, not_exists, not_and] at h
    have hne : id ≠ runID := fun he => h.1 he.symm
    cases summary with
    | none => simp [Tables.apply, hne]
    | some row =>
      have hrow : id ≠ row.id := fun he => h.2 row rfl he.symm
      simp [Tables.apply, Tables.upsertRun, hne, hrow]
  | deleteRun runID =>
    have hne : id ≠ runID := fun he => h he.symm
    simp [Tables.apply, hne]
  | clearTerminal commits =>
    cases commits with
    | false => exact ⟨rfl,rfl⟩
    | true => exact absurd rfl h

theorem applyAll_other (t : Tables) {ops : List StoreOp} (h : ∀ op ∈ ops, ¬ op.about id) :
    (t.applyAll ops).runs id = t.runs id ∧ (t.applyAll ops).events id = t.events id := by
  induction ops generalizing t with
  | nil => exact ⟨rfl,rfl⟩
  | cons op ops ih =>
    obtain ⟨hruns,hevents⟩ := apply_other t (h op List.mem_cons_self)
    obtain ⟨hr,he⟩ := ih (t.apply op) fun o ho => h o (List.mem_cons_of_mem op ho)
    exact ⟨hr.trans hruns,he.trans hevents⟩

/-- A process begins with the tables that it finds. -/
def Manager.begun (t : Tables) (made maxRetained : ℕ) : Manager where
  tables := t
  made := made
  maxRetained := maxRetained

/-- What the restart has made of a row. -/
structure Mended (expired : ℕ → Bool) (t : Tables) (s : Manager) (sum : RunSummary) : Prop where
  young : expired sum.id = false
  run : s.runs sum.id = restoredRun sum
  row : (t.applyAll s.ops).runs sum.id = some (repaired sum (t.events sum.id)).1
  events : (t.applyAll s.ops).events sum.id = (repaired sum (t.events sum.id)).2

/-- What the loop of `loadPersisted` has made of the first rows. -/
structure LoadedRows (expired : ℕ → Bool) (t : Tables) (cap : ℕ) (rows : List RunSummary)
    (s : Manager) : Prop where
  cap : s.maxRetained = cap
  tables : s.tables = t
  open_ : s.storeClosed = false
  store : s.hasStore = true
  nodup : s.order.Nodup
  order : ∀ id, id ∈ s.order ↔ ∃ sum ∈ rows, sum.id = id ∧ expired id = false
  mended : ∀ sum ∈ rows, expired sum.id = false → Mended expired t s sum
  aside : ∀ id, (∀ sum ∈ rows, sum.id ≠ id) → ∀ op ∈ s.ops, ¬ op.about id

theorem enqueue_open (h : s.storeClosed = false) (ops : List StoreOp) :
    (s.enqueue ops).ops = s.ops++ops := by
  rw [Manager.enqueue, h]
  rfl

/-- What was made of a row, operations about others leave. -/
theorem Mended.later {w : Manager} {more : List StoreOp} (m : Mended expired t s sum)
    (hrun : w.runs sum.id = s.runs sum.id) (hops : w.ops = s.ops++more)
    (hmore : ∀ op ∈ more, ¬ op.about sum.id) : Mended expired t w sum := by
  obtain ⟨hruns,hevents⟩ := applyAll_other (t.applyAll s.ops) hmore
  exact
    { young := m.young
      run := hrun.trans m.run
      row := by rw [hops, applyAll_append, hruns, m.row]
      events := by rw [hops, applyAll_append, hevents, m.events] }

theorem loadRow_spec (h : LoadedRows expired t cap rows s) (hrow : t.runs sum.id = some sum)
    (hnew : ∀ d ∈ rows, d.id ≠ sum.id) (hnum : From RunEvent.seq 0 (t.events sum.id)) :
    LoadedRows expired t cap (rows++[sum]) (s.loadRow expired sum) := by
  have hfresh : sum.id ∉ s.order := by
    intro hin
    obtain ⟨d,hd,hid,_⟩ := (h.order sum.id).mp hin
    exact hnew d hd hid
  have hnone := applyAll_other t (h.aside sum.id hnew)
  unfold Manager.loadRow
  cases hold : expired sum.id with
  | true =>
    have hops := enqueue_open h.open_ [StoreOp.deleteRun sum.id]
    rw [if_pos rfl]
    refine
      { cap := h.cap, tables := h.tables, open_ := h.open_, store := h.store, nodup := h.nodup
        order := fun id => ?_, mended := fun d hd hyoung => ?_, aside := fun id hid op hop => ?_ }
    · rw [enqueue_order, h.order]
      constructor
      · rintro ⟨d,hd,hid⟩
        exact ⟨d,List.mem_append_left _ hd,hid⟩
      · rintro ⟨d,hd,hid,hyoung⟩
        rcases List.mem_append.mp hd with hd | hd
        · exact ⟨d,hd,hid,hyoung⟩
        · rw [← hid, List.mem_singleton.mp hd, hold] at hyoung
          cases hyoung
    · rcases List.mem_append.mp hd with hd | hd
      · refine (h.mended d hd hyoung).later rfl hops fun op hop => ?_
        rw [List.mem_singleton.mp hop]
        exact fun he => hnew d hd he.symm
      · rw [List.mem_singleton.mp hd, hold] at hyoung
        cases hyoung
    · rw [hops] at hop
      rcases List.mem_append.mp hop with hop | hop
      · exact h.aside id (fun d hd => hid d (List.mem_append_left _ hd)) op hop
      · rw [List.mem_singleton.mp hop]
        exact hid sum (by simp)
  | false =>
    rw [if_neg (by simp)]
    have hops := enqueue_open (s := { s with
      runs := Function.update s.runs sum.id (restoredRun sum), order := s.order++[sum.id] })
      h.open_ (if sum.status = Status.running then
        [.appendEvents sum.id
          [⟨0,restartInterruptionEvent ((s.tables.applyAll s.ops).loadEvents sum.id)⟩]
          (some (restoredRun sum).summaryLocked)]
      else [])
    have habout : ∀ id ≠ sum.id, ∀ op ∈ (if sum.status = Status.running then
        [StoreOp.appendEvents sum.id
          [⟨0,restartInterruptionEvent ((s.tables.applyAll s.ops).loadEvents sum.id)⟩]
          (some (restoredRun sum).summaryLocked)]
        else []), ¬ op.about id := by
      intro id hid op hop
      split_ifs at hop
      · rw [List.mem_singleton.mp hop]
        rintro (he | ⟨row,hsome,he⟩)
        · exact hid he.symm
        · obtain rfl := Option.some.inj hsome
          exact hid he.symm
      · exact absurd hop List.not_mem_nil
    refine
      { cap := h.cap, tables := h.tables, open_ := h.open_, store := h.store, nodup := ?_
        order := fun id => ?_, mended := fun d hd hyoung => ?_, aside := fun id hid op hop => ?_ }
    · show (s.order++[sum.id]).Nodup
      rw [← List.concat_eq_append]
      exact (List.nodup_concat _ _).mpr ⟨hfresh,h.nodup⟩
    · show id ∈ s.order++[sum.id] ↔ _
      rw [List.mem_append, h.order, List.mem_singleton]
      constructor
      · rintro (⟨d,hd,hid⟩ | rfl)
        · exact ⟨d,List.mem_append_left _ hd,hid⟩
        · exact ⟨sum,by simp,rfl,hold⟩
      · rintro ⟨d,hd,hid,hyoung⟩
        rcases List.mem_append.mp hd with hd | hd
        · exact .inl ⟨d,hd,hid,hyoung⟩
        · right
          rw [← hid, List.mem_singleton.mp hd]
    · rcases List.mem_append.mp hd with hd | hd
      · refine (h.mended d hd hyoung).later ?_ hops (habout d.id (hnew d hd))
        show Function.update s.runs sum.id _ d.id = _
        rw [Function.update_of_ne (hnew d hd)]
      · obtain rfl := List.mem_singleton.mp hd
        have hload : (s.tables.applyAll s.ops).loadEvents d.id = some (t.events d.id) := by
          rw [Tables.loadEvents, h.tables, hnone.2, if_pos hnum]
        refine ⟨hold,Function.update_self ..,?_,?_⟩
        · rw [hops, applyAll_append, hload]
          by_cases hrunning : d.status = .running
          · rw [if_pos hrunning, repaired, if_pos hrunning]
            show ((_ : Tables).upsertRun _).runs d.id = _
            rw [upsertRun_runs]
            exact if_pos rfl
          · rw [if_neg hrunning, repaired, if_neg hrunning]
            exact hnone.1.trans hrow
        · rw [hops, applyAll_append, hload]
          by_cases hrunning : d.status = .running
          · rw [if_pos hrunning, repaired, if_pos hrunning]
            have hone := appendRow_next
              (e := ⟨0,restartInterruptionEvent (some (t.events d.id))⟩) hnum (.inr rfl)
            rw [applyAll_one, apply_appendEvents, hnone.2]
            exact hone
          · rw [if_neg hrunning, repaired, if_neg hrunning]
            exact hnone.2
    · rw [hops] at hop
      rcases List.mem_append.mp hop with hop | hop
      · exact h.aside id (fun d hd => hid d (List.mem_append_left _ hd)) op hop
      · exact habout id (fun he => hid sum (by simp) he.symm) op hop

theorem loadRows_spec (hload : LoadRuns t rows)
    (hnum : ∀ id, From RunEvent.seq 0 (t.events id)) (made maxRetained : ℕ) :
    LoadedRows expired t maxRetained rows (rows.foldl (Manager.loadRow expired)
      (Manager.begun t made maxRetained)) := by
  have hall : ∀ done more : List RunSummary, done++more = rows → ∀ s,
      LoadedRows expired t maxRetained done s →
      LoadedRows expired t maxRetained rows (more.foldl (Manager.loadRow expired) s) := by
    intro done more
    induction more generalizing done with
    | nil =>
      intro hrows s h
      rw [List.append_nil] at hrows
      exact hrows ▸ h
    | cons sum more ih =>
      intro hrows s h
      have hin : sum ∈ rows := by rw [← hrows]; simp
      have hnew : ∀ d ∈ done, d.id ≠ sum.id := by
        have hnodup := hload.nodup
        rw [← hrows, List.map_append, List.map_cons] at hnodup
        intro d hd
        exact (List.nodup_append.mp hnodup).2.2 d.id (List.mem_map_of_mem hd) sum.id (by simp)
      refine ih (done++[sum]) (by simpa using hrows) _ ?_
      exact loadRow_spec h ((hload.rows sum).mp hin) hnew (hnum sum.id)
  refine hall [] rows rfl _ ?_
  exact
    { cap := rfl, tables := rfl, open_ := rfl, store := rfl, nodup := List.nodup_nil
      order := fun id => ⟨nofun,by rintro ⟨_,hd,_⟩; nomatch hd⟩
      mended := (by simp)
      aside := fun _ _ => nofun }

/-- What eviction leaves in the order, it leaves as it was. -/
structure Retained (expired : ℕ → Bool) (t : Tables) (rows : List RunSummary) (s : Manager) :
    Prop where
  open_ : s.storeClosed = false
  nodup : s.order.Nodup
  mended : ∀ id ∈ s.order, ∃ sum ∈ rows, sum.id = id ∧ Mended expired t s sum

theorem evictOldest_retained (h : Retained expired t rows s) :
    Retained expired t rows s.evictOldest := by
  unfold Manager.evictOldest
  split
  · exact h
  · rename_i q hfind
    have hops := enqueue_open
      (s := Manager.drop { s with order := s.order.erase q } q) (by exact h.open_)
      (if s.hasStore then [.deleteRun q] else [])
    have hdrop : (Manager.drop { s with order := s.order.erase q } q).ops = s.ops := by
      show (({ s with order := s.order.erase q }.put q _).ops) = _
      rw [Manager.put, drop_ops, enqueue_nil]
    rw [hdrop] at hops
    refine ⟨h.open_,h.nodup.erase q,fun id hid => ?_⟩
    have hid : id ∈ s.order.erase q := hid
    rw [h.nodup.mem_erase_iff] at hid
    obtain ⟨hne,hid⟩ := hid
    obtain ⟨sum,hsum,rfl,m⟩ := h.mended id hid
    refine ⟨sum,hsum,rfl,m.later ?_ hops fun op hop => ?_⟩
    · exact Function.update_of_ne hne _ _
    · split_ifs at hop
      · rw [List.mem_singleton.mp hop]
        exact fun he => hne he.symm
      · exact absurd hop List.not_mem_nil

theorem evictLocked_retained (h : Retained expired t rows s) :
    Retained expired t rows s.evictLocked := by
  unfold Manager.evictLocked
  induction s.order.length-s.maxRetained with
  | zero => exact h
  | succ n ih =>
    rw [Function.iterate_succ_apply']
    exact evictOldest_retained ih

/-- Every run that a restart shows is that of a row, mended. -/
theorem loadPersisted_spec (hload : LoadRuns t rows)
    (hnum : ∀ id, From RunEvent.seq 0 (t.events id)) (made maxRetained : ℕ) :
    ∀ id ∈ ((Manager.begun t made maxRetained).loadPersisted expired rows).order, ∃ sum,
      sum.id = id ∧ t.runs id = some sum ∧
        Mended expired t ((Manager.begun t made maxRetained).loadPersisted expired rows) sum := by
  have hrows := @loadRows_spec expired _ _ hload hnum made maxRetained
  have hretained := @evictLocked_retained expired _ t rows
    ⟨hrows.open_,hrows.nodup,fun id hid => ?_⟩
  · intro id hid
    obtain ⟨sum,hsum,rfl,m⟩ := hretained.mended id hid
    exact ⟨sum,rfl,(hload.rows sum).mp hsum,m⟩
  · obtain ⟨sum,hsum,hid,hyoung⟩ := (hrows.order id).mp hid
    subst hid
    exact ⟨sum,hsum,rfl,hrows.mended sum hsum hyoung⟩

/-- Below the cap, every row that is young enough is shown. -/
theorem loadPersisted_shows (hload : LoadRuns t rows)
    (hnum : ∀ id, From RunEvent.seq 0 (t.events id)) {made maxRetained : ℕ}
    (hcap : rows.length ≤ maxRetained) (hrow : t.runs id = some sum) (hid : sum.id = id)
    (hyoung : expired id = false) :
    id ∈ ((Manager.begun t made maxRetained).loadPersisted expired rows).order := by
  have hrows := @loadRows_spec expired _ _ hload hnum made maxRetained
  have hsub : (rows.foldl (Manager.loadRow expired) (Manager.begun t made maxRetained)).order ⊆
      rows.map (·.id) := by
    intro q hq
    obtain ⟨d,hd,rfl,_⟩ := (hrows.order q).mp hq
    exact List.mem_map_of_mem hd
  have hlength := List.Nodup.length_le_of_subset hrows.nodup hsub
  rw [List.length_map] at hlength
  have hnone : (rows.foldl (Manager.loadRow expired) (Manager.begun t made maxRetained)).order.length-
      (rows.foldl (Manager.loadRow expired) (Manager.begun t made maxRetained)).maxRetained = 0 := by
    rw [hrows.cap]
    omega
  rw [Manager.loadPersisted, Manager.evictLocked, hnone]
  exact (hrows.order id).mpr ⟨sum,(hload.rows sum).mpr (hid ▸ hrow),hid,hyoung⟩

end Load

end Radar.Ai
