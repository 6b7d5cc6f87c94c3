import Radar.Ai.HistoryInv

/-!
# The history in every interleaving

Each step tells the store what it does to the runs. Two moments of a run escape
it: an interruption before Start has saved the run, and the end of a turn that
ClearHistory saw running.
-/

set_option autoImplicit false

namespace Radar.Ai

open Radar.Numbered
open Radar.Ai.Run

/-- A step that the history survives: the store is not closed, a run that is interrupted was saved
before, and what ClearHistory is to keep is running still when the store is told. -/
def HonestAt (s : Manager) (a : Act) : Prop :=
  (∀ r ∈ s.interrupted a, (s.final.runs r).isSome = true) ∧
    match a with
    | .closeStore _ => False
    | .clearTerminal i _ =>
      match s.threads i with
      | .clearing [] kept _ => ∀ r ∈ kept, (s.runs r).status = .running
      | _ => True
    | _ => True

instance (s : Manager) (a : Act) : Decidable (HonestAt s a) := by
  unfold HonestAt
  refine @instDecidableAnd _ _ inferInstance ?_
  split
  · infer_instance
  · split <;> infer_instance
  · infer_instance

section Starts

variable {s t : Manager} {i q : ℕ} {a : Act}

theorem summarize_history (h : HistoryInv s) (inv : ManagerInv s)
    (ht : s.startStep (.summarize i) = some t) : HistoryInv t := by
  simp only [Manager.startStep] at ht
  split at ht
  · rename_i r hu
    rw [if_pos h.hasStore] at ht
    split_ifs at ht with hlocked
    obtain rfl := Option.some.inj ht
    refine h.quiet inv (fun q => ?_) h.open_ h.hasStore fun _ hq => hq
    have hsame : (s.setThread i (.summarized r (s.runs r).summaryLocked)).ops = s.ops++[] :=
      (List.append_nil _).symm
    refine quiet_thread hu rfl rfl (Nat.le_refl _) rfl hsame (by simp) Iff.rfl
      (fun sum hsum => ?_) Iff.rfl (by simp)
    cases hsum
    rfl
  · cases ht

/-- The first save of a run. -/
theorem saveRun_history (h : HistoryInv s) (inv : ManagerInv s)
    (ht : s.startStep (.saveRun i) = some t) : HistoryInv t := by
  simp only [Manager.startStep] at ht
  split at ht
  · rename_i q summary hu
    obtain rfl := Option.some.inj ht
    have hops : ((s.enqueue [.saveRun summary]).setThread i (.saved q)).ops =
        s.ops++[StoreOp.saveRun summary] := enqueue_open h.open_ _
    have hunsaved : (s.threads i).unsaved = some q := by rw [hu]; rfl
    have hfresh : Fresh s q ∧ summary = (s.runs q).summaryLocked := by
      cases h.told q with
      | fresh h _ hsummary => exact ⟨h,hsummary i summary hu⟩
      | recorded _ saved _ => exact absurd hunsaved (saved i)
      | erased _ saved _ _ => exact absurd hunsaved (saved i)
      | gone _ saved _ _ => exact absurd hunsaved (saved i)
    obtain ⟨fresh,rfl⟩ := hfresh
    have hid := inv.ids q
    have hname : (s.runs q).summaryLocked.id = q := hid
    have hwritten : ((s.enqueue [.saveRun (s.runs q).summaryLocked]).setThread i
        (.saved q)).written q = s.written q := by
      rw [written_append (by rfl) hops]
      rfl
    have hfinal : ((s.enqueue [.saveRun (s.runs q).summaryLocked]).setThread i (.saved q)).final =
        s.final.upsertRun (s.runs q).summaryLocked := final_append (by rfl) hops
    have hothers : ∀ j ≠ i, (s.threads j).unsaved ≠ some q := by
      intro j hj hj'
      exact hj (inv.one j i q .reserved .reserved (unsaved_hold hj') (unsaved_hold hunsaved))
    have told : Told ((s.enqueue [.saveRun (s.runs q).summaryLocked]).setThread i (.saved q)) q := by
      refine .recorded ⟨fresh.store,⟨⟨(s.runs q).summaryLocked,?_,rfl⟩,fun _ => ?_,?_,
        fun _ => fresh.status⟩,?_,fun hyd => ?_,fun hyd => ?_⟩ (fun j => ?_) fun j => ?_
      · rw [hfinal, upsertRun_runs]
        exact if_pos rfl
      · rw [hfinal, upsertRun_events]
        show s.final.events (s.runs q).id = (s.runs q).events
        rw [hid, fresh.rows, fresh.events]
      · rw [hfinal, upsertRun_events]
        show From RunEvent.seq 0 (s.final.events (s.runs q).id)
        rw [hid, fresh.rows]
        trivial
      · rw [hwritten, hfinal, upsertRun_events, fresh.rows, fresh.written]
      · cases hyd.symm.trans fresh.hydrated
      · cases hyd.symm.trans fresh.hydrated
      · show (Function.update s.threads i (.saved q) j).unsaved ≠ some q
        by_cases hj : j = i
        · rw [hj, Function.update_self]
          simp [Thread.unsaved]
        · rw [Function.update_of_ne hj]
          exact hothers j hj
      · show q ∉ (Function.update s.threads i (.saved q) j).erases
        by_cases hj : j = i
        · rw [hj, Function.update_self]
          exact List.not_mem_nil
        · rw [Function.update_of_ne hj]
          refine kept_of_unlocked inv (fun hq => ?_) j
          exact inv.locked q hq fresh.status
    refine h.one inv (fun r hr => ?_) told ((h.past q).step told hid rfl hops (Nat.le_refl _) ?_ ?_)
      h.open_ h.hasStore (fun _ _ hr => hr) fun _ => h.attached q fresh.store
    · refine quiet_thread hu rfl rfl (Nat.le_refl _) rfl hops (fun op hop => ?_) ?_ (by simp) Iff.rfl
        (by simp)
      · rw [List.mem_singleton.mp hop]
        exact fun he => hr (he.symm.trans hname)
      · exact ⟨fun he => (by cases he),fun he => absurd (Option.some.inj he).symm hr⟩
    · rw [hwritten]
      exact (h.past q).numbered
    · rw [hwritten]
  · cases ht

theorem born_history {target : Target} {context : String} {u : Thread} (h : HistoryInv s)
    (inv : ManagerInv s) (hu : s.threads i = u) (hsaved : u.unsaved = none)
    (herases : u.erases = []) :
    HistoryInv ({ s with
      runs := Function.update s.runs s.made (s.newRun target context)
      made := s.made+1
      order := s.order++[s.made] }.setThread i (.inserted s.made)) := by
  have hold : (s.runs s.made).store = false := by
    by_contra hs
    have hin := h.attached s.made (by simpa using hs)
    exact Nat.lt_irrefl _ (inv.order _ hin).1
  have hnone : s.final.runs s.made = none ∧ s.final.events s.made = [] ∧ s.written s.made = [] := by
    cases h.told s.made with
    | fresh h _ _ => cases hold.symm.trans h.store
    | recorded h _ _ => cases hold.symm.trans h.store
    | erased _ _ store _ => cases hold.symm.trans store
    | gone h _ _ unborn => exact ⟨h.row,h.rows,unborn (Nat.le_refl _)⟩
  obtain ⟨hrow,hrows,hwritten⟩ := hnone
  generalize ht : ({ s with
      runs := Function.update s.runs s.made (s.newRun target context)
      made := s.made+1
      order := s.order++[s.made] }.setThread i (.inserted s.made) : Manager) = t
  have hrun : t.runs s.made = s.newRun target context := by
    rw [← ht]
    exact Function.update_self ..
  have hthreads : t.threads = Function.update s.threads i (.inserted s.made) := by
    rw [← ht]
    rfl
  have htables : t.tables = s.tables := by rw [← ht]; rfl
  have hops : t.ops = s.ops++[] := by
    rw [← ht, List.append_nil]
    rfl
  have hfinal : t.final = s.final := by rw [← ht]; rfl
  have hwritten' : t.written s.made = s.written s.made := by rw [← ht]; rfl
  have horder : t.order = s.order++[s.made] := by rw [← ht]; rfl
  have told : Told t s.made := by
    refine .fresh ⟨?_,?_,?_,?_,?_,?_,?_⟩ ⟨i,?_⟩ fun j sum hj => ?_
    · rw [hrun]
      exact h.hasStore
    · rw [hrun]
      rfl
    · rw [hrun]
      rfl
    · rw [hrun]
      rfl
    · rw [hfinal, hrow]
    · rw [hfinal, hrows]
    · rw [hwritten', hwritten]
    · rw [hthreads, Function.update_self]
      rfl
    · rw [hthreads] at hj
      by_cases hji : j = i
      · rw [hji, Function.update_self] at hj
        cases hj
      · rw [Function.update_of_ne hji] at hj
        refine absurd (show (s.threads j).unsaved = some s.made from ?_)
          (saved_of_idle inv (inv.unborn s.made (Nat.le_refl _)) j)
        rw [hj]
        rfl
  refine h.one inv (fun r hr => ?_) told ((h.past s.made).step told ?_ htables hops (Nat.zero_le _)
    ?_ ?_) ?_ ?_ (fun r _ hr => ?_) fun _ => ?_
  · refine quiet_thread hu hthreads ?_ ?_ htables hops (by simp) ?_ (by simp) ?_ (by simp)
    · rw [← ht]
      show (Function.update s.runs s.made _ r).core = _
      rw [Function.update_of_ne hr]
    · rw [← ht]
      exact Nat.le_succ _
    · rw [hsaved]
      exact ⟨fun he => absurd (Option.some.inj he).symm hr,(by simp)⟩
    · rw [herases]
      rfl
  · rw [hrun]
    rfl
  · rw [hwritten', hwritten]
    trivial
  · rw [hwritten']
  · rw [← ht]
    exact h.open_
  · rw [← ht]
    exact h.hasStore
  · rw [horder]
    exact List.mem_append_left _ hr
  · rw [horder]
    simp

/-- What is in memory of a run that is dropped, is not less. -/
theorem drop_grows (r : Run) :
    r.events <+: ({ r with store := false }.finalizeLocked).1.events := by
  cases hlive : r.live with
  | false =>
    have hlive' : Run.live { r with store := false } = false := hlive
    rw [finalizeLocked, hlive']
    exact List.prefix_rfl
  | true =>
    have hcore := finalizeLocked_core (r := { r with store := false }) hlive
    have hevents : ({ r with store := false }.finalizeLocked).1.events =
        r.events++numberFrom r.events.length [closedEvent] := (core_events hcore :)
    rw [hevents]
    exact List.prefix_append _ _

/-- What a run has in memory, the store was told at most. -/
theorem Told.written_events (told : Told s q) (hid : (s.runs q).id = q)
    (hyd : (s.runs q).hydrated = true) : s.written q <+: (s.runs q).events := by
  cases told with
  | fresh h _ _ =>
    rw [h.written]
    exact List.nil_prefix
  | recorded h _ _ =>
    have hlog := h.shown.log hyd
    rw [hid, h.written] at hlog
    rw [hlog]
  | erased h _ _ _ => exact h.written hyd
  | gone h _ _ _ => exact h.written hyd

theorem evictOldest_history (h : HistoryInv s) (inv : ManagerInv s) :
    HistoryInv s.evictOldest := by
  unfold Manager.evictOldest
  split
  · exact h
  · rename_i q hfind
    have hs : (s.runs q).status ≠ .running := by simpa using List.find?_some hfind
    have hin : q ∈ s.order := List.mem_of_find?_eq_some hfind
    rw [if_pos h.hasStore]
    generalize ht : (Manager.enqueue ({ s with order := s.order.erase q }.put q
      ({ s.runs q with store := false }.finalizeLocked)) [.deleteRun q]) = t
    have hops : t.ops = s.ops++[StoreOp.deleteRun q] := by
      rw [← ht, Manager.put, drop_ops, enqueue_nil]
      exact enqueue_open h.open_ _
    have hrun : t.runs q = ({ s.runs q with store := false }.finalizeLocked).1 := by
      rw [← ht]
      exact Function.update_self ..
    have htables : t.tables = s.tables := by rw [← ht]; rfl
    have hthreads : t.threads = s.threads := by rw [← ht]; rfl
    have horder : t.order = s.order.erase q := by rw [← ht]; rfl
    have hfinal := final_append htables hops
    have hwritten : t.written q = s.written q := by
      rw [written_append htables hops]
      rfl
    have hdropped := drop_spec (s.runs q)
    have told : Told t q := by
      refine .gone ⟨?_,?_,fun hyd => ?_⟩ (fun j => ?_) ?_ fun hmade => ?_
      · rw [hfinal]
        exact Function.update_self ..
      · rw [hfinal]
        exact Function.update_self ..
      · rw [hrun, hdropped.hydrated] at hyd
        rw [hwritten, hrun]
        exact ((h.told q).written_events (inv.ids q) hyd).trans (drop_grows _)
      · rw [hthreads]
        exact h.saved_of_status hs j
      · rw [hrun, hdropped.store]
      · have hmade : s.made ≤ q := by
          rw [← ht] at hmade
          exact hmade
        exact absurd (inv.order q hin).1 (by omega)
    refine h.one inv (fun r hr => ?_) told ((h.past q).step told ?_ htables hops (Nat.le_refl _)
      ?_ ?_) ?_ ?_ (fun r hr hr' => ?_) fun hstore => ?_
    · exact
        { core := by
            rw [← ht]
            show (Function.update s.runs q _ r).core = _
            rw [Function.update_of_ne hr]
          made := by
            rw [← ht]
            exact Nat.le_refl _
          tables := htables
          ops := ⟨_,hops,fun op hop => by
            rw [List.mem_singleton.mp hop]
            exact fun he => hr he.symm⟩
          unsaved := fun j => by rw [hthreads]
          summary := fun j sum hj => .inl (hthreads ▸ hj)
          erases := fun j => by rw [hthreads]
          loaded := fun j goal events hj => .inl (hthreads ▸ hj) }
    · rw [hrun, hdropped.id]
      exact inv.ids q
    · rw [hwritten]
      exact (h.past q).numbered
    · rw [hwritten]
    · rw [← ht]
      exact h.open_
    · rw [← ht]
      exact h.hasStore
    · rw [horder]
      exact (List.mem_erase_of_ne hr).mpr hr'
    · rw [hrun, hdropped.store] at hstore
      cases hstore

theorem evictLocked_history (h : HistoryInv s) (inv : ManagerInv s) (hmu : s.mu = false) :
    HistoryInv s.evictLocked := by
  have hall : ∀ n, HistoryInv (Manager.evictOldest^[n] s) ∧
      ManagerInv (Manager.evictOldest^[n] s) ∧ (Manager.evictOldest^[n] s).mu = false := by
    intro n
    induction n with
    | zero => exact ⟨h,inv,hmu⟩
    | succ n ih =>
      obtain ⟨hist,inv,hmu⟩ := ih
      rw [Function.iterate_succ_apply']
      obtain ⟨hkept,hfree⟩ := evictOldest_kept (C := True) inv hmu
      exact ⟨evictOldest_history hist inv,hkept.1,hfree⟩
  exact (hall _).1

theorem startStep_history (h : HistoryInv s) (inv : ManagerInv s) (ht : s.startStep a = some t) :
    HistoryInv t := by
  cases a with
  | start i target =>
    simp only [Manager.startStep] at ht
    split at ht
    · rename_i hu
      obtain rfl := Option.some.inj ht
      exact h.go inv hu ⟨rfl,rfl,rfl,rfl,fun _ _ _ => (by simp)⟩
    · cases ht
  | insert i =>
    simp only [Manager.startStep] at ht
    split at ht
    · rename_i target context hu
      split_ifs at ht with hmu hrunning hfull
      · obtain rfl := Option.some.inj ht
        exact h.go inv hu ⟨rfl,rfl,rfl,rfl,fun _ _ _ => (by simp)⟩
      · obtain rfl := Option.some.inj ht
        exact h.go inv hu ⟨rfl,rfl,rfl,rfl,fun _ _ _ => (by simp)⟩
      · obtain rfl := Option.some.inj ht
        have hmu : s.mu = false := by simpa using hmu
        rw [← evictLocked_setThread]
        have hborn := born_kept (C := True) target context inv hu rfl
          hmu
        exact evictLocked_history (born_history h inv hu rfl rfl) hborn.1 hmu
    · cases ht
  | summarize i => exact summarize_history h inv ht
  | saveRun i => exact saveRun_history h inv ht
  | _ => cases ht

end Starts

section Turns

variable {s t : Manager} {i q : ℕ} {a : Act} {u : Thread}

theorem unhydrated_history {goal : Goal} (h : HistoryInv s) (inv : ManagerInv s)
    (hu : s.threads i = u) (hsaved : u.unsaved = none) (herases : u.erases = []) :
    HistoryInv (s.unhydrated i q goal) := by
  cases goal with
  | addTurn turn => exact h.go inv hu ⟨hsaved,herases,rfl,rfl,fun _ _ _ => (by simp)⟩
  | stop => exact h.go inv hu ⟨hsaved,herases,rfl,rfl,fun _ _ _ => (by simp)⟩
  | subscribe => exact h.go inv hu ⟨hsaved,herases,rfl,rfl,fun _ _ _ => (by simp)⟩

/-- The rows of some moment are read. -/
theorem load_history {fails : Bool} (h : HistoryInv s) (inv : ManagerInv s)
    (ht : s.hydrateStep (.load i fails) = some t) : HistoryInv t := by
  simp only [Manager.hydrateStep] at ht
  split at ht
  · rename_i q goal stamp hu
    split_ifs at ht with hwait hfails
    · obtain rfl := Option.some.inj ht
      exact unhydrated_history h inv hu rfl rfl
    · split at ht
      · obtain rfl := Option.some.inj ht
        exact unhydrated_history h inv hu rfl rfl
      · rename_i events hload
        obtain rfl := Option.some.inj ht
        have hrows : events = s.rowsAt s.applied q := by
          unfold Tables.loadEvents at hload
          split_ifs at hload
          exact (Option.some.inj hload).symm
        have hops : (s.setThread i (.loaded q goal events)).ops = s.ops++[] :=
          (List.append_nil _).symm
        refine h.quiet inv (fun r => ?_) h.open_ h.hasStore fun _ hr => hr
        refine quiet_thread hu rfl rfl (Nat.le_refl _) rfl hops (by simp) Iff.rfl (by simp) Iff.rfl ?_
        intro goal' events' hsame hrec hyd
        cases hsame
        rw [hrows]
        exact hrec.rows hyd s.applied inv.written
  · cases ht

/-- A log that is installed is the one that the store has. -/
theorem install_history (h : HistoryInv s) (inv : ManagerInv s)
    (ht : s.hydrateStep (.install i) = some t) : HistoryInv t := by
  simp only [Manager.hydrateStep] at ht
  split at ht
  · rename_i q goal events hu
    split_ifs at ht with hlocked
    split at ht
    · obtain rfl := Option.some.inj ht
      exact unhydrated_history h inv hu rfl rfl
    · rename_i b hinstall
      obtain rfl := Option.some.inj ht
      have hpasses : Passes (.loaded q goal events) (.ready q goal) :=
        ⟨rfl,rfl,rfl,rfl,fun _ _ _ => (by simp)⟩
      rcases install_spec hinstall with ⟨_,rfl⟩ | ⟨hyd,hstore,rfl,hclosed⟩
      · exact h.put inv hu hpasses (Tells.of_core rfl) (.inl ⟨rfl,rfl⟩)
      · have hkept := kept_of_unlocked inv hlocked
        have hrec : Recorded s q ∧ ∀ j, (s.threads j).unsaved ≠ some q := by
          cases h.told q with
          | fresh h _ _ => cases hyd.symm.trans h.hydrated
          | recorded h saved _ => exact ⟨h,saved⟩
          | erased _ _ _ thread =>
            obtain ⟨j,hj⟩ := thread
            exact absurd hj (hkept j)
          | gone _ _ store _ => cases hstore.symm.trans store
        obtain ⟨hrec,hsaved⟩ := hrec
        have hwritten : events = s.written q := by
          rcases hrec.loaded hyd i goal events hu with hsame | ⟨hdead,hbetween⟩
          · exact hsame
          · cases last_closed hbetween (by
              rw [List.getLast?_map, Option.map_map]
              exact hclosed hdead)
        have hid := inv.ids q
        generalize ht : (s.put q ({ s.runs q with events := events, hydrated := true },[])).setThread
          i (.ready q goal) = t
        have hops : t.ops = s.ops++[] := by
          rw [← ht]
          exact enqueue_open h.open_ _
        have hrun : t.runs q = { s.runs q with events := events, hydrated := true } := by
          rw [← ht]
          exact Function.update_self ..
        have htables : t.tables = s.tables := by rw [← ht]; rfl
        have hthreads : t.threads = Function.update s.threads i (.ready q goal) := by
          rw [← ht]
          rfl
        have hmade : s.made ≤ t.made := by
          rw [← ht]
          exact Nat.le_refl _
        have hfinal : t.final = s.final := final_append htables hops
        have hsame : t.written q = s.written q := written_append htables hops q
        have told : Told t q := by
          refine .recorded ⟨?_,⟨?_,fun _ => ?_,?_,fun hopen => ?_⟩,?_,fun hn => ?_,fun hn => ?_⟩
            (fun j => ?_) fun j => ?_
          · rw [hrun]
            exact hstore
          · rw [hrun, hfinal]
            exact hrec.shown.row
          · rw [hrun, hfinal]
            show s.final.events (s.runs q).id = events
            rw [hid, hrec.written, hwritten]
          · rw [hrun, hfinal]
            exact hrec.shown.numbered
          · rw [hrun]
            rw [hrun, hfinal] at hopen
            exact hrec.shown.running hopen
          · rw [hfinal, hsame, hrec.written]
          · rw [hrun] at hn
            cases hn
          · rw [hrun] at hn
            cases hn
          · rw [hthreads]
            by_cases hj : j = i
            · rw [hj, Function.update_self]
              simp [Thread.unsaved]
            · rw [Function.update_of_ne hj]
              exact hsaved j
          · rw [hthreads]
            by_cases hj : j = i
            · rw [hj, Function.update_self]
              exact List.not_mem_nil
            · rw [Function.update_of_ne hj]
              exact hkept j
        refine h.one inv (fun r hr => hpasses.quiet hu hthreads ?_ hmade htables hops (by simp)) told
          ((h.past q).step told ?_ htables hops (Nat.zero_le _) ?_ ?_) ?_ ?_ (fun r _ hr => ?_)
          fun _ => ?_
        · rw [← ht]
          show (Function.update s.runs q _ r).core = _
          rw [Function.update_of_ne hr]
        · rw [hrun]
          exact hid
        · rw [hsame]
          exact (h.past q).numbered
        · rw [hsame]
        · rw [← ht]
          exact h.open_
        · rw [← ht]
          exact h.hasStore
        · rw [← ht]
          exact hr
        · rw [← ht]
          exact h.attached q hstore
  · cases ht

theorem launch_history {turn : RunTurn} (h : HistoryInv s) (inv : ManagerInv s)
    (hu : s.threads i = u) (hold : u.hold = some (q,.reserved)) (hsaved : u.unsaved = none)
    (herases : u.erases = []) (ht : s.launch i q turn = some t) : HistoryInv t := by
  have hthere := ((inv.held hu hold).held (by simp)).2
  unfold Manager.launch at ht
  split_ifs at ht with hlocked
  have hq := saved_of_hold inv hu hold hsaved
  have hkept := kept_of_unlocked inv hlocked
  split at ht
  · obtain rfl := Option.some.inj ht
    exact h.put inv hu ⟨hsaved,herases,rfl,rfl,fun _ _ _ => (by simp)⟩ (release_tells _)
      (.inr ⟨hq,hkept⟩)
  · rename_i done hlaunch
    obtain rfl := Option.some.inj ht
    exact h.put inv hu ⟨hsaved,herases,rfl,rfl,fun _ _ _ => (by simp)⟩ (launch_tells hlaunch hthere)
      (.inr ⟨hq,hkept⟩)

theorem beginTurn_history (h : HistoryInv s) (inv : ManagerInv s)
    (ht : s.turnStep (.beginTurn i) = some t) : HistoryInv t := by
  simp only [Manager.turnStep] at ht
  split at ht
  · rename_i q turn hu
    split_ifs at ht with hbusy hexplain hgone
    · obtain rfl := Option.some.inj ht
      exact h.go inv hu ⟨rfl,rfl,rfl,rfl,fun _ _ _ => (by simp)⟩
    · obtain rfl := Option.some.inj ht
      exact h.go inv hu ⟨rfl,rfl,rfl,rfl,fun _ _ _ => (by simp)⟩
    split at ht
    · obtain rfl := Option.some.inj ht
      exact h.go inv hu ⟨rfl,rfl,rfl,rfl,fun _ _ _ => (by simp)⟩
    · rename_i done hbegin
      obtain rfl := Option.some.inj ht
      have hidle : (s.runs q).inFlight = false := by
        by_contra hin
        simp only [Run.beginTurn, if_pos (show (s.runs q).inFlight = true by simpa using hin)]
          at hbegin
        cases hbegin
      have hq : q ∈ s.order := by
        by_contra hn
        exact hgone (.inl hn)
      have hready := inv.threads i
      rw [hu] at hready
      have hyd : (s.runs q).hydrated = true := by
        rcases hready (by simp) with hyd | hstore
        · exact hyd
        · exact (inv.order q hq).2.2.resolve_right (by simp [hstore])
      exact h.put inv hu ⟨rfl,rfl,rfl,rfl,fun _ _ _ => (by simp)⟩ (beginTurn_tells hbegin hyd)
        (.inr ⟨saved_of_idle inv hidle,kept_of_unlocked inv fun hn => hbusy (.inr hn)⟩)
  · cases ht

theorem taking_hydrated (inv : ManagerInv s) (q : ℕ) :
    (s.runs q).taking = true → (s.runs q).hydrated = true := by
  intro ht
  by_contra hyd
  cases ht.symm.trans (inv.not_taking (by simpa using hyd))

theorem stop_history (h : HistoryInv s) (inv : ManagerInv s) (honest : HonestAt s (.stop i))
    (ht : s.turnStep (.stop i) = some t) : HistoryInv t := by
  simp only [Manager.turnStep] at ht
  split at ht
  · rename_i q hu
    split_ifs at ht with hlocked
    obtain rfl := Option.some.inj ht
    refine h.put inv hu ⟨rfl,rfl,rfl,rfl,fun _ _ _ => (by simp)⟩ (stop_tells (taking_hydrated inv q)) ?_
    cases htaking : (s.runs q).taking with
    | false =>
      left
      rw [Run.stop, htaking]
      exact ⟨rfl,rfl⟩
    | true =>
      have hrow := honest.1 q (by simp [Manager.interrupted, hu, htaking])
      exact .inr ⟨h.saved_of_row hrow,kept_of_unlocked inv hlocked⟩
  · cases ht

theorem turnStep_history (h : HistoryInv s) (inv : ManagerInv s) (honest : HonestAt s a)
    (ht : s.turnStep a = some t) : HistoryInv t := by
  cases a with
  | launch i =>
    simp only [Manager.turnStep] at ht
    split at ht
    · rename_i r hu
      exact launch_history h inv hu rfl rfl rfl ht
    · rename_i r turn hu
      exact launch_history h inv hu rfl rfl rfl ht
    · cases ht
  | beginTurn i => exact beginTurn_history h inv ht
  | stop i => exact stop_history h inv honest ht
  | _ => cases ht

variable {bindRootCauseEvidence : List RunEvent → Verdict → Verdict}

theorem agentStep_history (h : HistoryInv s) (inv : ManagerInv s)
    (ht : s.agentStep bindRootCauseEvidence a = some t) : HistoryInv t := by
  cases a with
  | emit i e =>
    simp only [Manager.agentStep] at ht
    split at ht
    · rename_i q turn hu
      split_ifs at ht with hrefused
      obtain rfl := Option.some.inj ht
      have hthere := ((inv.held hu rfl).held (by simp)).2
      have hlocked : q ∉ s.locked := fun hq => hrefused (.inl hq)
      have hsame : s.put q ((s.runs q).appendStreamEvent e) =
          (s.put q ((s.runs q).appendStreamEvent e)).setThread i (.running q turn) := by
        have hthreads : Function.update s.threads i (.running q turn) = s.threads := by
          rw [← hu, Function.update_eq_self]
        show _ = { s.put q ((s.runs q).appendStreamEvent e) with
          threads := Function.update s.threads i (.running q turn) }
        rw [hthreads]
        rfl
      rw [hsame]
      exact h.put inv hu ⟨rfl,rfl,rfl,rfl,fun _ _ _ => (by simp)⟩ (emit_tells hthere)
        (.inr ⟨saved_of_hold inv hu rfl rfl,kept_of_unlocked inv hlocked⟩)
    · cases ht
  | agentReturns i diag turnErr outcome timeout =>
    simp only [Manager.agentStep] at ht
    split at ht
    · rename_i q turn hu
      split_ifs at ht with happly
      · obtain rfl := Option.some.inj ht
        obtain ⟨terminal,verify,hclosing,_⟩ := closing_spec s q turn diag turnErr outcome timeout
        rw [hclosing]
        exact h.go inv hu ⟨rfl,rfl,rfl,rfl,fun _ _ _ => (by simp)⟩
      · obtain rfl := Option.some.inj ht
        exact h.go inv hu ⟨rfl,rfl,rfl,rfl,fun _ _ _ => (by simp)⟩
    · cases ht
  | finish i =>
    simp only [Manager.agentStep] at ht
    split at ht
    · rename_i q turn diag turnErr timeout hu
      split_ifs at ht with hlocked
      obtain rfl := Option.some.inj ht
      have hthere := ((inv.held hu rfl).held (by simp)).2
      exact h.put inv hu ⟨rfl,rfl,rfl,rfl,fun _ _ _ => (by simp)⟩ (finishTurn_tells hthere _ _ _ _)
        (.inr ⟨saved_of_hold inv hu rfl rfl,kept_of_unlocked inv hlocked⟩)
    · rename_i q turn terminal hu
      split_ifs at ht with hlocked
      obtain rfl := Option.some.inj ht
      have hthere := ((inv.held hu rfl).held (by simp)).2
      have hok := inv.threads i
      rw [hu] at hok
      exact h.put inv hu ⟨rfl,rfl,rfl,rfl,fun _ _ _ => (by simp)⟩ (finishApply_tells hthere hok.1)
        (.inr ⟨saved_of_hold inv hu rfl rfl,kept_of_unlocked inv hlocked⟩)
    · rename_i q turn terminal question hu
      split_ifs at ht with hlocked
      have hthere := ((inv.held hu rfl).held (by simp)).2
      have hq := saved_of_hold inv hu rfl rfl
      split at ht
      · obtain rfl := Option.some.inj ht
        exact h.put inv hu ⟨rfl,rfl,rfl,rfl,fun _ _ _ => (by simp)⟩ (release_tells _)
          (.inr ⟨hq,kept_of_unlocked inv hlocked⟩)
      · rename_i done hdone
        obtain rfl := Option.some.inj ht
        exact h.put inv hu ⟨rfl,rfl,rfl,rfl,fun _ _ _ => (by simp)⟩ (verify_tells hdone hthere)
          (.inr ⟨hq,kept_of_unlocked inv hlocked⟩)
    · cases ht
  | _ => cases ht

end Turns

section Sweeps

variable {s t : Manager} {i q : ℕ} {a : Act} {u v : Thread}

theorem stale_history (h : HistoryInv s) (inv : ManagerInv s) (hu : s.threads i = u)
    (p : Passes u v) (hlocked : q ∉ s.locked)
    (hsaved : (s.runs q).live = true → ∀ j, (s.threads j).unsaved ≠ some q) :
    HistoryInv ((s.put q (s.runs q).markStale).setThread i v) := by
  refine h.put inv hu p markStale_tells ?_
  cases hlive : (s.runs q).live with
  | false =>
    left
    have hover : (s.runs q).status = .stale ∨ (!(s.runs q).live) = true := .inr (by simp [hlive])
    rw [markStale, if_pos hover]
    exact ⟨rfl,rfl⟩
  | true => exact .inr ⟨hsaved hlive,kept_of_unlocked inv hlocked⟩

theorem sweep_history (rs : List ℕ) :
    ∀ s : Manager, HistoryInv s → ManagerInv s → s.threads i = .idle → s.locked = [] → rs.Nodup →
      (∀ r ∈ rs, (s.runs r).context ≠ s.ctx → (s.runs r).live = true →
        ∀ j, (s.threads j).unsaved ≠ some r) →
      HistoryInv (rs.foldl (fun s r => if (s.runs r).context ≠ s.ctx then
        s.put r (s.runs r).markStale else s) s) := by
  induction rs with
  | nil => exact fun s h _ _ _ _ _ => h
  | cons q rs ih =>
    intro s h inv hu hlocked hnodup hsaved
    obtain ⟨hq,hrest⟩ := List.nodup_cons.mp hnodup
    rw [List.foldl_cons]
    by_cases hforeign : (s.runs q).context ≠ s.ctx
    · rw [if_pos hforeign]
      have hsame : s.put q (s.runs q).markStale =
          (s.put q (s.runs q).markStale).setThread i .idle := by
        have hthreads : Function.update s.threads i .idle = s.threads := by
          rw [← hu, Function.update_eq_self]
        show _ = { s.put q (s.runs q).markStale with
          threads := Function.update s.threads i .idle }
        rw [hthreads]
        rfl
      have hone : HistoryInv (s.put q (s.runs q).markStale) := by
        rw [hsame]
        exact stale_history h inv hu ⟨rfl,rfl,rfl,rfl,fun _ _ _ => (by simp)⟩ (by simp [hlocked])
          (hsaved q List.mem_cons_self hforeign)
      have hkept : ManagerInv (s.put q (s.runs q).markStale) := by
        rw [hsame]
        exact (stale_kept (v := .idle) inv hu rfl rfl (by simp) trivial (by simp [hlocked])).1
      refine ih _ hone hkept hu hlocked hrest fun r hr hctx hlive => ?_
      have hne : r ≠ q := fun he => hq (he ▸ hr)
      have hrun : (s.put q (s.runs q).markStale).runs r = s.runs r :=
        Function.update_of_ne hne _ _
      rw [hrun] at hctx hlive
      exact hsaved r (List.mem_cons_of_mem q hr) hctx hlive
    · rw [if_neg hforeign]
      exact ih s h inv hu hlocked hrest fun r hr => hsaved r (List.mem_cons_of_mem q hr)

theorem get_history {r : ℕ} {goal : Goal} (h : HistoryInv s) (inv : ManagerInv s)
    (honest : HonestAt s (.get i r goal)) (ht : s.hydrateStep (.get i r goal) = some t) :
    HistoryInv t := by
  simp only [Manager.hydrateStep] at ht
  split at ht
  · rename_i hu
    have hswept : s.mu = false → HistoryInv s.sweepForeign := by
      intro hmu
      unfold Manager.sweepForeign
      by_cases hnone : s.ctx = "" ∨ s.ctx = s.sweptCtx
      · rw [if_pos hnone]
        exact h
      · rw [if_neg hnone]
        have hone : HistoryInv { s with sweptCtx := s.ctx } :=
          h.same inv rfl rfl rfl rfl rfl rfl rfl rfl
        have hkept : Kept s { s with sweptCtx := s.ctx } True :=
          Kept.same inv rfl rfl rfl rfl rfl rfl rfl rfl rfl
        refine sweep_history s.order { s with sweptCtx := s.ctx } hone hkept.1 hu
          (inv.unlocked hmu) inv.nodup fun q hq hforeign hlive j => ?_
        refine h.saved_of_row (honest.1 q ?_) j
        rw [Manager.interrupted, if_neg hnone, List.mem_filter]
        exact ⟨hq,by simpa using ⟨hforeign,hlive⟩⟩
    have hinv : s.mu = false → ManagerInv s.sweepForeign := fun hmu =>
      (sweepForeign_kept inv hu rfl (fun _ => trivial) hmu).1
    split_ifs at ht with hmu hrefused hthere hgoal
    all_goals
      obtain rfl := Option.some.inj ht
      have hfree : s.mu = false := by simpa using hmu
      have hidle : s.sweepForeign.threads i = .idle := by rw [(sweepForeign_frame s).1, hu]
    · exact (hswept hfree).thread (v := .looked r goal) (hinv hfree) hidle
        ⟨rfl,rfl,rfl,rfl,fun _ _ _ => (by simp)⟩ rfl rfl rfl rfl rfl rfl rfl rfl
    · exact (hswept hfree).thread (v := .looked r goal) (hinv hfree) hidle
        ⟨rfl,rfl,rfl,rfl,fun _ _ _ => (by simp)⟩ rfl rfl rfl rfl rfl rfl rfl rfl
    · exact hswept hfree
  · cases ht

theorem hydrateStep_history (h : HistoryInv s) (inv : ManagerInv s) (honest : HonestAt s a)
    (ht : s.hydrateStep a = some t) : HistoryInv t := by
  cases a with
  | get i r goal => exact get_history h inv honest ht
  | hydrate i =>
    simp only [Manager.hydrateStep] at ht
    split at ht
    · rename_i q goal hu
      split_ifs at ht with hlocked hready
      · obtain rfl := Option.some.inj ht
        exact h.go inv hu ⟨rfl,rfl,rfl,rfl,fun _ _ _ => (by simp)⟩
      · obtain rfl := Option.some.inj ht
        exact h.go inv hu ⟨rfl,rfl,rfl,rfl,fun _ _ _ => (by simp)⟩
    · cases ht
  | load i fails => exact load_history h inv ht
  | install i => exact install_history h inv ht
  | _ => cases ht

theorem sweepStep_history (h : HistoryInv s) (inv : ManagerInv s) (honest : HonestAt s a)
    (ht : s.sweepStep a = some t) : HistoryInv t := by
  cases a with
  | onContextSwitch i | shutdown i =>
    simp only [Manager.sweepStep] at ht
    split at ht
    · rename_i hu
      split_ifs at ht with hmu
      obtain rfl := Option.some.inj ht
      exact h.go inv hu ⟨rfl,rfl,rfl,rfl,fun _ _ _ => (by simp)⟩
    · cases ht
  | markStale i =>
    simp only [Manager.sweepStep] at ht
    split at ht
    · rename_i q todo hu
      split_ifs at ht with hlocked
      obtain rfl := Option.some.inj ht
      refine stale_history h inv hu ⟨rfl,rfl,rfl,rfl,fun _ _ _ => (by simp)⟩ hlocked fun hlive => ?_
      exact h.saved_of_row (honest.1 q (by simp [Manager.interrupted, hu, hlive]))
    · rename_i hu
      obtain rfl := Option.some.inj ht
      exact h.go inv hu ⟨rfl,rfl,rfl,rfl,fun _ _ _ => (by simp)⟩
    · cases ht
  | shutdownRun i =>
    simp only [Manager.sweepStep] at ht
    split at ht
    · rename_i q todo hu
      split_ifs at ht with hlocked
      obtain rfl := Option.some.inj ht
      refine h.put inv hu ⟨rfl,rfl,rfl,rfl,fun _ _ _ => (by simp)⟩
        (shutdown_tells (taking_hydrated inv q)) ?_
      cases htaking : (s.runs q).taking with
      | false =>
        left
        rw [Run.shutdown, htaking]
        exact ⟨rfl,rfl⟩
      | true =>
        have hrow := honest.1 q (by simp [Manager.interrupted, hu, htaking])
        exact .inr ⟨h.saved_of_row hrow,kept_of_unlocked inv hlocked⟩
    · cases ht
  | closeStore i => exact honest.2.elim
  | _ => cases ht

end Sweeps

section Clears

variable {s t : Manager} {i q : ℕ} {a : Act} {kept dropped : List ℕ}

/-- What the deletion of the finished runs leaves of a row. -/
theorem clear_rows (t : Tables) (r : ℕ) :
    (t.apply (.clearTerminal true)).runs r = (if t.isRunning r then t.runs r else none) ∧
      (t.apply (.clearTerminal true)).events r = (if t.isRunning r then t.events r else []) :=
  ⟨rfl,rfl⟩

theorem isRunning_none {t : Tables} {r : ℕ} (h : t.runs r = none) : t.isRunning r = false := by
  rw [Tables.isRunning, h]

/-- The row of a run has its status. -/
theorem Recorded.isRunning (h : Recorded s q) (hid : (s.runs q).id = q) :
    s.final.isRunning q = true ↔ (s.runs q).status = .running := by
  obtain ⟨sum,hrow,hforget⟩ := h.shown.row
  rw [hid] at hrow
  have hstatus : sum.status = (s.runs q).status := by
    rw [← forget_status, hforget, forget_status]
    rfl
  rw [Tables.isRunning, hrow]
  show decide (sum.status = .running) = true ↔ _
  rw [hstatus, decide_eq_true_iff]

/-- What a run is told after the finished runs are deleted. -/
theorem Told.cleared (h : HistoryInv s) (inv : ManagerInv s)
    (hu : s.threads i = .clearing [] kept dropped)
    (hkept : ∀ r ∈ kept, (s.runs r).status = .running) (hruns : t.runs = s.runs)
    (htables : t.tables = s.tables) (hops : t.ops = s.ops++[StoreOp.clearTerminal true])
    (hmade : t.made = s.made) {stamp : ℕ}
    (hthreads : t.threads = Function.update s.threads i (.deleting kept dropped stamp true))
    (r : ℕ) : Told t r := by
  have hthread := inv.threads i
  rw [hu] at hthread
  obtain ⟨hlocked,hperm⟩ := hthread
  have hfinal : t.final = s.final.apply (.clearTerminal true) := final_append htables hops
  have hwritten : t.written r = s.written r := by
    rw [written_append htables hops]
    rfl
  have hid := inv.ids r
  have hsaved : ∀ j, (t.threads j).unsaved = (s.threads j).unsaved := by
    intro j
    rw [hthreads]
    by_cases hj : j = i
    · rw [hj, Function.update_self, hu]
      rfl
    · rw [Function.update_of_ne hj]
  have hplain : ∀ j, (s.threads j).erases = [] := by
    intro j
    by_cases hj : j = i
    · rw [hj, hu]
      rfl
    · have hc := inv.only hu rfl j hj
      cases hw : s.threads j with
      | deleting kept dropped stamp commits =>
        rw [hw] at hc
        cases hc
      | _ => rfl
  have hremoved : s.final.isRunning r = false →
      ((s.runs r).hydrated = true → s.written r <+: (s.runs r).events) → Removed t r := by
    intro hrunning hevents
    refine ⟨?_,?_,?_⟩
    · rw [hfinal, (clear_rows _ _).1, hrunning]
      rfl
    · rw [hfinal, (clear_rows _ _).2, hrunning]
      rfl
    · rw [hruns, hwritten]
      exact hevents
  cases h.told r with
  | fresh f thread summary =>
    obtain ⟨j,hj⟩ := thread
    have hnone := isRunning_none f.row
    refine .fresh ?_ ⟨j,by rw [hsaved, hj]⟩ fun k sum hk => ?_
    · exact
        { store := by rw [hruns]; exact f.store
          status := by rw [hruns]; exact f.status
          hydrated := by rw [hruns]; exact f.hydrated
          events := by rw [hruns]; exact f.events
          row := by rw [hfinal, (clear_rows _ _).1, hnone]; rfl
          rows := by rw [hfinal, (clear_rows _ _).2, hnone]; rfl
          written := hwritten.trans f.written }
    · rw [hruns]
      rw [hthreads] at hk
      by_cases hki : k = i
      · rw [hki, Function.update_self] at hk
        cases hk
      · rw [Function.update_of_ne hki] at hk
        exact summary k sum hk
  | recorded hrec saved _ =>
    by_cases hs : (s.runs r).status = .running
    · have hrunning := (hrec.isRunning hid).mpr hs
      have hrow : t.final.runs r = s.final.runs r := by
        rw [hfinal, (clear_rows _ _).1, hrunning]
        rfl
      have hrows : t.final.events r = s.final.events r := by
        rw [hfinal, (clear_rows _ _).2, hrunning]
        rfl
      have hread : ∀ events, Readable s r events → Readable t r events := by
        intro events
        rw [Readable, Readable, hwritten, hruns]
        exact fun he => he
      refine .recorded ⟨?_,?_,?_,fun hyd n hn => ?_,fun hyd j goal events hj => ?_⟩ (fun j => ?_)
        fun j hj => ?_
      · rw [hruns]
        exact hrec.store
      · rw [hruns]
        exact hrec.shown.quiet rfl (by rw [hid]; exact hrow) (by rw [hid]; exact hrows)
      · rw [hrows, hwritten]
        exact hrec.written
      · rw [hruns] at hyd
        by_cases hold : n ≤ s.ops.length
        · have hsame : t.rowsAt n r = s.rowsAt n r :=
            congrArg (fun t => Tables.events t r) (tablesAt_append htables hops hold)
          rw [hsame]
          exact hread _ (hrec.rows hyd n hold)
        · left
          have hlast : n = t.ops.length := by
            rw [hops, List.length_append, List.length_singleton] at hn ⊢
            omega
          show (t.tablesAt n).events r = _
          rw [hlast, tablesAt_length, hrows, hwritten, hrec.written]
      · rw [hruns] at hyd
        rw [hthreads] at hj
        by_cases hji : j = i
        · rw [hji, Function.update_self] at hj
          cases hj
        · rw [Function.update_of_ne hji] at hj
          exact hread _ (hrec.loaded hyd j goal events hj)
      · rw [hsaved]
        exact saved j
      · rw [hthreads] at hj
        by_cases hji : j = i
        · rw [hji, Function.update_self] at hj
          exact inv.locked r (hlocked ▸ hj) hs
        · rw [Function.update_of_ne hji, hplain j] at hj
          cases hj
    · have hrunning : s.final.isRunning r = false := by
        by_contra hn
        exact hs ((hrec.isRunning hid).mp (by simpa using hn))
      refine .erased (hremoved hrunning fun hyd => (h.told r).written_events hid hyd) (fun j => ?_)
        ?_ ⟨i,?_⟩
      · rw [hsaved]
        exact saved j
      · rw [hruns]
        exact hrec.store
      · rw [hthreads, Function.update_self]
        have hin : r ∈ kept++dropped := by
          have horder := hperm.symm.subset (h.attached r hrec.store)
          simpa using horder
        rcases List.mem_append.mp hin with hin | hin
        · exact absurd (hkept r hin) hs
        · exact hin
  | erased _ _ _ thread =>
    obtain ⟨j,hj⟩ := thread
    rw [hplain j] at hj
    cases hj
  | gone hg saved store unborn =>
    refine .gone (hremoved (isRunning_none hg.row) hg.written) (fun j => ?_) ?_ fun hm => ?_
    · rw [hsaved]
      exact saved j
    · rw [hruns]
      exact store
    · rw [hwritten]
      exact unborn (hmade ▸ hm)

theorem clearTerminal_history {commits : Bool} (h : HistoryInv s) (inv : ManagerInv s)
    (honest : HonestAt s (.clearTerminal i commits))
    (ht : s.clearStep (.clearTerminal i commits) = some t) : HistoryInv t := by
  simp only [Manager.clearStep] at ht
  split at ht
  · rename_i kept dropped hu
    have hstore : (!s.hasStore) = false := by rw [h.hasStore]; rfl
    have hclosed := h.open_
    rw [if_neg (by simp [hstore]), if_neg (by simp [hclosed])] at ht
    obtain rfl := Option.some.inj ht
    have hops : ((s.enqueue [.clearTerminal commits]).setThread i
        (.deleting kept dropped (s.ops.length+1) commits)).ops = s.ops++[StoreOp.clearTerminal commits] :=
      enqueue_open h.open_ _
    cases commits with
    | false =>
      refine h.quiet inv (fun r => ?_) h.open_ h.hasStore fun _ hr => hr
      refine quiet_thread hu rfl rfl (Nat.le_refl _) rfl hops (fun op hop => ?_) Iff.rfl (by simp)
        Iff.rfl (by simp)
      rw [List.mem_singleton.mp hop]
      exact fun hclear => by cases hclear
    | true =>
      have hkept : ∀ r ∈ kept, (s.runs r).status = .running := by
        have hrunning := honest.2
        simp only [hu] at hrunning
        exact hrunning
      have told := Told.cleared h inv hu hkept (by rfl) (by rfl) hops rfl rfl
      refine
        { open_ := h.open_
          hasStore := h.hasStore
          attached := h.attached
          told := told
          past := fun r => (h.past r).step (told r) (inv.ids r) rfl hops (Nat.le_refl _) ?_ ?_ }
      · rw [written_append (by rfl) hops]
        exact (h.past r).numbered
      · rw [written_append (by rfl) hops]
        exact List.prefix_rfl
  · cases ht

/-- What the drops of several runs leave. -/
theorem drops_frame (dropped : List ℕ) : ∀ s : Manager,
    (dropped.foldl Manager.drop s).tables = s.tables ∧
      (dropped.foldl Manager.drop s).ops = s.ops ∧
      (dropped.foldl Manager.drop s).made = s.made ∧
      (dropped.foldl Manager.drop s).threads = s.threads ∧
      (dropped.foldl Manager.drop s).storeClosed = s.storeClosed ∧
      (dropped.foldl Manager.drop s).hasStore = s.hasStore := by
  induction dropped with
  | nil => exact fun _ => ⟨rfl,rfl,rfl,rfl,rfl,rfl⟩
  | cons q dropped ih =>
    intro s
    obtain ⟨htables,hops,hmade,hthreads,hclosed,hstore⟩ := ih (s.drop q)
    refine ⟨htables,?_,hmade,hthreads,hclosed,hstore⟩
    rw [List.foldl_cons, hops, Manager.drop, Manager.put, drop_ops, enqueue_nil]

theorem drops_runs (dropped : List ℕ) (r : ℕ) : ∀ s : Manager,
    (r ∉ dropped → (dropped.foldl Manager.drop s).runs r = s.runs r) ∧
      ((dropped.foldl Manager.drop s).runs r).id = (s.runs r).id ∧
      ((dropped.foldl Manager.drop s).runs r).hydrated = (s.runs r).hydrated ∧
      (s.runs r).events <+: ((dropped.foldl Manager.drop s).runs r).events ∧
      (r ∈ dropped ∨ (s.runs r).store = false →
        ((dropped.foldl Manager.drop s).runs r).store = false) := by
  induction dropped with
  | nil =>
    exact fun s => ⟨fun _ => rfl,rfl,rfl,List.prefix_rfl,fun h => h.resolve_left List.not_mem_nil⟩
  | cons q dropped ih =>
    intro s
    rw [List.foldl_cons]
    obtain ⟨hout,hid,hyd,hgrows,hstore⟩ := ih (s.drop q)
    by_cases hr : r = q
    · have hrun : (s.drop q).runs r = ({ s.runs r with store := false }.finalizeLocked).1 := by
        rw [hr]
        exact Function.update_self ..
      have d := drop_spec (s.runs r)
      rw [hrun] at hid hyd hgrows hstore
      refine ⟨fun hn => absurd (List.mem_cons.mpr (.inl hr)) hn,hid.trans d.id,hyd.trans d.hydrated,
        (drop_grows _).trans hgrows,fun _ => hstore (.inr d.store)⟩
    · have hrun : (s.drop q).runs r = s.runs r := Function.update_of_ne hr _ _
      rw [hrun] at hout hid hyd hgrows hstore
      refine ⟨fun hn => hout fun hin => hn (List.mem_cons_of_mem q hin),hid,hyd,hgrows,
        fun h => hstore (h.imp_left fun hin => (List.mem_cons.mp hin).resolve_left hr)⟩

/-- The runs that were deleted are dropped, and the history is free again. -/
theorem clearReturns_history (h : HistoryInv s) (inv : ManagerInv s)
    (ht : s.clearStep (.clearReturns i) = some t) : HistoryInv t := by
  simp only [Manager.clearStep] at ht
  split at ht
  · rename_i kept dropped stamp commits hu
    have hthread := inv.threads i
    rw [hu] at hthread
    obtain ⟨hlocked,hperm⟩ := hthread
    split_ifs at ht with hwait hcommits
    · obtain rfl := Option.some.inj ht
      rw [hcommits] at hu
      obtain ⟨htables,hops,hmade,hthreads,hclosed,hstore⟩ := drops_frame dropped s
      generalize hw : dropped.foldl Manager.drop s = w at htables hops hmade hthreads hclosed hstore
      generalize ht : ({ w with order := kept, mu := false, locked := [] }.setThread i .idle) = t
      have hruns : ∀ r, t.runs r = (dropped.foldl Manager.drop s).runs r := by
        intro r
        rw [← ht, hw]
        rfl
      have htables' : t.tables = s.tables := by rw [← ht, ← htables]; rfl
      have hops' : t.ops = s.ops++[] := by
        rw [← ht, ← hops, List.append_nil]
        rfl
      have hmade' : t.made = s.made := by rw [← ht, ← hmade]; rfl
      have hthreads' : t.threads = Function.update s.threads i .idle := by
        rw [← ht, ← hthreads]
        rfl
      have horder' : t.order = kept := by rw [← ht]; rfl
      have hfinal : t.final = s.final := final_append htables' hops'
      have hwritten : ∀ r, t.written r = s.written r := written_append htables' hops'
      have hdropped : ∀ r ∈ dropped, Told t r := by
        intro r hr
        obtain ⟨_,_,hyd,hgrows,hgone⟩ := drops_runs dropped r s
        rw [← hruns] at hyd hgrows hgone
        have hremoved : Removed s r ∧ ∀ j, (s.threads j).unsaved ≠ some r := by
          cases h.told r with
          | fresh f _ _ => exact absurd f.status (inv.locked r (hlocked ▸ hr))
          | recorded _ _ hkept =>
            refine absurd ?_ (hkept i)
            rw [hu]
            exact hr
          | erased hremoved saved _ _ => exact ⟨hremoved,saved⟩
          | gone hremoved saved _ _ => exact ⟨hremoved,saved⟩
        obtain ⟨hremoved,hsaved⟩ := hremoved
        refine .gone ⟨by rw [hfinal, hremoved.row],by rw [hfinal, hremoved.rows],fun hh => ?_⟩
          (fun j => ?_) (hgone (.inl hr)) fun hm => ?_
        · rw [hwritten]
          rw [hyd] at hh
          exact (hremoved.written hh).trans hgrows
        · rw [hthreads']
          by_cases hj : j = i
          · rw [hj, Function.update_self]
            simp [Thread.unsaved]
          · rw [Function.update_of_ne hj]
            exact hsaved j
        · have hin := hperm.subset (List.mem_append_right kept hr)
          have := (inv.order r hin).1
          omega
      have hothers : ∀ r ∉ dropped, Quiet s t r := by
        intro r hr
        refine quiet_thread hu hthreads' ?_ (Nat.le_of_eq hmade'.symm) htables' hops' (by simp) Iff.rfl
          (by simp) ?_ (by simp)
        · rw [hruns, (drops_runs dropped r s).1 hr]
        · exact ⟨fun he => (by cases he),fun hin => absurd hin hr⟩
      have told : ∀ r, Told t r := by
        intro r
        by_cases hr : r ∈ dropped
        · exact hdropped r hr
        · exact (h.told r).quiet (hothers r hr) (inv.ids r)
      refine
        { open_ := by
            rw [← ht]
            exact hclosed.trans h.open_
          hasStore := by
            rw [← ht]
            exact hstore.trans h.hasStore
          attached := fun r hr => ?_
          told := told
          past := fun r => (h.past r).step (told r) ?_ htables' hops' (Nat.zero_le _) ?_ ?_ }
      · rw [horder']
        obtain ⟨hsame,_,_,_,hgone⟩ := drops_runs dropped r s
        rw [hruns] at hr
        by_cases hin : r ∈ dropped
        · cases (hgone (.inl hin)).symm.trans hr
        · rw [hsame hin] at hr
          have hthere := hperm.symm.subset (h.attached r hr)
          exact (List.mem_append.mp hthere).resolve_right hin
      · rw [hruns, (drops_runs dropped r s).2.1]
        exact inv.ids r
      · rw [hwritten]
        exact (h.past r).numbered
      · rw [hwritten]
    · obtain rfl := Option.some.inj ht
      have hfalse : commits = false := by simpa using hcommits
      rw [hfalse] at hu
      exact h.thread (v := .idle) inv hu ⟨rfl,rfl,rfl,rfl,fun _ _ _ => (by simp)⟩ rfl rfl rfl rfl rfl
        rfl rfl rfl
  · cases ht

theorem clearStep_history (h : HistoryInv s) (inv : ManagerInv s) (honest : HonestAt s a)
    (ht : s.clearStep a = some t) : HistoryInv t := by
  cases a with
  | clearHistory i =>
    simp only [Manager.clearStep] at ht
    split at ht
    · rename_i hu
      split_ifs at ht with hmu
      obtain rfl := Option.some.inj ht
      exact h.thread (v := .clearing s.order [] []) inv hu ⟨rfl,rfl,rfl,rfl,fun _ _ _ => (by simp)⟩ rfl
        rfl rfl rfl rfl rfl rfl rfl
    · cases ht
  | visit i =>
    simp only [Manager.clearStep] at ht
    split at ht
    · rename_i r todo kept dropped hu
      split_ifs at ht with hrunning
      · obtain rfl := Option.some.inj ht
        exact h.go inv hu ⟨rfl,rfl,rfl,rfl,fun _ _ _ => (by simp)⟩
      · obtain rfl := Option.some.inj ht
        exact h.thread (v := .clearing todo kept (dropped++[r])) inv hu
          ⟨rfl,rfl,rfl,rfl,fun _ _ _ => (by simp)⟩ rfl rfl rfl rfl rfl rfl rfl rfl
    · cases ht
  | clearTerminal i commits => exact clearTerminal_history h inv honest ht
  | clearReturns i => exact clearReturns_history h inv ht
  | _ => cases ht

end Clears

section Steps

variable {s t : Manager} {i : ℕ} {a : Act} {bindRootCauseEvidence : List RunEvent → Verdict → Verdict}

theorem readStep_history (h : HistoryInv s) (inv : ManagerInv s) (ht : s.readStep a = some t) :
    HistoryInv t := by
  have hput : ∀ {w : Manager} {j : ℕ} {u : Thread} {q : ℕ} {b : Run}, HistoryInv w →
      ManagerInv w → w.threads j = u → Passes u u → b.core = (w.runs q).core →
      HistoryInv (w.put q (b,[])) := by
    intro w j u q b hw invw hu hp hcore
    have hsame : w.put q (b,[]) = (w.put q (b,[])).setThread j u := by
      have hthreads : Function.update w.threads j u = w.threads := by
        rw [← hu, Function.update_eq_self]
      show _ = { w.put q (b,[]) with threads := Function.update w.threads j u }
      rw [hthreads]
      rfl
    rw [hsame]
    exact hw.put invw hu hp (Tells.of_core hcore) (.inl ⟨hcore,rfl⟩)
  have hprocess : ∀ (j : ℕ) (e : RunEvent), HistoryInv (s.process j e) ∧
      ManagerInv (s.process j e) := by
    intro j e
    have hkept : Kept s (s.process j e) True :=
      Kept.same inv rfl rfl rfl rfl rfl rfl rfl rfl rfl
    exact ⟨h.same inv rfl rfl rfl rfl rfl rfl rfl rfl,hkept.1⟩
  cases a with
  | subscribe i =>
    simp only [Manager.readStep] at ht
    split at ht
    · rename_i q hu
      split_ifs at ht with hlocked
      obtain rfl := Option.some.inj ht
      exact h.put inv hu ⟨rfl,rfl,rfl,rfl,fun _ _ _ => (by simp)⟩ (Tells.of_core (subscribe_core _ _))
        (.inl ⟨subscribe_core _ _,rfl⟩)
    · cases ht
  | receive i =>
    simp only [Manager.readStep] at ht
    split at ht
    · rename_i q c e rest hu
      split_ifs at ht with hstopped
      obtain rfl := Option.some.inj ht
      exact (hprocess i e).1.go (hprocess i e).2 hu ⟨rfl,rfl,rfl,rfl,fun _ _ _ => (by simp)⟩
    · rename_i q c hu
      split_ifs at ht with hstopped
      split at ht
      · cases ht
      · rename_i e rest hbuf
        obtain rfl := Option.some.inj ht
        exact hput (hprocess i e).1 (hprocess i e).2 hu ⟨rfl,rfl,rfl,rfl,fun _ _ _ => (by simp)⟩
          (receive_core (s.runs q) c)
    · cases ht
  | cancel i =>
    simp only [Manager.readStep] at ht
    split at ht
    · rename_i q c backlog hu
      split_ifs at ht with hlocked
      obtain rfl := Option.some.inj ht
      exact hput h inv hu ⟨rfl,rfl,rfl,rfl,fun _ _ _ => (by simp)⟩ (cancelSub_core _ _)
    · cases ht
  | resubscribe i =>
    simp only [Manager.readStep] at ht
    split at ht
    · rename_i q c hu
      split_ifs at ht with hdone
      obtain rfl := Option.some.inj ht
      exact h.go inv hu ⟨rfl,rfl,rfl,rfl,fun _ _ _ => (by simp)⟩
    · cases ht
  | _ => cases ht

/-- Every honest step tells the store what it does. -/
theorem step_history (h : HistoryInv s) (inv : ManagerInv s) (honest : HonestAt s a)
    (ht : s.step bindRootCauseEvidence a = some t) : HistoryInv t := by
  rcases step_cases ht with ⟨_,_,rfl⟩ | ⟨context,_,rfl⟩ | ht | ht | ht | ht | ht | ht | ht
  · exact h.same inv rfl rfl rfl rfl rfl rfl rfl rfl
  · exact h.same inv rfl rfl rfl rfl rfl rfl rfl rfl
  · exact startStep_history h inv ht
  · exact hydrateStep_history h inv honest ht
  · exact turnStep_history h inv honest ht
  · exact agentStep_history h inv ht
  · exact sweepStep_history h inv honest ht
  · exact clearStep_history h inv honest ht
  · exact readStep_history h inv ht

end Steps

end Radar.Ai
