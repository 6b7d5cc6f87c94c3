import Mathlib.Data.List.Nodup
import Radar.Ai.TranscriptSound

/-!
# The steps that change the order of runs

Start adds a run and evicts what is beyond the cap; ClearHistory holds the
manager while it drops what has ended. Both detach a run that is no longer in
the order.
-/

set_option autoImplicit false

namespace Radar.Ai

open Radar.Numbered
open Radar.Ai.Run

section Order

variable {s t : Manager} {i q : ℕ} {u v : Thread} {C : Prop}

/-- What is left of a run that is dropped. -/
structure Dropped (a b : Run) : Prop where
  id : b.id = a.id
  hydrated : b.hydrated = a.hydrated
  inFlight : b.inFlight = a.inFlight
  status : b.status = a.status
  store : b.store = false
  live : b.live = false

theorem drop_spec (r : Run) : Dropped r ({ r with store := false }.finalizeLocked).1 := by
  cases hlive : r.live with
  | false =>
    have hlive' : Run.live { r with store := false } = false := hlive
    rw [finalizeLocked, hlive']
    exact ⟨rfl,rfl,rfl,rfl,rfl,hlive⟩
  | true =>
    have hcore := finalizeLocked_core (r := { r with store := false }) hlive
    exact
      { id := (core_id hcore :)
        hydrated := (core_hydrated hcore :)
        inFlight := (core_inFlight hcore :)
        status := (core_status hcore :)
        store := (core_store hcore :)
        live := (core_live hcore :) }

theorem Dropped.later {a b : Run} (d : Dropped a b) : Later a b where
  id := d.id
  hydrated hyd := d.hydrated.trans hyd
  store hs := by cases d.store.symm.trans hs
  live hl := by cases d.live.symm.trans hl

/-- A detached run enqueues nothing. -/
theorem drop_ops (r : Run) : ({ r with store := false }.finalizeLocked).2 = [] := by
  unfold finalizeLocked
  cases hlive : Run.live { r with store := false } with
  | false => rfl
  | true => cases hyd : r.hydrated <;> simp [persist]

/-- A run that is out of the order, and not running, is dropped. -/
theorem drop_kept (inv : ManagerInv s) (hq : q ∉ s.order) (hs : (s.runs q).status ≠ .running) :
    Kept s (s.drop q) C := by
  have hthere : s.drop q = (s.drop q).setThread 0 (s.threads 0) := by
    have hthreads : Function.update s.threads 0 (s.threads 0) = s.threads :=
      Function.update_eq_self 0 s.threads
    show _ = { s.drop q with threads := Function.update s.threads 0 (s.threads 0) }
    rw [hthreads]
    rfl
  obtain ⟨more,m,hmore⟩ :=
    moves_put s 0 (s.threads 0) q ({ s.runs q with store := false }.finalizeLocked)
  rw [drop_ops] at hmore
  obtain rfl : more = [] := by simpa using hmore
  change Moves s ((s.drop q).setThread 0 (s.threads 0)) 0 (s.threads 0) q _ [] at m
  rw [← hthere] at m
  have d := drop_spec (s.runs q)
  have later := d.later
  have other : ∀ r ≠ q, ∀ h, Holds (s.drop q) r h → Holds s r h :=
    fun _ _ _ hh => m.holds_same rfl hh
  constructor
  · exact inv.keeps
      { moves := m
        later := later
        inFlight := fun hin => .inl (d.inFlight.symm.trans hin)
        one := m.one_same inv rfl
        other := other
        ok := fun h hh => drop_ok (inv.ok q h (m.holds_same rfl hh)) hs
        order := fun hn => absurd hn hq
        stored := fun _ hstore => by cases d.store.symm.trans hstore
        others := fun _ _ _ hop => by cases hop
        thread := m.thread_ok later (inv.threads 0)
        unlocked := .inr (by rw [d.status]; exact hs)
        clears := fun hc => hc }
  · intro hlog _
    exact hlog.shift m.toShift other fun h hh => drop_log (hlog q h (m.holds_same rfl hh)) hs

/-- Another order, or other locks, by the one thread that may hold the manager. -/
theorem relock_kept {order l : List ℕ} {b : Bool} (inv : ManagerInv s)
    (hnodup : order.Nodup) (hsub : order ⊆ s.order) (hv : v.hold = (s.threads i).hold)
    (alone : ∀ j ≠ i, (s.threads j).clears = false)
    (hok : v.Ok { s with order := order, locked := l, mu := b })
    (hlocked : ∀ r ∈ l, (s.runs r).status ≠ .running) (hfree : b = false → l = [])
    (hc : v.clears = true → b = true) :
    Kept s ({ s with order := order, locked := l, mu := b }.setThread i v) C := by
  have m : Shift s ({ s with order := order, locked := l, mu := b }.setThread i v) i v 0
      (s.runs 0) := ⟨rfl,(Function.update_eq_self 0 s.runs).symm⟩
  have hclears : ∀ j, j ≠ i → ((Function.update s.threads i v) j).clears = false := by
    intro j hj
    rw [Function.update_of_ne hj]
    exact alone j hj
  constructor
  · exact
      { ids := inv.ids
        one := m.one_same inv hv
        ok := fun r h hh => inv.ok r h (m.holds_same hv hh)
        unborn := inv.unborn
        nodup := hnodup
        order := fun r hr => inv.order r (hsub hr)
        stored := inv.stored
        threads := by
          intro j
          by_cases hj : j = i
          · rw [hj, m.self]
            cases v <;> exact hok
          · rw [m.thread_of_ne hj]
            have hplain := alone j hj
            have hold := inv.threads j
            cases hu : s.threads j with
            | clearing todo kept dropped => rw [hu] at hplain; cases hplain
            | deleting kept dropped stamp commits => rw [hu] at hplain; cases hplain
            | _ => rw [hu] at hold; exact hold
        locked := hlocked
        unlocked := hfree
        clears := by
          intro j hj
          by_cases hji : j = i
          · rw [hji, m.self] at hj
            exact hc hj
          · cases (hclears j hji).symm.trans hj
        alone := by
          intro j l hj hl
          have hmine : ∀ {j}, (Function.update s.threads i v j).clears = true → j = i := by
            intro j hj
            by_contra hji
            cases (hclears j hji).symm.trans hj
          exact (hmine hj).trans (hmine hl).symm
        written := inv.written }
  · intro hlog _ r h hh
    exact hlog r h (m.holds_same hv hh)

/-- No thread clears the history while the manager is free. -/
theorem ManagerInv.free (inv : ManagerInv s) (hmu : s.mu = false) (j : ℕ) :
    (s.threads j).clears = false := by
  by_contra hc
  cases hmu.symm.trans (inv.clears j (by simpa using hc))

/-- Operations that leave every transcript alone. -/
theorem enqueue_kept (ops : List StoreOp) (inv : ManagerInv s)
    (harmless : ∀ r, ∀ op ∈ ops, Harmless r op) : Kept s (s.enqueue ops) C := by
  obtain ⟨more,hops,hmore⟩ := enqueue_ops s ops
  have m : Moves s (s.enqueue ops) 0 (s.threads 0) 0 (s.runs 0) more :=
    { threads := (Function.update_eq_self 0 s.threads).symm
      runs := (Function.update_eq_self 0 s.runs).symm
      tables := rfl, ops := hops, applied := rfl, made := rfl, order := rfl, locked := rfl
      mu := rfl }
  refine Kept.thread inv m rfl (fun r op hop => ?_)
    (m.thread_ok (Later.of_core rfl) (inv.threads 0)) fun hc => hc
  rcases hmore with rfl | rfl
  · exact absurd hop List.not_mem_nil
  · exact harmless r op hop

theorem evictOldest_kept (inv : ManagerInv s) (hmu : s.mu = false) :
    Kept s s.evictOldest C ∧ s.evictOldest.mu = false := by
  unfold Manager.evictOldest
  split
  · exact ⟨⟨inv,fun hlog _ => hlog⟩,hmu⟩
  · rename_i r hfind
    have hs : (s.runs r).status ≠ .running := by simpa using List.find?_some hfind
    have hfree := inv.unlocked hmu
    have hdrop : ({ s with order := s.order.erase r }.put r
        ({ s.runs r with store := false }.finalizeLocked)) =
        Manager.drop { s with order := s.order.erase r } r := rfl
    have hone : Kept s { s with order := s.order.erase r } C := by
      have hsame : ({ s with order := s.order.erase r } : Manager) =
          { s with order := s.order.erase r, locked := s.locked, mu := s.mu }.setThread 0
            (s.threads 0) := by
        unfold Manager.setThread
        rw [Function.update_eq_self]
      rw [hsame]
      refine relock_kept inv (inv.nodup.erase r) (List.erase_subset ..) rfl (fun j _ => inv.free hmu j) ?_ inv.locked
        inv.unlocked (inv.clears 0)
      have hplain := inv.free hmu 0
      have hold := inv.threads 0
      cases hu : s.threads 0 with
      | clearing todo kept dropped => rw [hu] at hplain; cases hplain
      | deleting kept dropped stamp commits => rw [hu] at hplain; cases hplain
      | _ => rw [hu] at hold; exact hold
    rw [hdrop]
    have htwo : Kept { s with order := s.order.erase r }
        (Manager.drop { s with order := s.order.erase r } r) C :=
      drop_kept hone.1 (by simp [inv.nodup.mem_erase_iff]) hs
    have hthree := enqueue_kept (C := C) (if s.hasStore then [.deleteRun r] else []) htwo.1 (by
        intro q op hop
        split_ifs at hop
        · rw [List.mem_singleton.mp hop]
          trivial
        · exact absurd hop List.not_mem_nil)
    exact ⟨((hone.trans htwo).trans hthree).weaken fun hcond => ⟨⟨hcond,hcond⟩,hcond⟩,hmu⟩

theorem evictLocked_kept (inv : ManagerInv s) (hmu : s.mu = false) :
    Kept s s.evictLocked C ∧ s.evictLocked.mu = false := by
  unfold Manager.evictLocked
  induction s.order.length-s.maxRetained with
  | zero => exact ⟨⟨inv,fun hlog _ => hlog⟩,hmu⟩
  | succ n ih =>
    rw [Function.iterate_succ_apply']
    obtain ⟨hkept,hfree⟩ := evictOldest_kept (C := C) ih.1.1 ih.2
    exact ⟨(ih.1.trans hkept).weaken fun hcond => ⟨hcond,hcond⟩,hfree⟩

end Order

section Starts

variable {s t : Manager} {i : ℕ} {C : Prop}

theorem newRun_ok (s : Manager) (target : Target) (context : String) :
    RunOk (some .reserved) (s.newRun target context) where
  held _ := ⟨rfl,rfl⟩
  free := (by simp)
  running _ := rfl
  stale := nofun
  numbered := trivial
  unhydrated := nofun
  detached := nofun

theorem born_kept (target : Target) (context : String) {u : Thread} (inv : ManagerInv s)
    (hu : s.threads i = u) (hold : u.hold = none) (hmu : s.mu = false) :
    Kept s ({ s with
      runs := Function.update s.runs s.made (s.newRun target context)
      made := s.made+1
      order := s.order++[s.made] }.setThread i (.inserted s.made)) C := by
  have hold : (s.threads i).hold = none := by rw [hu, hold]
  have m : Shift s ({ s with
      runs := Function.update s.runs s.made (s.newRun target context)
      made := s.made+1
      order := s.order++[s.made] }.setThread i (.inserted s.made)) i (.inserted s.made) s.made
      (s.newRun target context) := ⟨rfl,rfl⟩
  have hborn : s.made ∉ s.order := fun hin => Nat.lt_irrefl _ (inv.order _ hin).1
  have hfree : ∀ j l, (s.threads j).hold ≠ some (s.made,l) := by
    intro j l hj
    have hheld := (inv.ok s.made (some l) ⟨j,hj⟩).held (by simp)
    cases (inv.unborn s.made (Nat.le_refl _)).symm.trans hheld.1
  have new : (Thread.inserted s.made).hold = some (s.made,.reserved) := rfl
  have other : ∀ r ≠ s.made, ∀ h, Holds _ r h → Holds s r h :=
    fun r hr h hh => m.holds_other (.inl hold) (.inr ⟨_,new⟩) hr hh
  have ok := newRun_ok s target context
  constructor
  · exact
      { ids := m.runs_all (P := fun r run => run.id = r) inv.ids rfl
        one := m.one_move inv (.inr ⟨_,new⟩) fun _ j _ => hfree j
        ok := by
          intro r h hh
          by_cases hr : r = s.made
          · rw [hr] at hh
            rw [hr, m.run, m.holds_begin new hfree hh]
            exact ok
          · rw [m.run_of_ne hr]
            exact inv.ok r h (other r hr h hh)
        unborn := by
          intro r hr
          have hr : s.made+1 ≤ r := hr
          rw [m.run_of_ne (by omega)]
          exact inv.unborn r (by omega)
        nodup := by
          show (s.order++[s.made]).Nodup
          rw [← List.concat_eq_append]
          exact (List.nodup_concat _ _).mpr ⟨hborn,inv.nodup⟩
        order := by
          intro r hr
          show r < s.made+1 ∧ _
          rcases List.mem_append.mp (show r ∈ s.order++[s.made] from hr) with hr | hr
          · have hlt := (inv.order r hr).1
            rw [m.run_of_ne (by omega)]
            exact ⟨by omega,(inv.order r hr).2⟩
          · rw [List.mem_singleton.mp hr, m.run]
            exact ⟨by omega,.inl rfl,.inl rfl⟩
        stored := by
          refine m.runs_all (P := fun r run => run.hydrated = false → run.store = true →
            ∀ n ≤ s.ops.length, Restorable run.live (s.rowsAt n r)) inv.stored ?_
          nofun
        threads := by
          intro j
          by_cases hj : j = i
          · rw [hj, m.self]
            trivial
          · rw [m.thread_of_ne hj]
            have hplain := inv.free hmu j
            have hthread := inv.threads j
            cases hw : s.threads j with
            | clearing todo kept dropped => rw [hw] at hplain; cases hplain
            | deleting kept dropped stamp commits => rw [hw] at hplain; cases hplain
            | ready r goal =>
              rw [hw] at hthread
              exact fun hgoal => m.runs_all (P := fun k run => k = r →
                run.hydrated = true ∨ run.store = false)
                (fun k hk => by rw [hk]; exact hthread hgoal) (fun _ => .inl rfl) r rfl
            | loaded r goal events =>
              rw [hw] at hthread
              refine m.runs_all (P := fun k run => k = r → run.hydrated = false →
                run.store = true → Restorable run.live events)
                (fun k hk => by rw [hk]; exact hthread) ?_ r rfl
              exact fun _ => nofun
            | applied r turn terminal verify =>
              rw [hw] at hthread
              exact hthread
            | _ => trivial
        locked := by
          intro r hr
          have hr : r ∈ s.locked := hr
          rw [inv.unlocked hmu] at hr
          exact absurd hr List.not_mem_nil
        unlocked := inv.unlocked
        clears := by
          intro j hj
          by_cases hji : j = i
          · rw [hji, m.self] at hj
            cases hj
          · rw [m.thread_of_ne hji] at hj
            cases (inv.free hmu j).symm.trans hj
        alone := by
          intro j l hj _
          by_cases hji : j = i
          · rw [hji, m.self] at hj
            cases hj
          · rw [m.thread_of_ne hji] at hj
            cases (inv.free hmu j).symm.trans hj
        written := inv.written }
  · intro hlog _
    refine hlog.shift m other fun h hh => ?_
    rw [m.holds_begin new hfree hh]
    exact fun _ => rfl

/-- Eviction looks at the order and the runs only. -/
theorem evictLocked_setThread (s : Manager) (i : ℕ) (v : Thread) :
    (s.setThread i v).evictLocked = s.evictLocked.setThread i v := by
  have hone : ∀ s : Manager, (s.setThread i v).evictOldest = s.evictOldest.setThread i v := by
    intro s
    unfold Manager.evictOldest
    rw [show (s.setThread i v).order = s.order from rfl, show (s.setThread i v).runs = s.runs from rfl]
    cases s.order.find? fun r => (s.runs r).status ≠ .running <;> rfl
  have hall : ∀ n, Manager.evictOldest^[n] (s.setThread i v) =
      (Manager.evictOldest^[n] s).setThread i v := by
    intro n
    induction n with
    | zero => rfl
    | succ n ih => rw [Function.iterate_succ_apply', ih, hone, Function.iterate_succ_apply']
  exact hall _

theorem startStep_kept {a : Act} (inv : ManagerInv s) (ht : s.startStep a = some t) :
    Kept s t C := by
  cases a with
  | start i target =>
    simp only [Manager.startStep] at ht
    split at ht
    · rename_i hu
      obtain rfl := Option.some.inj ht
      exact kept_free inv hu rfl rfl rfl trivial
    · cases ht
  | insert i =>
    simp only [Manager.startStep] at ht
    split at ht
    · rename_i target context hu
      split_ifs at ht with hmu hrunning hfull
      · obtain rfl := Option.some.inj ht
        exact kept_free inv hu rfl rfl rfl trivial
      · obtain rfl := Option.some.inj ht
        exact kept_free inv hu rfl rfl rfl trivial
      · obtain rfl := Option.some.inj ht
        have hmu : s.mu = false := by simpa using hmu
        rw [← evictLocked_setThread]
        have hborn := born_kept (C := C) target context inv hu rfl
          hmu
        have hevict := (evictLocked_kept (C := C) hborn.1 hmu).1
        exact (hborn.trans hevict).weaken fun hcond => ⟨hcond,hcond⟩
    · cases ht
  | summarize i =>
    simp only [Manager.startStep] at ht
    split at ht
    · rename_i r hu
      split_ifs at ht with hlocked hstore
      all_goals
        obtain rfl := Option.some.inj ht
        exact Kept.thread inv (moves_thread s i _ r) (by rw [hu]; rfl) (fun _ _ hop => by cases hop)
          trivial nofun
    · cases ht
  | saveRun i =>
    simp only [Manager.startStep] at ht
    split at ht
    · rename_i r summary hu
      obtain rfl := Option.some.inj ht
      have hone := enqueue_kept (C := C) [.saveRun summary] inv (by
        intro q op hop
        rw [List.mem_singleton.mp hop]
        trivial)
      have htwo : Kept (s.enqueue [.saveRun summary])
          ((s.enqueue [.saveRun summary]).setThread i (.saved r)) C :=
        Kept.thread hone.1 (moves_thread _ i _ r) (by rw [enqueue_threads, hu]; rfl)
          (fun _ _ hop => nomatch hop) trivial nofun
      exact (hone.trans htwo).weaken fun hcond => ⟨hcond,hcond⟩
    · cases ht
  | _ => cases ht

end Starts

section Sweeps

variable {s t : Manager} {i : ℕ} {a : Act} {C : Prop}

theorem sweepForeign_kept {u : Thread} (inv : ManagerInv s) (hu : s.threads i = u)
    (hold : u.hold = none) (hok : ∀ t : Manager, u.Ok t) (hmu : s.mu = false) :
    Kept s s.sweepForeign (s.ctx ≠ "" → s.ctx ≠ s.sweptCtx → ∀ r ∈ s.order,
      (s.runs r).context ≠ s.ctx → (s.runs r).live = true → Attributed (s.runs r)) := by
  unfold Manager.sweepForeign
  by_cases hswept : s.ctx = "" ∨ s.ctx = s.sweptCtx
  · rw [if_pos hswept]
    exact ⟨inv,fun hlog _ => hlog⟩
  · rw [if_neg hswept]
    have hone : Kept s { s with sweptCtx := s.ctx } True :=
      Kept.same inv rfl rfl rfl rfl rfl rfl rfl rfl rfl
    have hsweep := sweep_kept hold s.order { s with sweptCtx := s.ctx } hone.1 hu
      (inv.unlocked hmu) inv.nodup hok
    exact (hone.trans hsweep).weaken fun hcond =>
      ⟨trivial,hcond (fun h => hswept (.inl h)) fun h => hswept (.inr h)⟩

/-- The sweep is about the runs only. -/
theorem sweepForeign_frame (s : Manager) : s.sweepForeign.threads = s.threads ∧
    s.sweepForeign.order = s.order ∧ s.sweepForeign.made = s.made ∧
    s.sweepForeign.processed = s.processed := by
  unfold Manager.sweepForeign
  by_cases hswept : s.ctx = "" ∨ s.ctx = s.sweptCtx
  · rw [if_pos hswept]
    exact ⟨rfl,rfl,rfl,rfl⟩
  · rw [if_neg hswept]
    have hall : ∀ (rs : List ℕ) (s : Manager),
        let t := rs.foldl
          (fun s r => if (s.runs r).context ≠ s.ctx then s.put r (s.runs r).markStale else s) s
        t.threads = s.threads ∧ t.order = s.order ∧ t.made = s.made ∧
          t.processed = s.processed := by
      intro rs
      induction rs with
      | nil => exact fun _ => ⟨rfl,rfl,rfl,rfl⟩
      | cons r rs ih =>
        intro s
        by_cases hctx : (s.runs r).context ≠ s.ctx
        · have hrest := ih (s.put r (s.runs r).markStale)
          simp only [List.foldl_cons, if_pos hctx]
          exact hrest
        · have hrest := ih s
          simp only [List.foldl_cons, if_neg hctx]
          exact hrest
    exact hall _ _

theorem get_kept {r : ℕ} {goal : Goal} (inv : ManagerInv s)
    (ht : s.hydrateStep (.get i r goal) = some t) :
    Kept s t (AttributedAt s (.get i r goal)) := by
  simp only [Manager.hydrateStep] at ht
  split at ht
  · rename_i hu
    have hswept : AttributedAt s (.get i r goal) → s.ctx ≠ "" → s.ctx ≠ s.sweptCtx →
        ∀ q ∈ s.order, (s.runs q).context ≠ s.ctx → (s.runs q).live = true →
          Attributed (s.runs q) := by
      intro hattr hctx hseen q hq hforeign hlive
      refine hattr q ?_
      rw [Manager.interrupted, if_neg (by simp [hctx, hseen]), List.mem_filter]
      exact ⟨hq,by simp [hforeign, hlive]⟩
    have hlooked : s.mu = false → ∀ processed, Kept s
        ({ s.sweepForeign with processed := processed }.setThread i (.looked r goal))
        (AttributedAt s (.get i r goal)) := by
      intro hmu processed
      have hsweep := sweepForeign_kept inv hu rfl (fun _ => trivial) hmu
      have hprocessed : Kept s.sweepForeign { s.sweepForeign with processed := processed } True :=
        Kept.same hsweep.1 rfl rfl rfl rfl rfl rfl rfl rfl rfl
      have hthread := kept_free (C := True) (v := .looked r goal) hprocessed.1
        (show s.sweepForeign.threads i = .idle by rw [(sweepForeign_frame s).1, hu]) rfl rfl rfl
        trivial
      exact ((hsweep.trans hprocessed).trans hthread).weaken fun hattr =>
        ⟨⟨hswept hattr,trivial⟩,trivial⟩
    split_ifs at ht with hmu hrefused hthere hgoal
    · obtain rfl := Option.some.inj ht
      exact hlooked (by simpa using hmu) _
    · obtain rfl := Option.some.inj ht
      exact hlooked (by simpa using hmu) _
    · obtain rfl := Option.some.inj ht
      exact (sweepForeign_kept inv hu rfl (fun _ => trivial) (by simpa using hmu)).weaken hswept
  · cases ht

theorem sweepStep_kept (inv : ManagerInv s) (ht : s.sweepStep a = some t) :
    Kept s t (AttributedAt s a) := by
  cases a with
  | onContextSwitch i =>
    simp only [Manager.sweepStep] at ht
    split at ht
    · rename_i hu
      split_ifs at ht with hmu
      obtain rfl := Option.some.inj ht
      exact kept_free inv hu rfl rfl rfl trivial
    · cases ht
  | markStale i => exact markStale_kept inv ht
  | shutdown i =>
    simp only [Manager.sweepStep] at ht
    split at ht
    · rename_i hu
      split_ifs at ht with hmu
      obtain rfl := Option.some.inj ht
      exact kept_free inv hu rfl rfl rfl trivial
    · cases ht
  | shutdownRun i => exact shutdownRun_kept inv ht
  | closeStore i =>
    simp only [Manager.sweepStep] at ht
    split at ht
    · rename_i hu
      obtain rfl := Option.some.inj ht
      have hclosed : Kept s { s with storeClosed := true } True :=
        Kept.same inv rfl rfl rfl rfl rfl rfl rfl rfl rfl
      have hidle := kept_free (C := True) (v := .idle) hclosed.1 hu rfl rfl rfl trivial
      exact (hclosed.trans hidle).weaken fun _ => ⟨trivial,trivial⟩
    · cases ht
  | _ => cases ht

end Sweeps

section Clears

variable {s t : Manager} {i : ℕ} {a : Act} {C : Prop}

/-- The thread that clears the history is the only one. -/
theorem ManagerInv.only (inv : ManagerInv s) {u : Thread} (hu : s.threads i = u)
    (hc : u.clears = true) : ∀ j ≠ i, (s.threads j).clears = false := by
  intro j hj
  by_contra hn
  exact hj (inv.alone j i (by simpa using hn) (by rw [hu]; exact hc))

/-- Dropping a run keeps the others' statuses, and its own. -/
theorem drop_statuses (s : Manager) (q r : ℕ) : ((s.drop q).runs r).status = (s.runs r).status := by
  show (Function.update s.runs q ({ s.runs q with store := false }.finalizeLocked).1 r).status = _
  by_cases hr : r = q
  · rw [hr, Function.update_self, (drop_spec _).status]
  · rw [Function.update_of_ne hr]

theorem drops_kept (dropped : List ℕ) :
    ∀ s : Manager, ManagerInv s → (∀ r ∈ dropped, r ∉ s.order ∧ (s.runs r).status ≠ .running) →
      Kept s (dropped.foldl Manager.drop s) C := by
  induction dropped with
  | nil => exact fun s inv _ => ⟨inv,fun hlog _ => hlog⟩
  | cons q dropped ih =>
    intro s inv hall
    obtain ⟨hq,hs⟩ := hall q List.mem_cons_self
    have hone := drop_kept (C := C) inv hq hs
    refine (hone.trans (ih (s.drop q) hone.1 fun r hr => ?_)).weaken fun hcond => ⟨hcond,hcond⟩
    rw [drop_statuses]
    exact hall r (List.mem_cons_of_mem q hr)

theorem clearStep_kept (inv : ManagerInv s) (ht : s.clearStep a = some t) : Kept s t C := by
  cases a with
  | clearHistory i =>
    simp only [Manager.clearStep] at ht
    split at ht
    · rename_i hu
      split_ifs at ht with hmu
      obtain rfl := Option.some.inj ht
      have hfree : s.mu = false := by simpa using hmu
      refine relock_kept inv inv.nodup (List.Subset.refl s.order) (l := s.locked)
        (v := .clearing s.order [] []) ?_ (fun j _ => inv.free hfree j) ?_ inv.locked (by simp)
        fun _ => rfl
      · rw [hu]
        rfl
      · exact ⟨inv.unlocked hfree,by simp⟩
    · cases ht
  | visit i =>
    simp only [Manager.clearStep] at ht
    split at ht
    · rename_i r todo kept dropped hu
      have hmu := inv.clears i (by rw [hu]; rfl)
      have hthread := inv.threads i
      rw [hu] at hthread
      obtain ⟨hlocked,hperm⟩ := hthread
      split_ifs at ht with hrunning
      · obtain rfl := Option.some.inj ht
        refine Kept.thread inv (moves_thread s i _ r) (by rw [hu]; rfl)
          (fun _ _ hop => by cases hop) ⟨hlocked,?_⟩ fun _ => by rw [hu]; rfl
        refine List.Perm.trans ?_ hperm
        rw [List.append_assoc, List.append_assoc, List.append_assoc]
        refine List.Perm.append_left kept ?_
        rw [← List.append_assoc]
        exact List.perm_middle.symm.trans (by simp)
      · obtain rfl := Option.some.inj ht
        refine relock_kept inv inv.nodup (List.Subset.refl s.order) (b := s.mu)
          (by rw [hu]; rfl) (inv.only hu rfl) ⟨by rw [hlocked],?_⟩ ?_
          (fun hfree => by cases hmu.symm.trans hfree) fun _ => hmu
        · refine List.Perm.trans ?_ hperm
          simp
        · intro q hq
          rcases List.mem_append.mp hq with hq | hq
          · exact inv.locked q hq
          · rw [List.mem_singleton.mp hq]
            exact hrunning
    · cases ht
  | clearTerminal i commits =>
    simp only [Manager.clearStep] at ht
    split at ht
    · rename_i kept dropped hu
      have hthread := inv.threads i
      rw [hu] at hthread
      have hgo : ∀ {w : Manager} {stamp commits}, ManagerInv w → w.threads = s.threads →
          w.order = s.order → w.locked = s.locked →
          Kept w (w.setThread i (.deleting kept dropped stamp commits)) C := by
        intro w stamp commits hw hthreads horder hlocked
        refine Kept.thread hw (moves_thread w i _ 0) (by rw [hthreads, hu]; rfl)
          (fun _ _ hop => by cases hop) ?_ fun _ => by rw [hthreads, hu]; rfl
        show w.locked = dropped ∧ (kept++dropped).Perm w.order
        rw [horder, hlocked]
        exact ⟨hthread.1,by simpa using hthread.2⟩
      split_ifs at ht with hstore hclosed
      · obtain rfl := Option.some.inj ht
        exact hgo inv rfl rfl rfl
      · obtain rfl := Option.some.inj ht
        exact hgo inv rfl rfl rfl
      · obtain rfl := Option.some.inj ht
        have hone := enqueue_kept (C := C) [.clearTerminal commits] inv (by
          intro q op hop
          rw [List.mem_singleton.mp hop]
          trivial)
        exact (hone.trans (hgo hone.1 rfl rfl rfl)).weaken fun hcond => ⟨hcond,hcond⟩
    · cases ht
  | clearReturns i =>
    simp only [Manager.clearStep] at ht
    split at ht
    · rename_i kept dropped stamp commits hu
      have hthread := inv.threads i
      rw [hu] at hthread
      obtain ⟨hlocked,hperm⟩ := hthread
      have halone := inv.only hu rfl
      have hunlock : ∀ {order}, order.Nodup → order ⊆ s.order → Kept s
          ({ s with order := order, mu := false, locked := [] }.setThread i .idle) C := by
        intro order hnodup hsub
        exact relock_kept inv hnodup hsub (by rw [hu]; rfl) halone trivial
          (fun _ hr => nomatch hr) (fun _ => rfl) nofun
      split_ifs at ht with hwait hcommits
      · obtain rfl := Option.some.inj ht
        have hnodup : (kept++dropped).Nodup := hperm.nodup_iff.mpr inv.nodup
        obtain ⟨hkept,_,hapart⟩ := List.nodup_append.mp hnodup
        have hone := hunlock hkept fun r hr => hperm.subset (List.mem_append_left dropped hr)
        have hdrops := drops_kept (C := C) dropped _ hone.1 fun r hr =>
          ⟨fun hin => hapart r hin r hr rfl,inv.locked r (hlocked ▸ hr)⟩
        have hcomm : ∀ (w : Manager) (q : ℕ),
            Manager.drop ({ w with order := kept, mu := false, locked := [] }.setThread i .idle) q =
              { w.drop q with order := kept, mu := false, locked := [] }.setThread i .idle :=
          fun _ _ => rfl
        have hall := @List.foldl_hom _ _ _
          (fun w : Manager =>
            { w with order := kept, mu := false, locked := [] }.setThread i .idle)
          _ _ dropped s hcomm
        rw [hall] at hdrops
        exact (hone.trans hdrops).weaken fun hcond => ⟨hcond,hcond⟩
      · obtain rfl := Option.some.inj ht
        exact hunlock inv.nodup (List.Subset.refl s.order)
    · cases ht
  | _ => cases ht

end Clears

section Reads

variable {s t : Manager} {i : ℕ} {a : Act} {C : Prop}

/-- A section that is about the readers only. -/
theorem kept_read {q : ℕ} {b : Run} {u v : Thread} (inv : ManagerInv s) (hu : s.threads i = u)
    (hold : u.hold = none) (hv : v.hold = none) (hc : v.clears = false)
    (hok : v.Ok ((s.put q (b,[])).setThread i v)) (hcore : b.core = (s.runs q).core) :
    Kept s ((s.put q (b,[])).setThread i v) C := by
  obtain ⟨more,m,hmore⟩ := moves_put s i v q (b,[])
  obtain rfl : more = [] := by simpa using hmore
  have hold : (s.threads i).hold = none := by rw [hu, hold]
  have keep := Keeping.of_core hcore
  refine Kept.aside inv m keep (hv.trans hold.symm) (fun _ _ ok => ok.of_core hcore)
    (fun _ _ _ _ log => log.of_core hcore)
    (stored_aside inv m keep.toLater fun _ _ hop => by cases hop) (fun _ _ _ hop => by cases hop)
    hok ?_ fun hn => by cases hc.symm.trans hn
  by_cases hq : q ∈ s.locked
  · exact .inr (by rw [core_status hcore]; exact inv.locked q hq)
  · exact .inl hq

theorem readStep_kept (inv : ManagerInv s) (ht : s.readStep a = some t) : Kept s t C := by
  have hprocess : ∀ (j : ℕ) (e : RunEvent), Kept s (s.process j e) C := fun j e =>
    Kept.same inv rfl rfl rfl rfl rfl rfl rfl rfl rfl
  have hput : ∀ {w : Manager} {j : ℕ} {u : Thread} {q : ℕ} {b : Run}, ManagerInv w →
      w.threads j = u → u.hold = none → u.clears = false → (∀ t : Manager, u.Ok t) →
      b.core = (w.runs q).core → Kept w (w.put q (b,[])) C := by
    intro w j u q b hw hu hold hc hok hcore
    have hsame : w.put q (b,[]) = (w.put q (b,[])).setThread j u := by
      have hthreads : Function.update w.threads j u = w.threads := by
        rw [← hu, Function.update_eq_self]
      show _ = { w.put q (b,[]) with threads := Function.update w.threads j u }
      rw [hthreads]
      rfl
    rw [hsame]
    exact kept_read hw hu hold hold hc (hok _) hcore
  cases a with
  | subscribe i =>
    simp only [Manager.readStep] at ht
    split at ht
    · rename_i q hu
      split_ifs at ht with hlocked
      obtain rfl := Option.some.inj ht
      exact kept_read inv hu rfl rfl rfl trivial (subscribe_core _ _)
    · cases ht
  | receive i =>
    simp only [Manager.readStep] at ht
    split at ht
    · rename_i q c e rest hu
      split_ifs at ht with hstopped
      obtain rfl := Option.some.inj ht
      have hfree := kept_free (C := C) (v := .reading q c rest) (hprocess i e).1 hu rfl rfl
        rfl trivial
      exact ((hprocess i e).trans hfree).weaken fun hcond => ⟨hcond,hcond⟩
    · rename_i q c hu
      split_ifs at ht with hstopped
      split at ht
      · cases ht
      · rename_i e rest hbuf
        obtain rfl := Option.some.inj ht
        have hread := hput (b := (s.runs q).receive c) (hprocess i e).1 hu rfl rfl
          (fun _ => trivial) (receive_core (s.runs q) c)
        exact ((hprocess i e).trans hread).weaken fun hcond => ⟨hcond,hcond⟩
    · cases ht
  | cancel i =>
    simp only [Manager.readStep] at ht
    split at ht
    · rename_i q c backlog hu
      split_ifs at ht with hlocked
      obtain rfl := Option.some.inj ht
      exact hput inv hu rfl rfl (fun _ => trivial) (cancelSub_core _ _)
    · cases ht
  | resubscribe i =>
    simp only [Manager.readStep] at ht
    split at ht
    · rename_i q c hu
      split_ifs at ht with hdone
      obtain rfl := Option.some.inj ht
      exact kept_free inv hu rfl rfl rfl trivial
    · cases ht
  | _ => cases ht

end Reads

section Steps

variable {bindRootCauseEvidence : List RunEvent → Verdict → Verdict} {s t : Manager} {a : Act}

theorem hydrateStep_kept (inv : ManagerInv s) (ht : s.hydrateStep a = some t) :
    Kept s t (AttributedAt s a) := by
  cases a with
  | get i r goal => exact get_kept inv ht
  | hydrate i => exact hydrate_kept inv ht
  | load i fails => exact load_kept inv ht
  | install i => exact install_kept inv ht
  | _ => cases ht

theorem turnStep_kept (inv : ManagerInv s) (ht : s.turnStep a = some t) :
    Kept s t (AttributedAt s a) := by
  cases a with
  | launch i =>
    simp only [Manager.turnStep] at ht
    split at ht
    · rename_i r hu
      exact launch_kept inv hu rfl ht
    · rename_i r turn hu
      exact launch_kept inv hu rfl ht
    · cases ht
  | beginTurn i => exact beginTurn_kept inv ht
  | stop i => exact stop_kept inv ht
  | _ => cases ht

theorem agentStep_kept {C : Prop} (inv : ManagerInv s)
    (ht : s.agentStep bindRootCauseEvidence a = some t) : Kept s t C := by
  cases a with
  | emit i e => exact emit_kept inv ht
  | agentReturns i diag turnErr outcome timeout => exact agentReturns_kept inv ht
  | finish i => exact finish_kept inv ht
  | _ => cases ht

/-- A step is the writer's, a connect or one of the sections. -/
theorem step_cases (ht : s.step bindRootCauseEvidence a = some t) :
    (a = .write ∧ s.applied < s.ops.length ∧ t = { s with applied := s.applied+1 }) ∨
      (∃ context, a = .connect context ∧ t = { s with ctx := context }) ∨
      s.startStep a = some t ∨ s.hydrateStep a = some t ∨ s.turnStep a = some t ∨
      s.agentStep bindRootCauseEvidence a = some t ∨ s.sweepStep a = some t ∨
      s.clearStep a = some t ∨ s.readStep a = some t := by
  cases a with
  | write =>
    left
    simp only [Manager.step] at ht
    split_ifs at ht with happlied
    exact ⟨rfl,happlied,(Option.some.inj ht).symm⟩
  | connect context => exact .inr (.inl ⟨context,rfl,(Option.some.inj ht).symm⟩)
  | start _ _ | insert _ | summarize _ | saveRun _ => exact .inr (.inr (.inl ht))
  | get _ _ _ | hydrate _ | load _ _ | install _ => exact .inr (.inr (.inr (.inl ht)))
  | launch _ | beginTurn _ | stop _ => exact .inr (.inr (.inr (.inr (.inl ht))))
  | emit _ _ | agentReturns _ _ _ _ _ | finish _ =>
    exact .inr (.inr (.inr (.inr (.inr (.inl ht)))))
  | onContextSwitch _ | markStale _ | shutdown _ | shutdownRun _ | closeStore _ =>
    exact .inr (.inr (.inr (.inr (.inr (.inr (.inl ht))))))
  | clearHistory _ | visit _ | clearTerminal _ _ | clearReturns _ =>
    exact .inr (.inr (.inr (.inr (.inr (.inr (.inr (.inl ht)))))))
  | subscribe _ | receive _ | cancel _ | resubscribe _ =>
    exact .inr (.inr (.inr (.inr (.inr (.inr (.inr (.inr ht)))))))

/-- Every step keeps the invariant; every step that is attributed keeps the logs in place. -/
theorem step_kept (inv : ManagerInv s) (ht : s.step bindRootCauseEvidence a = some t) :
    Kept s t (AttributedAt s a) := by
  rcases step_cases ht with ⟨_,happlied,rfl⟩ | ⟨context,_,rfl⟩ | ht | ht | ht | ht | ht | ht | ht
  · exact ⟨{ inv with threads := inv.threads, written := happlied },fun hlog _ => hlog⟩
  · exact Kept.same inv rfl rfl rfl rfl rfl rfl rfl rfl rfl
  · exact startStep_kept inv ht
  · exact hydrateStep_kept inv ht
  · exact turnStep_kept inv ht
  · exact agentStep_kept inv ht
  · exact sweepStep_kept inv ht
  · exact clearStep_kept inv ht
  · exact readStep_kept inv ht

end Steps

end Radar.Ai
