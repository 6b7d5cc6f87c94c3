import Radar.Ai.Channels
import Radar.Ai.TranscriptRuns

/-!
# The readers of a run

A reader subscribes with the number of the last event it processed, processes
what it is given, and subscribes again when its channel closes. What it has
processed is a prefix of the log at any time, and what it was given goes on
from there; while its channel is open, nothing is missing.
-/

set_option autoImplicit false

namespace Radar.Ai

open Radar.Numbered
open Radar.Run (run run_invariant)
open Radar.Ai.Run

/-- The run that a call is to be about, if it is to subscribe. -/
def Goal.waits (r : ℕ) : Goal → Option ℕ
  | .subscribe => some r
  | _ => none

/-- A reader that is about to subscribe. -/
def Thread.waits : Thread → Option ℕ
  | .looked r goal => goal.waits r
  | .loading r goal _ => goal.waits r
  | .loaded r goal _ => goal.waits r
  | .ready r goal => goal.waits r
  | _ => none

/-- What a reader has processed, has still to process, and has in its channel. -/
def Given (s : Manager) (i r c : ℕ) (backlog : List RunEvent) : Prop :=
  ∃ rest, s.processed i++backlog++((s.runs r).chans c).buf++rest = (s.runs r).events ∧
    (((s.runs r).chans c).closed = false → rest = [])

structure ReaderOk (s : Manager) (i : ℕ) (u : Thread) : Prop where
  waits : ∀ r, u.waits = some r → r < s.made ∧ s.processed i <+: (s.runs r).events
  reading : ∀ r c backlog, u = .reading r c backlog → r < s.made ∧ Observed (s.runs r) ∧
    c < (s.runs r).nextSub ∧ Given s i r c backlog

structure Readers (s : Manager) : Prop where
  wired : ∀ r, Wired (s.runs r)
  ended : ∀ r, Ended (s.runs r)
  ok : ∀ i, ReaderOk s i (s.threads i)
  /-- Every channel has its own reader. -/
  apart : ∀ i j r c b d, s.threads i = .reading r c b → s.threads j = .reading r c d → i = j

/-- What a step makes of the runs; one may be new. -/
structure Onward (s t : Manager) : Prop where
  made : s.made ≤ t.made
  runs : ∀ r, Evolves (s.runs r) (t.runs r) ∨ r = s.made ∧ Wired (t.runs r) ∧ Ended (t.runs r)

/-- A thread that is no reader. -/
def Thread.Plain (u : Thread) : Prop := u.waits = none ∧ ∀ r c b, u ≠ .reading r c b

/-- The steps that a reader takes with what it was given. -/
def Act.readsAs (j : ℕ) (a : Act) : Prop := a = .subscribe j ∨ a = .receive j ∨ a = .resubscribe j

/-- What a step does to a thread: nothing, or it is about something else, or a reader comes or goes
on to wait, or reads. -/
def Turned (s : Manager) (a : Act) (t : Manager) (j : ℕ) : Prop :=
  t.threads j = s.threads j ∧ t.processed j = s.processed j ∨
    (s.threads j).Plain ∧ (t.threads j).Plain ∨
    (s.threads j).Plain ∧ (∃ r < s.made, t.threads j = .looked r .subscribe) ∧
      t.processed j = [] ∨
    (∃ r, (s.threads j).waits = some r ∧ (t.threads j).waits = some r ∧
      t.processed j = s.processed j) ∨
    a.readsAs j

section Onward

variable {s t u : Manager} {i : ℕ} {v : Thread}

theorem Onward.of_evolves (hmade : t.made = s.made)
    (h : ∀ r, Evolves (s.runs r) (t.runs r)) : Onward s t :=
  ⟨hmade.ge,fun r => .inl (h r)⟩

/-- The runs are as they were. -/
theorem Onward.same (hmade : t.made = s.made) (h : t.runs = s.runs) : Onward s t :=
  Onward.of_evolves hmade fun r => by rw [h]; exact Evolves.refl _

theorem put_evolves {q : ℕ} {done : Run × List StoreOp} (h : Evolves (s.runs q) done.1) (r : ℕ) :
    Evolves (s.runs r) ((s.put q done).runs r) := by
  show Evolves (s.runs r) (Function.update s.runs q done.1 r)
  by_cases hr : r = q
  · rw [hr, Function.update_self]
    exact h
  · rw [Function.update_of_ne hr]
    exact Evolves.refl _

/-- A section of a run. -/
theorem Onward.put {q : ℕ} {done : Run × List StoreOp} (h : Evolves (s.runs q) done.1) :
    Onward s ((s.put q done).setThread i v) :=
  Onward.of_evolves rfl (put_evolves h)

/-- What a reader was given, it has still been given after a step of others. -/
theorem ReaderOk.onward (ok : ReaderOk s i v) (wired : ∀ r, Wired (s.runs r)) (h : Onward s t)
    (hprocessed : t.processed i = s.processed i) : ReaderOk t i v where
  waits r hr := by
    obtain ⟨hborn,hwithin⟩ := ok.waits r hr
    refine ⟨hborn.trans_le h.made,?_⟩
    rcases h.runs r with hev | ⟨hnew,_⟩
    · obtain ⟨_,es,hes⟩ := hev.streams (wired r)
      rw [hprocessed, hes.events]
      exact hwithin.trans (List.prefix_append _ es)
    · omega
  reading r c backlog hr := by
    obtain ⟨hborn,hseen,hc,rest,hall,hopen⟩ := ok.reading r c backlog hr
    rcases h.runs r with hev | ⟨hnew,_⟩
    · obtain ⟨hwired,es,hes⟩ := hev.streams (wired r)
      refine ⟨hborn.trans_le h.made,hev.observed hseen,hc.trans_le hes.born,?_⟩
      have hfed := hes.fed c hc
      cases hclosed : ((s.runs r).chans c).closed with
      | true =>
        rw [Given, hfed.1 hclosed, hprocessed, hes.events, ← hall]
        exact ⟨rest++es,by simp,fun hn => by cases hclosed.symm.trans hn⟩
      | false =>
        obtain rfl := hopen hclosed
        obtain ⟨got,⟨more,hmore⟩,hbuf,hgot⟩ := hfed.2 hclosed
        rw [Given, hprocessed, hes.events, ← hall, hbuf, ← hmore]
        refine ⟨more,by simp,fun hstill => ?_⟩
        have := hgot hstill
        rw [this] at hmore
        simpa using hmore
    · omega

theorem Onward.wired (h : Onward s t) (w : ∀ r, Wired (s.runs r)) (r : ℕ) : Wired (t.runs r) := by
  rcases h.runs r with hev | ⟨_,hw,_⟩
  · exact (hev.streams (w r)).1
  · exact hw

theorem Onward.ended (h : Onward s t) (e : ∀ r, Ended (s.runs r)) (r : ℕ) : Ended (t.runs r) := by
  rcases h.runs r with hev | ⟨_,_,he⟩
  · exact hev.ended (e r)
  · exact he

/-- A thread that reads nothing relies on nothing. -/
theorem Thread.Plain.ok (h : v.Plain) : ReaderOk s i v where
  waits r hr := by cases h.1.symm.trans hr
  reading r c b hr := absurd hr (h.2 r c b)

theorem Thread.not_reading_of_waits {r q c : ℕ} {b : List RunEvent} (h : v.waits = some r) :
    v ≠ .reading q c b := by
  rintro rfl
  nomatch h

/-- What a step is that feeds no channel to a reader. -/
structure Stepped (s : Manager) (a : Act) (t : Manager) : Prop where
  onward : Onward s t
  turned : ∀ j, Turned s a t j

/-- Where no reader reads, the readers go on. -/
theorem Readers.stepped {a : Act} (inv : Readers s) (h : Stepped s a t)
    (ha : ∀ j, ¬ a.readsAs j) : Readers t where
  wired := h.onward.wired inv.wired
  ended := h.onward.ended inv.ended
  ok j := by
    rcases h.turned j with ⟨hthread,hprocessed⟩ | ⟨_,hplain⟩ | ⟨_,⟨r,hr,hthread⟩,hprocessed⟩ |
      ⟨r,hwas,hwaits,hprocessed⟩ | hreads
    · rw [hthread]
      exact (inv.ok j).onward inv.wired h.onward hprocessed
    · exact hplain.ok
    · rw [hthread]
      refine ⟨?_,(by simp)⟩
      rintro _ ⟨⟩
      rw [hprocessed]
      exact ⟨hr.trans_le h.onward.made,List.nil_prefix⟩
    · have hold := (inv.ok j).onward inv.wired h.onward hprocessed
      refine ⟨fun q hq => hold.waits q (hwas.trans (hwaits.symm.trans hq)),fun q c b hq => ?_⟩
      exact absurd hq (Thread.not_reading_of_waits hwaits)
    · exact absurd hreads (ha j)
  apart := by
    have hwas : ∀ j r c b, t.threads j = .reading r c b → s.threads j = .reading r c b := by
      intro j r c b hj
      rcases h.turned j with ⟨hthread,_⟩ | ⟨_,hplain⟩ | ⟨_,⟨q,_,hthread⟩,_⟩ | ⟨q,_,hwaits,_⟩ | hreads
      · exact hthread.symm.trans hj
      · exact absurd hj (hplain.2 r c b)
      · cases hthread.symm.trans hj
      · exact absurd hj (Thread.not_reading_of_waits hwaits)
      · exact absurd hreads (ha j)
    exact fun i j r c b d hi hj => inv.apart i j r c b d (hwas i r c b hi) (hwas j r c d hj)

/-- One thread reads. -/
theorem Readers.move (inv : Readers s) (h : Onward s t)
    (hthreads : t.threads = Function.update s.threads i v)
    (hprocessed : ∀ j ≠ i, t.processed j = s.processed j) (hv : ReaderOk t i v)
    (hown : ∀ r c b, v = .reading r c b → ∀ j ≠ i, ∀ d, s.threads j ≠ .reading r c d) :
    Readers t where
  wired := h.wired inv.wired
  ended := h.ended inv.ended
  ok j := by
    rw [hthreads]
    by_cases hj : j = i
    · rw [hj, Function.update_self]
      exact hv
    · rw [Function.update_of_ne hj]
      exact (inv.ok j).onward inv.wired h (hprocessed j hj)
  apart j l r c b d hj hl := by
    rw [hthreads] at hj hl
    by_cases hji : j = i
    · by_cases hli : l = i
      · rw [hji, hli]
      · rw [hji, Function.update_self] at hj
        rw [Function.update_of_ne hli] at hl
        exact absurd hl (hown r c b hj l hli d)
    · rw [Function.update_of_ne hji] at hj
      by_cases hli : l = i
      · rw [hli, Function.update_self] at hl
        exact absurd hj (hown _ c d hl j hji b)
      · rw [Function.update_of_ne hli] at hl
        exact inv.apart j l r c b d hj hl

end Onward

section Steps

variable {bindRootCauseEvidence : List RunEvent → Verdict → Verdict} {s t : Manager} {a : Act}
  {i q : ℕ} {u v : Thread}

theorem interrupted_evolves {h : Option Hold} {a b : Run} (ok : RunOk h a) (k : Interrupted a b) :
    Evolves a b := by
  rcases k with rfl | rfl | rfl | rfl
  · exact Evolves.refl _
  · exact stop_evolves a
  · exact shutdown_evolves a
  · exact markStale_evolves ok

/-- A thread that is no reader goes on to be none. -/
theorem Stepped.plain (h : Onward s t) (hu : s.threads i = u) (hplain : u.Plain)
    (hthreads : t.threads = Function.update s.threads i v)
    (hprocessed : t.processed = s.processed) (hv : v.Plain) : Stepped s a t where
  onward := h
  turned j := by
    by_cases hj : j = i
    · right; left
      rw [hj, hthreads, Function.update_self, hu]
      exact ⟨hplain,hv⟩
    · left
      rw [hthreads, hprocessed, Function.update_of_ne hj]
      exact ⟨rfl,rfl⟩

theorem Stepped.thread (hu : s.threads i = u) (hplain : u.Plain) (hv : v.Plain) :
    Stepped s a (s.setThread i v) :=
  Stepped.plain (Onward.same rfl rfl) hu hplain rfl rfl hv

theorem Stepped.put {done : Run × List StoreOp} (hu : s.threads i = u) (hplain : u.Plain)
    (h : Evolves (s.runs q) done.1) (hv : v.Plain) :
    Stepped s a ((s.put q done).setThread i v) :=
  Stepped.plain (Onward.put h) hu hplain rfl rfl hv

/-- No thread moves. -/
theorem Stepped.still (h : Onward s t) (hthreads : t.threads = s.threads)
    (hprocessed : t.processed = s.processed) : Stepped s a t where
  onward := h
  turned j := .inl ⟨congrFun hthreads j,congrFun hprocessed j⟩

/-- A call on its way to its goal goes on to it. -/
theorem Stepped.waits (h : Onward s t) (hu : s.threads i = u)
    (hthreads : t.threads = Function.update s.threads i v)
    (hprocessed : t.processed = s.processed) (hwaits : v.waits = u.waits)
    (hplain : ∀ r c b, u ≠ .reading r c b) (hv : ∀ r c b, v ≠ .reading r c b) :
    Stepped s a t where
  onward := h
  turned j := by
    by_cases hj : j = i
    · cases hr : u.waits with
      | none =>
        right; left
        rw [hj, hthreads, Function.update_self, hu]
        exact ⟨⟨hr,hplain⟩,⟨hwaits.trans hr,hv⟩⟩
      | some r =>
        right; right; right; left
        refine ⟨r,?_,?_,congrFun hprocessed j⟩
        · rw [hj, hu, hr]
        · rw [hj, hthreads, Function.update_self, hwaits, hr]
    · left
      rw [hthreads, hprocessed, Function.update_of_ne hj]
      exact ⟨rfl,rfl⟩

theorem drop_evolves_all (s : Manager) (q r : ℕ) : Evolves (s.runs r) ((s.drop q).runs r) :=
  put_evolves (drop_evolves (s.runs q)) r

theorem evictLocked_evolves (s : Manager) :
    (∀ r, Evolves (s.runs r) (s.evictLocked.runs r)) ∧ s.evictLocked.threads = s.threads ∧
      s.evictLocked.made = s.made ∧ s.evictLocked.processed = s.processed := by
  unfold Manager.evictLocked
  induction s.order.length-s.maxRetained with
  | zero => exact ⟨fun _ => Evolves.refl _,rfl,rfl,rfl⟩
  | succ n ih =>
    rw [Function.iterate_succ_apply']
    obtain ⟨hruns,hthreads,hmade,hprocessed⟩ := ih
    rw [← hthreads, ← hmade, ← hprocessed]
    generalize Manager.evictOldest^[n] s = w at hruns ⊢
    unfold Manager.evictOldest
    split
    · exact ⟨hruns,rfl,rfl,rfl⟩
    · rename_i q _
      refine ⟨fun r => ?_,rfl,rfl,rfl⟩
      exact (hruns r).trans (drop_evolves_all { w with order := w.order.erase q } q r)

theorem newRun_wired (s : Manager) (target : Target) (context : String) :
    Wired (s.newRun target context) ∧ Ended (s.newRun target context) := by
  refine ⟨⟨nofun,nofun,fun _ => rfl⟩,fun x re y hxy => ?_,nofun⟩
  have hxy : [] = x++re::y := hxy
  simp at hxy

theorem startStep_stepped (ht : s.startStep a = some t) : Stepped s a t := by
  cases a with
  | start i target =>
    simp only [Manager.startStep] at ht
    split at ht
    · rename_i hu
      obtain rfl := Option.some.inj ht
      exact Stepped.thread hu ⟨rfl,(by simp)⟩ ⟨rfl,(by simp)⟩
    · cases ht
  | insert i =>
    simp only [Manager.startStep] at ht
    split at ht
    · rename_i target context hu
      split_ifs at ht
      · obtain rfl := Option.some.inj ht
        exact Stepped.thread hu ⟨rfl,(by simp)⟩ ⟨rfl,(by simp)⟩
      · obtain rfl := Option.some.inj ht
        exact Stepped.thread hu ⟨rfl,(by simp)⟩ ⟨rfl,(by simp)⟩
      · obtain rfl := Option.some.inj ht
        obtain ⟨hruns,hthreads,hmade,hprocessed⟩ := evictLocked_evolves
          { s with
            runs := Function.update s.runs s.made (s.newRun target context)
            made := s.made+1
            order := s.order++[s.made] }
        refine Stepped.plain (v := .inserted s.made) ⟨?_,fun r => ?_⟩ hu ⟨rfl,(by simp)⟩ ?_ hprocessed
          ⟨rfl,(by simp)⟩
        · exact hmade ▸ Nat.le_succ s.made
        · have hrun := hruns r
          by_cases hr : r = s.made
          · right
            have hthere : (Function.update s.runs s.made (s.newRun target context)) r =
                s.newRun target context := by rw [hr, Function.update_self]
            rw [show (_ : Manager).runs r = _ from hthere] at hrun
            exact ⟨hr,(hrun.streams (newRun_wired s target context).1).1,
              hrun.ended (newRun_wired s target context).2⟩
          · left
            have hthere : (Function.update s.runs s.made (s.newRun target context)) r = s.runs r :=
              Function.update_of_ne hr _ _
            rw [show (_ : Manager).runs r = _ from hthere] at hrun
            exact hrun
        · show Function.update _ i _ = _
          rw [hthreads]
    · cases ht
  | summarize i =>
    simp only [Manager.startStep] at ht
    split at ht
    · rename_i hu
      split_ifs at ht
      all_goals
        obtain rfl := Option.some.inj ht
        exact Stepped.thread hu ⟨rfl,(by simp)⟩ ⟨rfl,(by simp)⟩
    · cases ht
  | saveRun i =>
    simp only [Manager.startStep] at ht
    split at ht
    · rename_i r summary hu
      obtain rfl := Option.some.inj ht
      exact Stepped.plain (Onward.same rfl rfl) hu ⟨rfl,(by simp)⟩ rfl rfl ⟨rfl,(by simp)⟩
    · cases ht
  | _ => cases ht

theorem sweepForeign_onward (mi : ManagerInv s) : Onward s s.sweepForeign := by
  refine Onward.of_evolves (sweepForeign_frame s).2.2.1 fun r => ?_
  obtain ⟨h,hh⟩ := exists_hold s r
  exact interrupted_evolves (mi.ok r h hh) (sweepForeign_interrupted s mi.nodup r)

theorem unhydrated_stepped {goal : Goal} (hu : s.threads i = u) (hwaits : u.waits = goal.waits q)
    (hplain : ∀ r c b, u ≠ .reading r c b) : Stepped s a (s.unhydrated i q goal) := by
  cases goal with
  | addTurn turn =>
    exact Stepped.waits (Onward.same rfl rfl) hu rfl rfl hwaits.symm hplain (by simp)
  | stop => exact Stepped.waits (Onward.same rfl rfl) hu rfl rfl hwaits.symm hplain (by simp)
  | subscribe => exact Stepped.waits (Onward.same rfl rfl) hu rfl rfl hwaits.symm hplain (by simp)

theorem hydrateStep_stepped (mi : ManagerInv s) (ht : s.hydrateStep a = some t) :
    Stepped s a t := by
  cases a with
  | get i q goal =>
    obtain ⟨hthreads,horder,_,hprocessed⟩ := sweepForeign_frame s
    have honward := sweepForeign_onward mi
    simp only [Manager.hydrateStep] at ht
    split at ht
    · rename_i hu
      split_ifs at ht with hmu hrefused hthere hgoal
      · obtain rfl := Option.some.inj ht
        refine ⟨⟨honward.made,honward.runs⟩,fun j => ?_⟩
        by_cases hj : j = i
        · right; right; left
          rw [hj, hu]
          refine ⟨⟨rfl,(by simp)⟩,⟨q,(mi.order q (horder ▸ hthere)).1,?_⟩,?_⟩
          · show Function.update s.sweepForeign.threads i _ i = _
            rw [Function.update_self, hgoal]
          · exact Function.update_self ..
        · left
          refine ⟨?_,?_⟩
          · show Function.update s.sweepForeign.threads i _ j = _
            rw [Function.update_of_ne hj, hthreads]
          · show Function.update s.sweepForeign.processed i _ j = _
            rw [Function.update_of_ne hj, hprocessed]
      · obtain rfl := Option.some.inj ht
        refine Stepped.plain (v := .looked q goal) ⟨honward.made,honward.runs⟩ hu ⟨rfl,(by simp)⟩ ?_
          hprocessed ⟨?_,(by simp)⟩
        · show Function.update _ i _ = _
          rw [hthreads]
        · cases goal with
          | subscribe => exact absurd rfl hgoal
          | _ => rfl
      · obtain rfl := Option.some.inj ht
        exact Stepped.still honward hthreads hprocessed
    · cases ht
  | hydrate i =>
    simp only [Manager.hydrateStep] at ht
    split at ht
    · rename_i q goal hu
      split_ifs at ht
      all_goals
        obtain rfl := Option.some.inj ht
        exact Stepped.waits (Onward.same rfl rfl) hu rfl rfl rfl (by simp) (by simp)
    · cases ht
  | load i fails =>
    simp only [Manager.hydrateStep] at ht
    split at ht
    · rename_i q goal stamp hu
      split_ifs at ht
      · obtain rfl := Option.some.inj ht
        exact unhydrated_stepped hu rfl (by simp)
      · split at ht
        · obtain rfl := Option.some.inj ht
          exact unhydrated_stepped hu rfl (by simp)
        · obtain rfl := Option.some.inj ht
          exact Stepped.waits (Onward.same rfl rfl) hu rfl rfl rfl (by simp) (by simp)
    · cases ht
  | install i =>
    simp only [Manager.hydrateStep] at ht
    split at ht
    · rename_i q goal events hu
      have hread : (s.runs q).hydrated = false → (s.runs q).store = true →
          Restorable (s.runs q).live events := by
        have hok := mi.threads i
        rw [hu] at hok
        exact hok
      split_ifs at ht
      split at ht
      · obtain rfl := Option.some.inj ht
        exact unhydrated_stepped hu rfl (by simp)
      · rename_i b hinstall
        obtain rfl := Option.some.inj ht
        obtain ⟨h,hh⟩ := exists_hold s q
        have hev := install_evolves (mi.ok q h hh) hinstall hread
        exact Stepped.waits (Onward.put hev) hu rfl rfl rfl (by simp) (by simp)
    · cases ht
  | _ => cases ht

theorem launch_stepped {turn : RunTurn} (hu : s.threads i = u) (hplain : u.Plain)
    (ht : s.launch i q turn = some t) : Stepped s a t := by
  unfold Manager.launch at ht
  split_ifs at ht
  split at ht
  · obtain rfl := Option.some.inj ht
    exact Stepped.put hu hplain (Evolves.refl _).release ⟨rfl,(by simp)⟩
  · rename_i done hdone
    obtain rfl := Option.some.inj ht
    exact Stepped.put hu hplain (launchTurn_evolves hdone) ⟨rfl,(by simp)⟩

theorem turnStep_stepped (ht : s.turnStep a = some t) : Stepped s a t := by
  cases a with
  | launch i =>
    simp only [Manager.turnStep] at ht
    split at ht
    · rename_i hu
      exact launch_stepped hu ⟨rfl,(by simp)⟩ ht
    · rename_i hu
      exact launch_stepped hu ⟨rfl,(by simp)⟩ ht
    · cases ht
  | beginTurn i =>
    simp only [Manager.turnStep] at ht
    split at ht
    · rename_i hu
      split_ifs at ht
      · obtain rfl := Option.some.inj ht
        exact Stepped.thread hu ⟨rfl,(by simp)⟩ ⟨rfl,(by simp)⟩
      · obtain rfl := Option.some.inj ht
        exact Stepped.thread hu ⟨rfl,(by simp)⟩ ⟨rfl,(by simp)⟩
      · split at ht
        · obtain rfl := Option.some.inj ht
          exact Stepped.thread hu ⟨rfl,(by simp)⟩ ⟨rfl,(by simp)⟩
        · rename_i done hbegin
          obtain rfl := Option.some.inj ht
          exact Stepped.put hu ⟨rfl,(by simp)⟩ (beginTurn_evolves hbegin) ⟨rfl,(by simp)⟩
    · cases ht
  | stop i =>
    simp only [Manager.turnStep] at ht
    split at ht
    · rename_i hu
      split_ifs at ht
      obtain rfl := Option.some.inj ht
      exact Stepped.put hu ⟨rfl,(by simp)⟩ (stop_evolves _) ⟨rfl,(by simp)⟩
    · cases ht
  | _ => cases ht

theorem agentStep_stepped (mi : ManagerInv s)
    (ht : s.agentStep bindRootCauseEvidence a = some t) : Stepped s a t := by
  cases a with
  | emit i e =>
    simp only [Manager.agentStep] at ht
    split at ht
    · split_ifs at ht with hrefused
      obtain rfl := Option.some.inj ht
      have hagent : e.isAgent = true := by
        by_contra hn
        exact hrefused (.inr (by simpa using hn))
      exact Stepped.still (Onward.of_evolves rfl (put_evolves (emit_evolves _ hagent))) rfl rfl
    · cases ht
  | agentReturns i diag turnErr outcome timeout =>
    simp only [Manager.agentStep] at ht
    split at ht
    · rename_i q turn hu
      split_ifs at ht
      · obtain rfl := Option.some.inj ht
        obtain ⟨terminal,verify,hclosing,_⟩ :=
          closing_spec s q turn diag turnErr outcome timeout
        rw [hclosing]
        exact Stepped.thread hu ⟨rfl,(by simp)⟩ ⟨rfl,(by simp)⟩
      · obtain rfl := Option.some.inj ht
        exact Stepped.thread hu ⟨rfl,(by simp)⟩ ⟨rfl,(by simp)⟩
    · cases ht
  | finish i =>
    have hthread := mi.threads i
    simp only [Manager.agentStep] at ht
    split at ht
    · rename_i hu
      split_ifs at ht
      obtain rfl := Option.some.inj ht
      exact Stepped.put hu ⟨rfl,(by simp)⟩ (finishTurn_evolves _ _ _ _ _) ⟨rfl,(by simp)⟩
    · rename_i q turn terminal hu
      rw [hu] at hthread
      split_ifs at ht
      obtain rfl := Option.some.inj ht
      exact Stepped.put hu ⟨rfl,(by simp)⟩ (finishApply_evolves _ hthread.1) ⟨rfl,(by simp)⟩
    · rename_i q turn terminal question hu
      rw [hu] at hthread
      split_ifs at ht
      split at ht
      · obtain rfl := Option.some.inj ht
        exact Stepped.put hu ⟨rfl,(by simp)⟩ (Evolves.refl _).release ⟨rfl,(by simp)⟩
      · rename_i done hdone
        obtain rfl := Option.some.inj ht
        exact Stepped.put hu ⟨rfl,(by simp)⟩ (finishApplyAndBegin_evolves hthread.1 hdone)
          ⟨rfl,(by simp)⟩
    · cases ht
  | _ => cases ht

theorem sweepStep_stepped (mi : ManagerInv s) (ht : s.sweepStep a = some t) : Stepped s a t := by
  cases a with
  | markStale i =>
    simp only [Manager.sweepStep] at ht
    split at ht
    · rename_i q todo hu
      split_ifs at ht
      obtain rfl := Option.some.inj ht
      obtain ⟨h,hh⟩ := exists_hold s q
      exact Stepped.put hu ⟨rfl,(by simp)⟩ (markStale_evolves (mi.ok q h hh)) ⟨rfl,(by simp)⟩
    · rename_i hu
      obtain rfl := Option.some.inj ht
      exact Stepped.thread hu ⟨rfl,(by simp)⟩ ⟨rfl,(by simp)⟩
    · cases ht
  | shutdownRun i =>
    simp only [Manager.sweepStep] at ht
    split at ht
    · rename_i hu
      split_ifs at ht
      obtain rfl := Option.some.inj ht
      exact Stepped.put hu ⟨rfl,(by simp)⟩ (shutdown_evolves _) ⟨rfl,(by simp)⟩
    · cases ht
  | onContextSwitch i | shutdown i =>
    simp only [Manager.sweepStep] at ht
    split at ht
    · rename_i hu
      split_ifs at ht
      obtain rfl := Option.some.inj ht
      exact Stepped.thread hu ⟨rfl,(by simp)⟩ ⟨rfl,(by simp)⟩
    · cases ht
  | closeStore i =>
    simp only [Manager.sweepStep] at ht
    split at ht
    · rename_i hu
      obtain rfl := Option.some.inj ht
      exact Stepped.plain (Onward.same rfl rfl) hu ⟨rfl,(by simp)⟩ rfl rfl ⟨rfl,(by simp)⟩
    · cases ht
  | _ => cases ht

theorem drops_evolves (dropped : List ℕ) : ∀ s : Manager,
    (∀ r, Evolves (s.runs r) ((dropped.foldl Manager.drop s).runs r)) ∧
      (dropped.foldl Manager.drop s).threads = s.threads ∧
      (dropped.foldl Manager.drop s).made = s.made ∧
      (dropped.foldl Manager.drop s).processed = s.processed := by
  induction dropped with
  | nil => exact fun _ => ⟨fun _ => Evolves.refl _,rfl,rfl,rfl⟩
  | cons q dropped ih =>
    intro s
    obtain ⟨hruns,hthreads,hmade,hprocessed⟩ := ih (s.drop q)
    exact ⟨fun r => (drop_evolves_all s q r).trans (hruns r),hthreads,hmade,hprocessed⟩

theorem clearStep_stepped (ht : s.clearStep a = some t) : Stepped s a t := by
  cases a with
  | clearHistory i | visit i | clearTerminal i _ =>
    simp only [Manager.clearStep] at ht
    split at ht
    · rename_i hu
      split_ifs at ht
      all_goals
        obtain rfl := Option.some.inj ht
        exact Stepped.plain (Onward.same rfl rfl) hu ⟨rfl,(by simp)⟩ rfl rfl ⟨rfl,(by simp)⟩
    · cases ht
  | clearReturns i =>
    simp only [Manager.clearStep] at ht
    split at ht
    · rename_i kept dropped stamp commits hu
      split_ifs at ht
      · obtain rfl := Option.some.inj ht
        obtain ⟨hruns,hthreads,hmade,hprocessed⟩ := drops_evolves dropped s
        refine Stepped.plain (v := .idle) (Onward.of_evolves hmade hruns) hu ⟨rfl,(by simp)⟩ ?_
          hprocessed ⟨rfl,(by simp)⟩
        show Function.update _ i _ = _
        rw [hthreads]
      · obtain rfl := Option.some.inj ht
        exact Stepped.plain (Onward.same rfl rfl) hu ⟨rfl,(by simp)⟩ rfl rfl ⟨rfl,(by simp)⟩
    · cases ht
  | _ => cases ht

/-- A cancelled channel is closed; its reader drains it. -/
theorem cancel_stepped (ht : s.readStep (.cancel i) = some t) : Stepped s (.cancel i) t := by
  simp only [Manager.readStep] at ht
  split at ht
  · split_ifs at ht
    obtain rfl := Option.some.inj ht
    exact Stepped.still (Onward.of_evolves rfl (put_evolves
      (cancelSub_evolves _ _))) rfl rfl
  · cases ht

end Steps

end Radar.Ai
