import Radar.Ai.Readers

/-!
# Every event exactly once

The steps of the readers themselves, then whole runs. A reader that subscribes
to a finalized run is given all that it has not yet processed; whatever happens
afterwards, it has the whole log once it has drained that.
-/

set_option autoImplicit false

namespace Radar.Ai

open Radar.Numbered
open Radar.Run (run run_invariant)
open Radar.Ai.Run

section Reads

variable {bindRootCauseEvidence : List RunEvent → Verdict → Verdict} {s t : Manager} {a : Act}
  {i j r : ℕ}

theorem Given.start {r c : ℕ} {backlog : List RunEvent} (h : Given s i r c backlog) :
    s.processed i <+: (s.runs r).events := by
  obtain ⟨rest,hall,_⟩ := h
  rw [← hall, List.append_assoc, List.append_assoc]
  exact List.prefix_append _ _

/-- A new subscription: the rest of the log, and an empty channel. -/
theorem subscribe_spec (r : Run) (n : ℕ) :
    (r.subscribe n).2.1 = r.events.filter (fun e => n < e.seq) ∧
      (r.subscribe n).2.2 = r.nextSub ∧ (r.subscribe n).1.nextSub = r.nextSub+1 ∧
      (r.subscribe n).1.events = r.events ∧
      (r.subscribe n).1.chans r.nextSub = ⟨[],!r.live⟩ := by
  unfold Run.subscribe Run.live
  cases r.subs <;> simp

theorem subscribe_readers (mi : ManagerInv s) (inv : Readers s)
    (ht : s.readStep (.subscribe i) = some t) : Readers t ∧ ∃ r c backlog,
      s.threads i = .ready r .subscribe ∧ t.threads i = .reading r c backlog ∧
      t.processed i++backlog = (t.runs r).events ∧ ((t.runs r).chans c).buf = [] ∧
      (t.runs r).events = (s.runs r).events ∧ (t.runs r).live = (s.runs r).live ∧
      Observed (t.runs r) ∧ r < t.made ∧
      ((t.runs r).chans c).closed = !(s.runs r).live := by
  simp only [Manager.readStep] at ht
  split at ht
  · rename_i r hu
    split_ifs at ht
    obtain rfl := Option.some.inj ht
    have hseen : Observed (s.runs r) := by
      have hthread := mi.threads i
      rw [hu] at hthread
      exact hthread (by simp)
    obtain ⟨hborn,hstart⟩ := (inv.ok i).waits r (by rw [hu]; rfl)
    obtain ⟨h,hh⟩ := exists_hold s r
    have hresume := resume (mi.ok r h hh).numbered hstart
    obtain ⟨hbacklog,hchan,hnext,hevents,hnew⟩ :=
      subscribe_spec (s.runs r) (((s.processed i).getLast?.map (·.seq)).getD 0)
    have hev := subscribe_evolves hseen (((s.processed i).getLast?.map (·.seq)).getD 0)
    have hcore := subscribe_core (s.runs r) (((s.processed i).getLast?.map (·.seq)).getD 0)
    generalize (s.runs r).subscribe (((s.processed i).getLast?.map (·.seq)).getD 0) = got
      at hbacklog hchan hnext hevents hnew hev hcore
    have hrun : ((s.put r (got.1,[])).setThread i (.reading r got.2.2 got.2.1)).runs r = got.1 := by
      show Function.update s.runs r got.1 r = _
      rw [Function.update_self]
    have hthere : s.processed i++got.2.1 = got.1.events := by
      rw [hbacklog, hresume, hevents]
    refine ⟨inv.move (i := i) (v := .reading r got.2.2 got.2.1) (Onward.put hev)
      rfl (fun _ _ => rfl) ⟨fun _ hwaits => (by cases hwaits),?_⟩ ?_,r,got.2.2,got.2.1,hu,
      ?_,?_,?_,?_,?_,?_,hborn,?_⟩
    · rintro _ _ _ ⟨⟩
      rw [hrun, Given, hrun, hchan, hnew]
      refine ⟨hborn,hev.observed hseen,by omega,[],?_,fun _ => rfl⟩
      rw [List.append_nil, List.append_nil]
      exact hthere
    · rintro _ _ _ ⟨⟩ j _ d hj
      have hlt := ((inv.ok j).reading _ _ _ hj).2.2.1
      omega
    · exact Function.update_self ..
    · rw [hrun]
      exact hthere
    · rw [hrun, hchan, hnew]
    · rw [hrun, hevents]
    · rw [hrun, core_live hcore]
    · rw [hrun]
      exact hev.observed hseen
    · rw [hrun, hchan, hnew]
  · cases ht

theorem receive_readers (inv : Readers s) (ht : s.readStep (.receive i) = some t) : Readers t := by
  simp only [Manager.readStep] at ht
  split at ht
  · rename_i r c e rest hu
    split_ifs at ht
    obtain rfl := Option.some.inj ht
    obtain ⟨hborn,hseen,hc,more,hall,hopen⟩ := (inv.ok i).reading r c (e::rest) hu
    refine inv.move (i := i) (v := .reading r c rest) (Onward.same rfl rfl) rfl
      (fun j hj => Function.update_of_ne hj _ _) ⟨fun _ hwaits => (by cases hwaits),?_⟩ ?_
    · rintro _ _ _ ⟨⟩
      refine ⟨hborn,hseen,hc,more,?_,hopen⟩
      show Function.update s.processed i (s.processed i++[e]) i++rest++
        ((s.runs r).chans c).buf++more = (s.runs r).events
      rw [Function.update_self, ← hall]
      simp
    · rintro _ _ _ ⟨⟩ j hj d hd
      exact hj (inv.apart j i r c d _ hd hu)
  · rename_i r c hu
    split_ifs at ht
    split at ht
    · cases ht
    · rename_i e rest hbuf
      obtain rfl := Option.some.inj ht
      obtain ⟨hborn,hseen,hc,more,hall,hopen⟩ := (inv.ok i).reading r c [] hu
      have hrun : ((s.process i e).put r ((s.runs r).receive c,[])).runs =
          Function.update s.runs r ((s.runs r).receive c) := rfl
      have hproc : ((s.process i e).put r ((s.runs r).receive c,[])).processed =
          Function.update s.processed i (s.processed i++[e]) := rfl
      have hchan : ((s.runs r).receive c).chans =
          Function.update (s.runs r).chans c ⟨rest,((s.runs r).chans c).closed⟩ := by
        show Function.update (s.runs r).chans c { (s.runs r).chans c with
          buf := ((s.runs r).chans c).buf.tail } = _
        rw [hbuf]
        rfl
      refine ⟨fun q => ?_,fun q => ?_,fun j => ?_,inv.apart⟩
      · rw [hrun]
        by_cases hq : q = r
        · rw [hq, Function.update_self]
          refine ⟨(inv.wired r).born,fun d hd => ?_,(inv.wired r).quiet⟩
          rw [hchan]
          by_cases hdc : d = c
          · rw [hdc, Function.update_self]
            exact (inv.wired r).closed c hc
          · rw [Function.update_of_ne hdc]
            exact (inv.wired r).closed d hd
        · rw [Function.update_of_ne hq]
          exact inv.wired q
      · rw [hrun]
        by_cases hq : q = r
        · rw [hq, Function.update_self]
          exact (inv.ended r).of_core (receive_core (s.runs r) c)
        · rw [Function.update_of_ne hq]
          exact inv.ended q
      · show ReaderOk _ j (s.threads j)
        by_cases hj : j = i
        · rw [hj, hu]
          refine ⟨fun _ hwaits => (by cases hwaits),?_⟩
          rintro _ _ _ ⟨⟩
          rw [Given, hrun, hproc, Function.update_self, Function.update_self, hchan,
            Function.update_self]
          refine ⟨hborn,hseen,hc,more,?_,hopen⟩
          rw [hbuf] at hall
          show _ = (s.runs r).events
          rw [← hall]
          simp
        · have hold := inv.ok j
          have hsame : ∀ q, (Function.update s.runs r ((s.runs r).receive c) q).events =
              (s.runs q).events := by
            intro q
            by_cases hq : q = r
            · rw [hq, Function.update_self]
              rfl
            · rw [Function.update_of_ne hq]
          refine ⟨fun q hq => ?_,fun q d b hd => ?_⟩
          · rw [hrun, hproc, Function.update_of_ne hj, hsame]
            exact hold.waits q hq
          · have hgiven := hold.reading q d b hd
            rw [Given, hrun, hproc, Function.update_of_ne hj]
            by_cases hq : q = r
            · have hdc : d ≠ c := by
                intro hdc
                rw [hq, hdc] at hd
                exact hj (inv.apart j i r c b [] hd hu)
              rw [hq, Function.update_self, hchan, Function.update_of_ne hdc]
              rw [hq] at hgiven
              exact hgiven
            · rw [Function.update_of_ne hq]
              exact hgiven
  · cases ht

theorem resubscribe_readers (inv : Readers s) (ht : s.readStep (.resubscribe i) = some t) :
    Readers t := by
  simp only [Manager.readStep] at ht
  split at ht
  · rename_i r c hu
    split_ifs at ht
    obtain rfl := Option.some.inj ht
    obtain ⟨hborn,_,_,hgiven⟩ := (inv.ok i).reading r c [] hu
    refine inv.move (i := i) (v := .looked r .subscribe) (Onward.same rfl rfl) rfl (fun _ _ => rfl)
      ⟨?_,(by simp)⟩ (by simp)
    rintro _ ⟨⟩
    exact ⟨hborn,hgiven.start⟩
  · cases ht

/-- A step is a reader's, or it feeds no channel to one. -/
theorem step_stepped (mi : ManagerInv s) (ht : s.step bindRootCauseEvidence a = some t) :
    Stepped s a t ∧ (∀ j, ¬ a.readsAs j) ∨ ∃ j, a.readsAs j ∧ s.readStep a = some t := by
  rcases step_cases ht with ⟨rfl,_,rfl⟩ | ⟨_,rfl,rfl⟩ | ht | ht | ht | ht | ht | ht | ht
  · exact .inl ⟨Stepped.still (Onward.same rfl rfl) rfl rfl,by rintro j (h | h | h) <;> cases h⟩
  · exact .inl ⟨Stepped.still (Onward.same rfl rfl) rfl rfl,by rintro j (h | h | h) <;> cases h⟩
  · exact .inl ⟨startStep_stepped ht,by rintro j (rfl | rfl | rfl) <;> cases ht⟩
  · exact .inl ⟨hydrateStep_stepped mi ht,by rintro j (rfl | rfl | rfl) <;> cases ht⟩
  · exact .inl ⟨turnStep_stepped ht,by rintro j (rfl | rfl | rfl) <;> cases ht⟩
  · exact .inl ⟨agentStep_stepped mi ht,by rintro j (rfl | rfl | rfl) <;> cases ht⟩
  · exact .inl ⟨sweepStep_stepped mi ht,by rintro j (rfl | rfl | rfl) <;> cases ht⟩
  · exact .inl ⟨clearStep_stepped ht,by rintro j (rfl | rfl | rfl) <;> cases ht⟩
  · cases a with
    | subscribe i => exact .inr ⟨i,.inl rfl,ht⟩
    | receive i => exact .inr ⟨i,.inr (.inl rfl),ht⟩
    | cancel i => exact .inl ⟨cancel_stepped ht,by rintro j (h | h | h) <;> cases h⟩
    | resubscribe i => exact .inr ⟨i,.inr (.inr rfl),ht⟩
    | _ => cases ht

theorem step_readers (mi : ManagerInv s) (inv : Readers s)
    (ht : s.step bindRootCauseEvidence a = some t) : Readers t := by
  rcases step_stepped mi ht with ⟨h,ha⟩ | ⟨i,rfl | rfl | rfl,ht⟩
  · exact inv.stepped h ha
  · exact (subscribe_readers mi inv ht).1
  · exact receive_readers inv ht
  · exact resubscribe_readers inv ht

/-- A reader's step leaves the others alone, and of the runs all but the channels. -/
theorem read_frame (ha : a.readsAs j) (ht : s.readStep a = some t) :
    (∀ k ≠ j, t.threads k = s.threads k ∧ t.processed k = s.processed k) ∧
      (∀ r, (t.runs r).core = (s.runs r).core) ∧ t.made = s.made := by
  have hput : ∀ {w : Manager} {q : ℕ} {b : Run}, b.core = (w.runs q).core → ∀ r,
      ((w.put q (b,[])).runs r).core = (w.runs r).core := by
    intro w q b hb r
    show (Function.update w.runs q b r).core = _
    by_cases hr : r = q
    · rw [hr, Function.update_self, hb]
    · rw [Function.update_of_ne hr]
  rcases ha with rfl | rfl | rfl
  · simp only [Manager.readStep] at ht
    split at ht
    · split_ifs at ht
      obtain rfl := Option.some.inj ht
      exact ⟨fun k hk => ⟨Function.update_of_ne hk _ _,rfl⟩,hput (subscribe_core _ _),rfl⟩
    · cases ht
  · simp only [Manager.readStep] at ht
    split at ht
    · split_ifs at ht
      obtain rfl := Option.some.inj ht
      exact ⟨fun k hk => ⟨Function.update_of_ne hk _ _,Function.update_of_ne hk _ _⟩,
        fun _ => rfl,rfl⟩
    · rename_i q c _
      split_ifs at ht
      split at ht
      · cases ht
      · rename_i e _ _
        obtain rfl := Option.some.inj ht
        exact ⟨fun k hk => ⟨rfl,Function.update_of_ne hk _ _⟩,
          hput (w := s.process j e) (receive_core _ c),rfl⟩
    · cases ht
  · simp only [Manager.readStep] at ht
    split at ht
    · split_ifs at ht
      obtain rfl := Option.some.inj ht
      exact ⟨fun k hk => ⟨Function.update_of_ne hk _ _,rfl⟩,fun _ => rfl,rfl⟩
    · cases ht

end Reads

section Finalized

variable {bindRootCauseEvidence : List RunEvent → Verdict → Verdict} {s t : Manager} {a : Act}
  {i r : ℕ}

/-- A reader that subscribed after the end: it has the whole log, or still has it to process. -/
structure CaughtUp (s : Manager) (i r : ℕ) : Prop where
  born : r < s.made
  seen : Observed (s.runs r)
  dead : (s.runs r).live = false
  reader : (∃ c backlog, s.threads i = .reading r c backlog ∧
    s.processed i++backlog = (s.runs r).events) ∨
    (s.threads i).waits = some r ∧ s.processed i = (s.runs r).events

/-- The log of a finalized run is as it was. -/
theorem CaughtUp.stay (h : CaughtUp s i r) (hmade : s.made ≤ t.made)
    (hevents : (t.runs r).events = (s.runs r).events) (hdead : (t.runs r).live = false)
    (hseen : Observed (t.runs r)) (hprocessed : t.processed i = s.processed i)
    (hthread : t.threads i = s.threads i ∨
      (s.threads i).waits = some r ∧ (t.threads i).waits = some r) : CaughtUp t i r where
  born := h.born.trans_le hmade
  seen := hseen
  dead := hdead
  reader := by
    rw [hevents, hprocessed]
    rcases hthread with hthread | ⟨hwas,hwaits⟩
    · rw [hthread]
      exact h.reader
    · rcases h.reader with ⟨c,backlog,hreading,_⟩ | ⟨_,hall⟩
      · rw [hreading] at hwas
        nomatch hwas
      · exact .inr ⟨hwaits,hall⟩

theorem CaughtUp.not_plain (h : CaughtUp s i r) : ¬ (s.threads i).Plain := by
  intro hplain
  rcases h.reader with ⟨c,backlog,hreading,_⟩ | ⟨hwaits,_⟩
  · exact hplain.2 r c backlog hreading
  · cases hplain.1.symm.trans hwaits

theorem CaughtUp.stepped (h : CaughtUp s i r) (k : Stepped s a t) (ha : ∀ j, ¬ a.readsAs j) :
    CaughtUp t i r := by
  have hborn := h.born
  rcases k.onward.runs r with hev | ⟨hnew,_⟩
  · obtain ⟨hevents,hdead⟩ := hev.still h.seen h.dead
    have hseen := hev.observed h.seen
    rcases k.turned i with ⟨hthread,hprocessed⟩ | ⟨hplain,_⟩ | ⟨hplain,_⟩ |
      ⟨q,hwas,hwaits,hprocessed⟩ | hreads
    · exact h.stay k.onward.made hevents hdead hseen hprocessed (.inl hthread)
    · exact absurd hplain h.not_plain
    · exact absurd hplain h.not_plain
    · have hq : q = r := by
        rcases h.reader with ⟨c,backlog,hreading,_⟩ | ⟨hwaiting,_⟩
        · rw [hreading] at hwas
          nomatch hwas
        · exact Option.some.inj (hwas.symm.trans hwaiting)
      rw [hq] at hwas hwaits
      exact h.stay k.onward.made hevents hdead hseen hprocessed (.inr ⟨hwas,hwaits⟩)
    · exact absurd hreads (ha i)
  · omega

theorem CaughtUp.reads (mi : ManagerInv s) (inv : Readers s) (h : CaughtUp s i r) {j : ℕ}
    (ha : a.readsAs j) (ht : s.readStep a = some t) : CaughtUp t i r := by
  obtain ⟨hothers,hcore,hmade⟩ := read_frame ha ht
  have hevents := core_events (hcore r)
  have hdead := (core_live (hcore r)).trans h.dead
  have hseen := observed_of_core (hcore r) h.seen
  by_cases hij : i = j
  · obtain rfl := hij
    rcases ha with rfl | rfl | rfl
    · obtain ⟨_,q,c,backlog,hu,hthread,hall,_,_,_,_,hborn,_⟩ := subscribe_readers mi inv ht
      have hq : q = r := by
        rcases h.reader with ⟨c,backlog,hreading,_⟩ | ⟨hwaits,_⟩
        · cases hu.symm.trans hreading
        · rw [hu] at hwaits
          exact Option.some.inj hwaits
      rw [hq] at hthread hall hborn
      exact ⟨hborn,hseen,hdead,.inl ⟨c,backlog,hthread,hall⟩⟩
    · rcases h.reader with ⟨c,backlog,hreading,hall⟩ | ⟨hwaits,_⟩
      · have hgiven := ((inv.ok i).reading r c backlog hreading).2.2.2
        simp only [Manager.readStep, hreading] at ht
        cases backlog with
        | cons e rest =>
          simp only at ht
          split_ifs at ht
          obtain rfl := Option.some.inj ht
          refine ⟨h.born,hseen,hdead,.inl ⟨c,rest,Function.update_self ..,?_⟩⟩
          show Function.update s.processed i (s.processed i++[e]) i++rest = (s.runs r).events
          rw [Function.update_self, ← hall]
          simp
        | nil =>
          simp only at ht
          obtain ⟨rest,hbuf,_⟩ := hgiven
          rw [hall, List.append_assoc] at hbuf
          have hnone := List.append_eq_nil_iff.mp (List.append_right_eq_self.mp hbuf)
          rw [hnone.1] at ht
          split_ifs at ht
      · simp only [Manager.readStep] at ht
        split at ht
        · rename_i hu
          rw [hu] at hwaits
          cases hwaits
        · rename_i hu
          rw [hu] at hwaits
          cases hwaits
        · cases ht
    · simp only [Manager.readStep] at ht
      split at ht
      · rename_i q c hu
        split_ifs at ht
        obtain rfl := Option.some.inj ht
        rcases h.reader with ⟨d,backlog,hreading,hall⟩ | ⟨hwaits,_⟩
        · obtain ⟨rfl,_,rfl⟩ := Thread.reading.inj (hu.symm.trans hreading)
          refine ⟨h.born,hseen,hdead,.inr ⟨?_,?_⟩⟩
          · show (Function.update s.threads i _ i).waits = _
            rw [Function.update_self]
            rfl
          · exact (List.append_nil _).symm.trans hall
        · rw [hu] at hwaits
          cases hwaits
      · cases ht
  · obtain ⟨hthread,hprocessed⟩ := hothers i hij
    exact h.stay hmade.ge hevents hdead hseen hprocessed (.inl hthread)

theorem CaughtUp.step (mi : ManagerInv s) (inv : Readers s) (h : CaughtUp s i r)
    (ht : s.step bindRootCauseEvidence a = some t) : CaughtUp t i r := by
  rcases step_stepped mi ht with ⟨k,ha⟩ | ⟨j,ha,ht⟩
  · exact h.stepped k ha
  · exact h.reads mi inv ha ht

end Finalized

/-- A reader of a run. -/
def Reads (s : Manager) (i r : ℕ) : Prop :=
  (s.threads i).waits = some r ∨ ∃ c backlog, s.threads i = .reading r c backlog

/-- The log has come to its end. -/
def ClosedLog (r : Run) : Prop := ∃ a e, r.events = a++[e] ∧ e.event.isClosed = true

/-- What a reader of a run has processed, has been given and can still get. -/
structure Exactly (s : Manager) (i r : ℕ) : Prop where
  numbered : From RunEvent.seq 0 (s.runs r).events
  processed : s.processed i <+: (s.runs r).events
  given : ∀ c backlog, s.threads i = .reading r c backlog →
    s.processed i++backlog++((s.runs r).chans c).buf <+: (s.runs r).events ∧
      (((s.runs r).chans c).closed = false →
        s.processed i++backlog++((s.runs r).chans c).buf = (s.runs r).events)
  /-- A reader that stops has the whole log. -/
  stops : s.stopped i = true → s.processed i = (s.runs r).events ∧ ClosedLog (s.runs r)
  /-- A reader that has drained its channel goes on once the run is finalized. -/
  resumes : (s.runs r).live = false → ∀ c, s.threads i = .reading r c [] →
    ((s.runs r).chans c).buf = [] → s.stopped i = false →
    s.readStep (.resubscribe i) = some (s.setThread i (.looked r .subscribe))

section Claim

variable {bindRootCauseEvidence : List RunEvent → Verdict → Verdict} {s t u v : Manager}
  {as bs : List Act} {i r : ℕ}

theorem restored_wired {run : Run} (h : Restored run) : Wired run ∧ Ended run := by
  have hids : run.subs.getD [] = [] := by
    rw [h.subs]
    split <;> rfl
  refine ⟨⟨?_,?_,fun _ => hids⟩,fun x re y hxy => ?_,fun _ => .inr ⟨h.events,h.hydrated⟩⟩
  · rw [hids]
    nofun
  · rw [h.nextSub]
    nofun
  · rw [h.events] at hxy
    simp at hxy

theorem inert_wired (r : ℕ) : Wired { id := r } ∧ Ended { id := r } := by
  refine ⟨⟨nofun,nofun,fun _ => rfl⟩,fun x re y hxy => ?_,fun _ => .inr ⟨rfl,rfl⟩⟩
  have hxy : [] = x++re::y := hxy
  simp at hxy

theorem Loaded.readers (h : Loaded s) : Readers s := by
  have hboth : ∀ r, Wired (s.runs r) ∧ Ended (s.runs r) := by
    intro r
    rcases h.cases r with ⟨_,hr⟩ | hr
    · exact restored_wired hr
    · rw [hr]
      exact inert_wired r
  refine ⟨fun r => (hboth r).1,fun r => (hboth r).2,fun i => ?_,fun i j r c b d hi => ?_⟩
  · rw [h.idle i]
    exact ⟨nofun,nofun⟩
  · rw [h.idle i] at hi
    cases hi

theorem reached_readers (hs : Loaded s)
    (hr : run (Manager.step bindRootCauseEvidence) s as = some t) :
    ManagerInv t ∧ Readers t :=
  run_invariant (I := fun s => ManagerInv s ∧ Readers s)
    (fun _ _ _ inv ht => ⟨(step_kept inv.1 ht).1,step_readers inv.1 inv.2 ht⟩)
    ⟨hs.inv,hs.readers⟩ hr

/-- A finalized run has no open channel. -/
theorem closed_of_dead (inv : Readers s) (hdead : (s.runs r).live = false) {c : ℕ}
    (hc : c < (s.runs r).nextSub) : ((s.runs r).chans c).closed = true := by
  by_contra hn
  have hin := ((inv.wired r).closed c hc).mp (by simpa using hn)
  unfold Run.live at hdead
  cases hsubs : (s.runs r).subs with
  | none =>
    rw [hsubs] at hin
    cases hin
  | some ids =>
    rw [hsubs] at hdead
    cases hdead

theorem exactly_of_inv (mi : ManagerInv s) (inv : Readers s) (h : Reads s i r) :
    Exactly s i r := by
  have hstart : s.processed i <+: (s.runs r).events := by
    rcases h with hwaits | ⟨c,backlog,hreading⟩
    · exact ((inv.ok i).waits r hwaits).2
    · exact ((inv.ok i).reading r c backlog hreading).2.2.2.start
  obtain ⟨k,hk⟩ := exists_hold s r
  refine ⟨(mi.ok r k hk).numbered,hstart,fun c backlog hreading => ?_,fun hstopped => ?_,
    fun hdead c hreading hbuf hgoes => ?_⟩
  · obtain ⟨_,_,_,rest,hall,hopen⟩ := (inv.ok i).reading r c backlog hreading
    refine ⟨⟨rest,hall⟩,fun hn => ?_⟩
    rw [hopen hn, List.append_nil] at hall
    exact hall
  · obtain ⟨e,he,hclosed⟩ := List.any_eq_true.mp hstopped
    obtain ⟨x,y,hxy⟩ := List.append_of_mem he
    obtain ⟨rest,hrest⟩ := hstart
    have hevents : (s.runs r).events = x++e::(y++rest) := by rw [← hrest, hxy]; simp
    have hnone := ((inv.ended r).last x e (y++rest) hevents hclosed).1
    obtain ⟨rfl,rfl⟩ := List.append_eq_nil_iff.mp hnone
    refine ⟨by simpa using hrest,x,e,by simpa using hevents,hclosed⟩
  · have hc := ((inv.ok i).reading r c [] hreading).2.2.1
    have hclosed := closed_of_dead inv hdead hc
    simp [Manager.readStep, hreading, hgoes, hbuf, hclosed]

/-- What a reader has processed is always a prefix of the log, and it is the whole log once the run
is finalized and the reader has drained a subscription of after that; the log ends with closed
unless its transcript was never in memory. -/
theorem readers_exact (hs : Loaded s)
    (hr : run (Manager.step bindRootCauseEvidence) s as = some t) :
    (∀ i r, Reads t i r → Exactly t i r) ∧
      ∀ i r u, (t.runs r).live = false → t.threads i = .ready r .subscribe →
        t.step bindRootCauseEvidence (.subscribe i) = some u →
        ∀ bs v, run (Manager.step bindRootCauseEvidence) u bs = some v →
          ∀ c, v.threads i = .reading r c [] →
            v.processed i = (v.runs r).events ∧
              (ClosedLog (v.runs r) ∨ (v.runs r).events = [] ∧ (v.runs r).hydrated = false) := by
  obtain ⟨mi,inv⟩ := reached_readers hs hr
  refine ⟨fun i r => exactly_of_inv mi inv,fun i r u hdead hready hsub bs v hrun c hdrained => ?_⟩
  have hcaught : CaughtUp u i r := by
    obtain ⟨_,q,d,backlog,hu,hthread,hall,_,_,hlive,hseen,hborn,_⟩ := subscribe_readers mi inv hsub
    obtain ⟨rfl,_⟩ := Thread.ready.inj (hready.symm.trans hu)
    exact ⟨hborn,hseen,hlive.trans hdead,.inl ⟨d,backlog,hthread,hall⟩⟩
  have hlast := run_invariant (I := fun s => (ManagerInv s ∧ Readers s) ∧ CaughtUp s i r)
    (fun _ _ _ h ht => ⟨⟨(step_kept h.1.1 ht).1,step_readers h.1.1 h.1.2 ht⟩,
      h.2.step h.1.1 h.1.2 ht⟩)
    ⟨⟨(step_kept mi hsub).1,step_readers mi inv hsub⟩,hcaught⟩ hrun
  refine ⟨?_,(hlast.1.2.ended r).closes hlast.2.dead⟩
  rcases hlast.2.reader with ⟨d,backlog,hreading,hall⟩ | ⟨hwaits,hall⟩
  · obtain ⟨_,_,rfl⟩ := Thread.reading.inj (hdrained.symm.trans hreading)
    rw [List.append_nil] at hall
    exact hall
  · exact hall

end Claim

/-- A reader follows the first turn, cancels and is about to subscribe again. -/
def followed : List Act :=
  [.start 0 { kind := "Deployment", name := "web" }, .insert 0, .summarize 0, .saveRun 0, .launch 0,
    .get 1 0 .subscribe, .hydrate 1, .subscribe 1, .receive 1,
    .emit 0 { type := .step, content := "kubectl get" }, .receive 1, .cancel 1, .resubscribe 1]

theorem readers_exact_followed :
    ∃ t, run (Manager.step fun _ v => v) {} followed = some t ∧ Exactly t 1 0 := by
  have hwaits : ((run (Manager.step fun _ v => v) {} followed).map fun s =>
      (s.threads 1).waits) = some (some 0) := by decide +kernel
  obtain ⟨t,ht,hreads⟩ := Option.map_eq_some_iff.mp hwaits
  exact ⟨t,ht,(readers_exact loaded_fresh ht).1 1 0 (.inl hreads)⟩

/-- A stale investigation, as a restart finds it. -/
def staleHistory : Manager where
  runs := Function.update (fun id => { id := id }) 0 { id := 0, status := .stale, store := true }
  made := 1
  order := [0]
  tables :=
    { events := Function.update (fun _ => []) 0
        [⟨1,Run.turnMarker {}⟩,⟨2,staleTerminal false⟩,⟨3,closedEvent⟩] }

theorem loaded_staleHistory : Loaded staleHistory where
  idle _ := rfl
  mu := rfl
  locked := rfl
  ops := rfl
  applied := rfl
  ids r := by
    show (Function.update (fun id => ({ id := id } : Run)) 0 _ r).id = r
    by_cases hr : r = 0
    · rw [hr, Function.update_self]
    · rw [Function.update_of_ne hr]
  nodup := by decide
  born r hr := by
    rw [List.mem_singleton.mp hr]
    decide
  restored r hr := by
    rw [List.mem_singleton.mp hr]
    exact ⟨⟨by decide,rfl,rfl,rfl,rfl,rfl,rfl⟩,by decide,.inr ⟨rfl,by decide⟩⟩
  inert r hr := by
    have hne : r ≠ 0 := fun h => hr (by simp [h, staleHistory])
    show Function.update (fun id => ({ id := id } : Run)) 0 _ r = _
    rw [Function.update_of_ne hne]

/-- A reader looks it up, the history is cleared, and then the reader subscribes. -/
def clearedUnread : List Act :=
  [.get 0 0 .subscribe, .clearHistory 1, .visit 1, .clearTerminal 1 true, .write, .clearReturns 1,
    .hydrate 0, .subscribe 0]

/-- It has drained what it was given after the end of the run, and was given no closed event. -/
theorem clearedUnread_open :
    ∃ t c, Loaded staleHistory ∧
      run (Manager.step fun _ v => v) staleHistory clearedUnread = some t ∧
      (t.runs 0).live = false ∧ t.threads 0 = .reading 0 c [] ∧
      (t.runs 0).chans c = ⟨[],true⟩ ∧ t.stopped 0 = false ∧ ¬ ClosedLog (t.runs 0) := by
  have hrun : ((run (Manager.step fun _ v => v) staleHistory clearedUnread).map fun s =>
      ((s.runs 0).live,(s.runs 0).chans 0,s.stopped 0,(s.runs 0).events)) =
      some (false,⟨[],true⟩,false,[]) := by decide +kernel
  have hreader : ((run (Manager.step fun _ v => v) staleHistory clearedUnread).map
      (·.threads 0)) = some (.reading 0 0 []) := rfl
  obtain ⟨t,ht,hthere⟩ := Option.map_eq_some_iff.mp hrun
  rw [ht, Option.map_some, Option.some.injEq] at hreader
  simp only [Prod.mk.injEq] at hthere
  obtain ⟨hdead,hchan,hstopped,hevents⟩ := hthere
  refine ⟨t,0,loaded_staleHistory,ht,hdead,hreader,hchan,hstopped,?_⟩
  · rintro ⟨x,e,hlog,_⟩
    rw [hevents] at hlog
    simp at hlog

end Radar.Ai
