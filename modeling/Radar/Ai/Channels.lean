import Mathlib.Data.List.Infix
import Radar.Ai.HistorySteps

/-!
# The channels of a run

What a section feeds to the channels that are subscribed is what it appends to
the log; a channel that is closed on the way has got a prefix of it.
-/

set_option autoImplicit false

namespace Radar.Ai

/-- A channel after some events were published. -/
def Fed (es : List RunEvent) (x y : Channel) : Prop :=
  (x.closed = true → y = x) ∧
    (x.closed = false → ∃ got, got <+: es ∧ y.buf = x.buf++got ∧ (y.closed = false → got = es))

section Fed

variable {x y z : Channel} {es more : List RunEvent}

theorem Fed.refl (x : Channel) : Fed [] x x :=
  ⟨fun _ => rfl,fun _ => ⟨[],List.prefix_rfl,by simp,fun _ => rfl⟩⟩

theorem Fed.trans (h : Fed es x y) (k : Fed more y z) : Fed (es++more) x z := by
  constructor
  · intro hx
    obtain rfl := h.1 hx
    exact k.1 hx
  · intro hx
    obtain ⟨got,hgot,hbuf,hall⟩ := h.2 hx
    cases hy : y.closed with
    | true =>
      rw [k.1 hy]
      exact ⟨got,hgot.trans (List.prefix_append es more),hbuf,fun hn => by cases hy.symm.trans hn⟩
    | false =>
      obtain ⟨rest,hrest,hz,hmore⟩ := k.2 hy
      rw [hall hy] at hbuf
      refine ⟨es++rest,(List.prefix_append_right_inj es).mpr hrest,?_,fun hopen => ?_⟩
      · rw [hz, hbuf, List.append_assoc]
      · rw [hmore hopen]

/-- A channel that is closed while nothing is published. -/
theorem Fed.close (x : Channel) : Fed [] x { x with closed := true } := by
  constructor
  · intro hx
    rw [← hx]
  · exact fun _ => ⟨[],List.prefix_rfl,by simp,nofun⟩

end Fed

namespace Run

/-- The log is in memory, or will never be. -/
def Observed (r : Run) : Prop := r.hydrated = true ∨ r.store = false

/-- A channel is open while it is subscribed; nobody subscribes before the log is in memory. -/
structure Wired (r : Run) : Prop where
  born : ∀ c ∈ r.subs.getD [], c < r.nextSub
  closed : ∀ c < r.nextSub, (r.chans c).closed = false ↔ c ∈ r.subs.getD []
  quiet : ¬ Observed r → r.subs.getD [] = []

/-- What a section makes of a run, as far as its readers see it. -/
structure Streams (a b : Run) (es : List RunEvent) : Prop where
  events : b.events = a.events++es
  born : a.nextSub ≤ b.nextSub
  fed : ∀ c < a.nextSub, Fed es (a.chans c) (b.chans c)

section Streams

variable {a b d r : Run} {es more : List RunEvent}

/-- Readers see the events and the channels only. -/
theorem Wired.of_same (w : Wired a) (hsubs : b.subs = a.subs) (hnext : b.nextSub = a.nextSub)
    (hchans : b.chans = a.chans) (hseen : Observed a → Observed b) : Wired b where
  born := by rw [hsubs, hnext]; exact w.born
  closed := by rw [hsubs, hnext, hchans]; exact w.closed
  quiet hn := by rw [hsubs]; exact w.quiet fun ha => hn (hseen ha)

theorem Streams.of_same (hevents : b.events = a.events) (hnext : b.nextSub = a.nextSub)
    (hchans : b.chans = a.chans) : Streams a b [] where
  events := by rw [hevents, List.append_nil]
  born := by rw [hnext]
  fed c _ := by rw [hchans]; exact Fed.refl _

theorem Streams.trans (h : Streams a b es) (k : Streams b d more) : Streams a d (es++more) where
  events := by rw [k.events, h.events, List.append_assoc]
  born := h.born.trans k.born
  fed c hc := (h.fed c hc).trans (k.fed c (hc.trans_le h.born))

theorem publish_wired (w : Wired r) (re : RunEvent) : Wired (r.publish re) := by
  unfold publish
  cases hsubs : r.subs with
  | none => exact w
  | some ids =>
    have hids : r.subs.getD [] = ids := by rw [hsubs]; rfl
    refine ⟨fun c hc => ?_,fun c hc => ?_,fun hn => ?_⟩
    · exact w.born c (hids ▸ (List.mem_filter.mp hc).1)
    · have hopen := w.closed c hc
      rw [hids] at hopen
      by_cases hin : c ∈ ids
      · by_cases hfull : channelSize ≤ (r.chans c).buf.length
        · simp [hin, hfull]
        · simp [hin, hfull, hopen.mpr hin]
      · simp [hin, hopen]
    · rw [← hids, w.quiet hn]
      rfl

theorem publish_fed (w : Wired r) (re : RunEvent) {c : ℕ} (hc : c < r.nextSub) :
    Fed [re] (r.chans c) ((r.publish re).chans c) := by
  have hopen := w.closed c hc
  unfold publish
  cases hsubs : r.subs with
  | none =>
    rw [hsubs] at hopen
    refine ⟨fun _ => rfl,fun hn => ?_⟩
    exact absurd (hopen.mp hn) List.not_mem_nil
  | some ids =>
    rw [hsubs] at hopen
    have hopen : (r.chans c).closed = false ↔ c ∈ ids := hopen
    constructor
    · intro hclosed
      have hout : c ∉ ids := fun hin => by cases hclosed.symm.trans (hopen.mpr hin)
      simp [hout]
    · intro hn
      have hin := hopen.mp hn
      by_cases hfull : channelSize ≤ (r.chans c).buf.length
      · exact ⟨[],List.nil_prefix,by simp [hin, hfull],by simp [hin, hfull]⟩
      · exact ⟨[re],List.prefix_rfl,by simp [hin, hfull],by simp⟩

theorem publish_nextSub (r : Run) (re : RunEvent) : (r.publish re).nextSub = r.nextSub := by
  unfold publish
  cases r.subs <;> rfl

/-- A batch is published one event after the other. -/
theorem publish_all (batch : List RunEvent) : ∀ r : Run, Wired r →
    Wired (batch.foldl publish r) ∧ (batch.foldl publish r).nextSub = r.nextSub ∧
      ∀ c < r.nextSub, Fed batch (r.chans c) ((batch.foldl publish r).chans c) := by
  induction batch with
  | nil => exact fun r w => ⟨w,rfl,fun c _ => Fed.refl _⟩
  | cons re batch ih =>
    intro r w
    obtain ⟨hw,hnext,hfed⟩ := ih (r.publish re) (publish_wired w re)
    rw [publish_nextSub] at hnext hfed
    refine ⟨hw,hnext,fun c hc => ?_⟩
    exact (publish_fed w re hc).trans (hfed c hc)

theorem append_streams (w : Wired r) (es : List StreamEvent) (p : Bool) :
    Wired (r.appendEventsLocked es p).1 ∧ Streams r (r.appendEventsLocked es p).1
      (numberFrom r.events.length es) := by
  have hall := publish_all (numberFrom r.events.length es)
    { r with events := r.events++numberFrom r.events.length es } (w.of_same rfl rfl rfl fun h => h)
  refine ⟨hall.1,?_,hall.2.1.ge,hall.2.2⟩
  exact (congrArg Run.events (appendEventsLocked_core r es p) :)

theorem closeSubs_streams (w : Wired r) : Wired r.closeSubs ∧ Streams r r.closeSubs [] := by
  refine ⟨⟨nofun,fun c hc => ?_,fun _ => rfl⟩,?_,Nat.le_refl _,fun c hc => ?_⟩
  · have hopen := w.closed c hc
    by_cases hin : c ∈ r.subs.getD []
    · simp [closeSubs, hin]
    · simp [closeSubs, hin, hopen]
  · exact (List.append_nil _).symm
  · by_cases hin : c ∈ r.subs.getD []
    · simp only [closeSubs, hin, if_true]
      exact Fed.close _
    · simp only [closeSubs, hin, if_false]
      exact Fed.refl _

end Streams

/-- Where the log ends. -/
structure Ended (r : Run) : Prop where
  last : ∀ a e b, r.events = a++e::b → e.event.isClosed = true → b = [] ∧ r.live = false
  /-- A run that ended before its transcript was loaded has none in memory. -/
  closes : r.live = false → (∃ a e, r.events = a++[e] ∧ e.event.isClosed = true) ∨
    r.events = [] ∧ r.hydrated = false

/-- What a section makes of a run: its readers are fed, and its log ends as it is to. -/
structure Evolves (a b : Run) : Prop where
  streams : Wired a → Wired b ∧ ∃ es, Streams a b es
  ended : Ended a → Ended b
  observed : Observed a → Observed b
  /-- Nothing follows the end. -/
  still : Observed a → a.live = false → b.events = a.events ∧ b.live = false

section Evolves

variable {a b d r : Run} {es : List StreamEvent}

theorem Evolves.trans (h : Evolves a b) (k : Evolves b d) : Evolves a d where
  streams w := by
    obtain ⟨hb,es,hes⟩ := h.streams w
    obtain ⟨hd,more,hmore⟩ := k.streams hb
    exact ⟨hd,es++more,hes.trans hmore⟩
  ended e := k.ended (h.ended e)
  observed ho := k.observed (h.observed ho)
  still ho hdead := by
    obtain ⟨hb,hbdead⟩ := h.still ho hdead
    obtain ⟨hd,hddead⟩ := k.still (h.observed ho) hbdead
    exact ⟨hd.trans hb,hddead⟩

/-- What readers do not see. -/
theorem Evolves.touch (hevents : b.events = a.events) (hsubs : b.subs = a.subs)
    (hnext : b.nextSub = a.nextSub) (hchans : b.chans = a.chans)
    (hyd : b.hydrated = a.hydrated) (hstore : b.store = true → a.store = true) :
    Evolves a b := by
  have hlive : b.live = a.live := by rw [Run.live, Run.live, hsubs]
  have hseen : Observed a → Observed b := by
    rintro (ha | ha)
    · exact .inl (hyd.trans ha)
    · right
      by_contra hb
      cases ha.symm.trans (hstore (by simpa using hb))
  exact
    { streams := fun w =>
        ⟨w.of_same hsubs hnext hchans hseen,[],Streams.of_same hevents hnext hchans⟩
      ended := fun e => ⟨by rw [hevents, hlive]; exact e.last,by
        rw [hevents, hlive, hyd]
        exact e.closes⟩
      observed := hseen
      still := fun _ hdead => ⟨hevents,hlive.trans hdead⟩ }

theorem Evolves.refl (r : Run) : Evolves r r := Evolves.touch rfl rfl rfl rfl rfl fun h => h

theorem observed_of_core (h : b.core = a.core) (ho : Observed a) : Observed b := by
  unfold Observed
  rw [core_hydrated h, core_store h]
  exact ho

theorem Ended.of_core (e : Ended a) (h : b.core = a.core) : Ended b where
  last := by rw [core_events h, core_live h]; exact e.last
  closes := by rw [core_events h, core_live h, core_hydrated h]; exact e.closes

/-- No closed event stands in a log that may still be extended. -/
theorem Ended.open (e : Ended a) (hlive : a.live = true) :
    ∀ re ∈ a.events, re.event.isClosed = false := by
  intro re hre
  obtain ⟨x,y,hxy⟩ := List.append_of_mem hre
  by_contra hn
  cases hlive.symm.trans (e.last x re y hxy (by simpa using hn)).2

theorem numberFrom_closed {n : ℕ} (hes : ∀ e ∈ es, e.isClosed = false) :
    ∀ re ∈ numberFrom n es, re.event.isClosed = false := by
  intro re hre
  refine hes re.event ?_
  rw [← numberFrom_events n es]
  exact List.mem_map_of_mem hre

theorem Evolves.append (hlive : r.live = true) (hes : ∀ e ∈ es, e.isClosed = false) (p : Bool) :
    Evolves r (r.appendEventsLocked es p).1 where
  observed ho := by
    have hcore := appendEventsLocked_core r es p
    have hyd : (r.appendEventsLocked es p).1.hydrated = r.hydrated := (congrArg Run.hydrated hcore :)
    have hstore : (r.appendEventsLocked es p).1.store = r.store := (congrArg Run.store hcore :)
    rw [Observed, hyd, hstore]
    exact ho
  still _ hdead := by cases hlive.symm.trans hdead
  streams w := ⟨(append_streams w es p).1,_,(append_streams w es p).2⟩
  ended e := by
    have hcore := appendEventsLocked_core r es p
    have hevents : (r.appendEventsLocked es p).1.events =
        r.events++numberFrom r.events.length es := (congrArg Run.events hcore :)
    have hstill : (r.appendEventsLocked es p).1.live = true := by
      rw [← live_core, hcore]
      exact (live_core r).trans hlive
    constructor
    · intro x re y hxy hclosed
      rw [hevents] at hxy
      have hre : re ∈ r.events++numberFrom r.events.length es := by rw [hxy]; simp
      rcases List.mem_append.mp hre with hre | hre
      · cases (e.open hlive re hre).symm.trans hclosed
      · cases (numberFrom_closed hes re hre).symm.trans hclosed
    · exact fun hn => by cases hstill.symm.trans hn

/-- The end of a log that closed ends. -/
theorem ended_closed (more : List StreamEvent) (e : Ended r) (hlive : r.live = true)
    (hmore : ∀ e ∈ more, e.isClosed = false) (hdead : b.live = false)
    (hevents : b.events = r.events++numberFrom r.events.length (more++[closedEvent])) :
    Ended b := by
  have hsplit : ∀ n, numberFrom n (more++[closedEvent]) =
      numberFrom n more++[⟨n+more.length+1,closedEvent⟩] := by
    clear hevents hmore
    induction more with
    | nil => exact fun _ => rfl
    | cons d more ih =>
      intro n
      rw [List.cons_append, numberFrom, numberFrom, ih, List.length_cons, List.cons_append]
      have hn : n+1+more.length+1 = n+(more.length+1)+1 := by omega
      rw [hn]
  rw [hsplit, ← List.append_assoc] at hevents
  constructor
  · intro x re y hxy hclosed
    refine ⟨?_,hdead⟩
    rw [hevents] at hxy
    induction y using List.reverseRecOn with
    | nil => rfl
    | append_singleton y last _ =>
      have hinit : r.events++numberFrom r.events.length more = x++re::y := by
        rw [show x++re::(y++[last]) = (x++re::y)++[last] by simp] at hxy
        exact (List.append_inj' hxy rfl).1
      have hre : re ∈ r.events++numberFrom r.events.length more := by rw [hinit]; simp
      rcases List.mem_append.mp hre with hre | hre
      · cases (e.open hlive re hre).symm.trans hclosed
      · cases (numberFrom_closed hmore re hre).symm.trans hclosed
  · exact fun _ => .inl ⟨_,_,hevents,rfl⟩

theorem Evolves.finalize (r : Run) : Evolves r r.finalizeLocked.1 := by
  cases hlive : r.live with
  | false =>
    rw [finalizeLocked, hlive]
    exact Evolves.refl r
  | true =>
    have hcore := finalizeLocked_core hlive
    refine ⟨?_,?_,fun ho => ?_,fun _ hdead => by cases hlive.symm.trans hdead⟩
    · intro w
      rw [finalizeLocked, hlive]
      have hone := publish_all [⟨r.events.length+1,closedEvent⟩]
        { r with events := r.events++[⟨r.events.length+1,closedEvent⟩] } (w.of_same rfl rfl rfl fun h => h)
      have htwo := closeSubs_streams hone.1
      refine ⟨htwo.1,[⟨r.events.length+1,closedEvent⟩]++[],Streams.trans ?_ htwo.2⟩
      exact ⟨core_events (publish_core _ _),hone.2.1.ge,hone.2.2⟩
    · intro e
      exact ended_closed [] e hlive (by simp) (core_live hcore) (core_events hcore)
    · exact observed_of_core hcore ho

theorem Evolves.terminal (r : Run) {terminal : StreamEvent}
    (ht : terminal.isClosed = false) :
    Evolves r (r.appendTerminalAndFinalizeLocked terminal).1 := by
  cases hlive : r.live with
  | false =>
    rw [appendTerminalAndFinalizeLocked, hlive]
    exact Evolves.refl r
  | true =>
    have hcore := appendTerminalAndFinalizeLocked_core hlive terminal r.status
    refine ⟨?_,?_,fun ho => ?_,fun _ hdead => by cases hlive.symm.trans hdead⟩
    · intro w
      rw [appendTerminalAndFinalizeLocked, hlive]
      have hone := append_streams w [terminal,closedEvent] true
      have htwo := closeSubs_streams hone.1
      exact ⟨htwo.1,_,hone.2.trans htwo.2⟩
    · intro e
      exact ended_closed [terminal] e hlive (by simpa using ht) (core_live hcore)
        (core_events hcore)
    · exact observed_of_core hcore ho

/-- The stream of a run whose transcript is not in memory. -/
theorem Evolves.closeSubs (hevents : r.events = []) (hyd : r.hydrated = false) :
    Evolves r r.closeSubs where
  observed ho := ho
  still _ _ := ⟨rfl,rfl⟩
  streams w := ⟨(closeSubs_streams w).1,[],(closeSubs_streams w).2⟩
  ended _ := by
    have hnone : r.closeSubs.events = [] := hevents
    constructor
    · intro x re y hxy
      rw [hnone] at hxy
      simp at hxy
    · exact fun _ => .inr ⟨hnone,hyd⟩

end Evolves

section Sections

variable {r run : Run} {e : StreamEvent} {done : Run × List StoreOp}

theorem closed_of_terminal (he : e.isTerminal = true) : e.isClosed = false := by
  rcases type_of_terminal he with h | h <;> simp [StreamEvent.isClosed, h]

/-- One event is appended to a run that something else was done to. -/
theorem Evolves.appendLocked {a : Run} (h : Evolves r a) (hlive : a.live = true)
    (he : e.isClosed = false) : Evolves r (a.appendLocked e).1 :=
  h.trans (Evolves.append hlive (by simpa using he) _)

theorem Evolves.release {a : Run} (h : Evolves r a) : Evolves r a.release :=
  h.trans (Evolves.touch rfl rfl rfl rfl rfl fun hs => hs)

/-- The fields that readers do not see. -/
theorem Evolves.set (r : Run) (status : Status) (sessionID preview : String) :
    Evolves r { r with status := status, sessionID := sessionID, preview := preview } :=
  Evolves.touch rfl rfl rfl rfl rfl fun hs => hs

theorem stop_evolves (r : Run) : Evolves r r.stop.1 := by
  unfold Run.stop
  cases ht : r.taking with
  | false => exact Evolves.refl r
  | true =>
    exact (Evolves.set r .stopped r.sessionID r.preview).appendLocked (taking_iff.mp ht).2.2
      (closed_of_terminal (stopTerminal_spec _).1)

theorem shutdown_evolves (r : Run) : Evolves r r.shutdown.1 := by
  unfold Run.shutdown
  cases ht : r.taking with
  | false => exact Evolves.refl r
  | true =>
    exact (Evolves.set r .stopped r.sessionID r.preview).appendLocked (taking_iff.mp ht).2.2
      (closed_of_terminal (shutdownTerminal_spec _).1)

theorem markStale_evolves {h : Option Hold} (ok : RunOk h r) : Evolves r r.markStale.1 := by
  rcases markStale_cases r with hsame | ⟨_,_,_,hstale⟩ | ⟨_,hlive,hyd,hstale⟩
  · rw [hsame]
    exact Evolves.refl r
  · rw [hstale]
    exact (Evolves.set r .stale r.sessionID r.preview).trans
      (Evolves.terminal _ (closed_of_terminal (staleTerminal_spec _).1))
  · rw [hstale]
    have hstore : r.store = true := by
      by_contra hn
      cases hlive.symm.trans (ok.detached hyd (by simpa using hn))
    exact (Evolves.set r .stale r.sessionID r.preview).trans
      (Evolves.closeSubs (ok.unhydrated hyd hstore) hyd)

theorem drop_evolves (r : Run) : Evolves r ({ r with store := false }.finalizeLocked).1 := by
  have hdetach : Evolves r { r with store := false } := Evolves.touch rfl rfl rfl rfl rfl nofun
  exact hdetach.trans (Evolves.finalize _)

theorem beginTurn_evolves {requireSession : Bool} (h : r.beginTurn requireSession = some done) :
    Evolves r done.1 := by
  unfold Run.beginTurn at h
  split_ifs at h
  obtain rfl := Option.some.inj h
  exact Evolves.touch rfl rfl rfl rfl rfl fun hs => hs

theorem launchTurn_evolves {turn : RunTurn} (h : r.launchTurn turn = some done) :
    Evolves r done.1 := by
  obtain ⟨ht,rfl⟩ := launchTurn_spec h
  exact (Evolves.refl r).appendLocked (taking_iff.mp ht).2.2 rfl

theorem emit_evolves (r : Run) (he : e.isAgent = true) : Evolves r (r.appendStreamEvent e).1 := by
  unfold appendStreamEvent
  cases ht : r.taking with
  | false => exact Evolves.refl r
  | true =>
    refine (Evolves.refl r).appendLocked (taking_iff.mp ht).2.2 ?_
    rcases type_of_agent he with h | h | h <;> simp [StreamEvent.isClosed, h]

theorem finishApply_evolves (r : Run) (he : e.isTerminal = true) :
    Evolves r (r.finishApplyWithoutVerification e).1 := by
  unfold finishApplyWithoutVerification
  cases ht : r.taking with
  | false => exact (Evolves.refl r).release
  | true =>
    exact ((Evolves.set r .error r.sessionID r.preview).appendLocked (taking_iff.mp ht).2.2
      (closed_of_terminal he)).release

theorem finishApplyAndBegin_evolves {question : String} (he : e.isTerminal = true)
    (h : r.finishApplyAndBeginVerification e question = some done) : Evolves r done.1 := by
  obtain ⟨ht,rfl⟩ := finishApplyAndBeginVerification_spec h
  have hset := Evolves.set r r.status r.sessionID (r.applyPreview e)
  refine hset.trans (Evolves.append (r := { r with preview := r.applyPreview e })
    (taking_iff.mp ht).2.2 ?_ true)
  intro d hd
  rcases List.mem_cons.mp hd with rfl | hd
  · exact closed_of_terminal he
  · rw [List.mem_singleton.mp hd]
    rfl

theorem finishTurn_evolves {bindRootCauseEvidence : List RunEvent → Verdict → Verdict} (r : Run)
    (diag : Diagnosis) (turnErr : Option TurnErr) (apply : Bool) (timeout : String) :
    Evolves r (r.finishTurn bindRootCauseEvidence diag turnErr apply timeout).1 := by
  rcases finishTurn_cases bindRootCauseEvidence r diag turnErr apply
    timeout with ⟨hdone,_⟩ | ⟨hlive,session,preview,status,e,hdone,_,_,he,_⟩
  · rw [hdone]
    exact (Evolves.refl r).release
  · rw [hdone]
    exact ((Evolves.set r status session preview).appendLocked hlive (closed_of_terminal he)).release

/-- The transcript of a run that is read to nobody yet. -/
theorem install_evolves {h : Option Hold} {events : List RunEvent} (ok : RunOk h r)
    (hinstall : r.install events = some run)
    (hread : r.hydrated = false → r.store = true → Restorable r.live events) : Evolves r run := by
  rcases install_spec hinstall with ⟨_,rfl⟩ | ⟨hyd,hstore,rfl,hlast⟩
  · exact Evolves.refl _
  · have hnone := ok.unhydrated hyd hstore
    have hunseen : ¬ Observed r := by
      rintro (hn | hn)
      · cases hyd.symm.trans hn
      · cases hstore.symm.trans hn
    have hsettled := (hread hyd hstore).settled
    refine ⟨fun w => ⟨⟨w.born,w.closed,fun hn => absurd (.inl rfl) hn⟩,events,?_⟩,fun _ => ?_,
      fun _ => .inl rfl,fun ho => absurd ho hunseen⟩
    · refine ⟨by rw [hnone, List.nil_append],Nat.le_refl _,fun c hc => ⟨fun _ => rfl,fun hopen => ?_⟩⟩
      have hin := (w.closed c hc).mp hopen
      rw [w.quiet hunseen] at hin
      cases hin
    · constructor
      · intro x re y hxy hclosed
        have hxy : events = x++re::y := hxy
        have hlog : events.map (·.event) = x.map (·.event)++re.event::y.map (·.event) := by
          simp [hxy]
        obtain ⟨p,hp⟩ : ∃ p, phase (events.map (·.event)) = some p := by
          rcases hsettled with h | ⟨_,h⟩ <;> exact ⟨_,h⟩
        have hy := (transcript_of_phase hp).closed _ _ _ hlog hclosed
        refine ⟨by simpa using hy,?_⟩
        rcases hsettled with hbetween | ⟨hdead,_⟩
        · rw [hlog, hy] at hbetween
          obtain ⟨_,_,hnext⟩ := Radar.Run.run_append_some Phase.next hbetween
          have hthere := (next_closed hclosed (by simpa using hnext)).2
          cases hthere
        · exact hdead
      · intro hdead
        left
        have hclosed := hlast hdead
        show ∃ a e, events = a++[e] ∧ _
        rcases List.eq_nil_or_concat events with rfl | ⟨init,last,rfl⟩
        · cases hclosed
        · exact ⟨init,last,by rw [List.concat_eq_append],by simpa using hclosed⟩

/-- A new channel changes none that there is. -/
theorem update_fed (r : Run) (x : Channel) (c : ℕ) (hc : c < r.nextSub) :
    Fed [] (r.chans c) (Function.update r.chans r.nextSub x c) := by
  rw [Function.update_of_ne (by omega)]
  exact Fed.refl _

theorem subscribe_evolves (ho : Observed r) (afterSeq : ℕ) :
    Evolves r (r.subscribe afterSeq).1 := by
  have hcore := subscribe_core r afterSeq
  refine ⟨fun w => ?_,fun e => e.of_core hcore,observed_of_core hcore,
    fun _ hdead => ⟨core_events hcore,(core_live hcore).trans hdead⟩⟩
  unfold Run.subscribe
  cases hsubs : r.subs with
  | none =>
    have hnone : ∀ c < r.nextSub, (r.chans c).closed = true := by
      intro c hc
      by_contra hn
      have hin := (w.closed c hc).mp (by simpa using hn)
      rw [hsubs] at hin
      cases hin
    refine ⟨⟨(by simp),fun c hc => ?_,fun hn => absurd ho hn⟩,[],
      (List.append_nil _).symm,Nat.le_succ _,update_fed r _⟩
    show (Function.update r.chans r.nextSub ⟨[],true⟩ c).closed = false ↔ c ∈ []
    by_cases hnew : c = r.nextSub
    · simp [hnew]
    · have hc : c < r.nextSub+1 := hc
      simp [Function.update_of_ne hnew, hnone c (by omega)]
  | some ids =>
    have hids : r.subs.getD [] = ids := by rw [hsubs]; rfl
    refine ⟨⟨fun c hc => ?_,fun c hc => ?_,fun hn => absurd ho hn⟩,[],
      (List.append_nil _).symm,Nat.le_succ _,update_fed r _⟩
    · show c < r.nextSub+1
      rcases List.mem_append.mp (show c ∈ ids++[r.nextSub] from hc) with hc | hc
      · exact Nat.lt_succ_of_lt (w.born c (hids ▸ hc))
      · rw [List.mem_singleton.mp hc]
        exact Nat.lt_succ_self _
    · show (Function.update r.chans r.nextSub {} c).closed = false ↔ c ∈ ids++[r.nextSub]
      by_cases hnew : c = r.nextSub
      · simp [hnew]
      · have hc : c < r.nextSub+1 := hc
        have hopen := w.closed c (by omega)
        rw [hids] at hopen
        simp [hnew, hopen]

theorem cancelSub_evolves (r : Run) (c : ℕ) : Evolves r (r.cancelSub c) := by
  have hcore := cancelSub_core r c
  refine ⟨fun w => ?_,fun e => e.of_core hcore,observed_of_core hcore,
    fun _ hdead => ⟨core_events hcore,(core_live hcore).trans hdead⟩⟩
  unfold cancelSub
  cases hsubs : r.subs with
  | none => exact ⟨w,[],Streams.of_same rfl rfl rfl⟩
  | some ids =>
    have hids : r.subs.getD [] = ids := by rw [hsubs]; rfl
    by_cases hin : c ∈ ids
    · simp only [hin, if_true]
      refine ⟨⟨fun d hd => ?_,fun d hd => ?_,fun hn => ?_⟩,[],(List.append_nil _).symm,
        Nat.le_refl _,fun d hd => ?_⟩
      · exact w.born d (hids ▸ (List.mem_filter.mp hd).1)
      · have hopen := w.closed d hd
        rw [hids] at hopen
        by_cases hdc : d = c
        · simp [hdc]
        · simp [hdc, hopen]
      · have hquiet := w.quiet hn
        rw [hids] at hquiet
        simp [hquiet]
      · by_cases hdc : d = c
        · rw [hdc]
          simp only [Function.update_self]
          exact Fed.close _
        · simp only [Function.update_of_ne hdc]
          exact Fed.refl _
    · simp only [hin, if_false]
      exact ⟨w,[],Streams.of_same rfl rfl rfl⟩

end Sections

end Run

end Radar.Ai
