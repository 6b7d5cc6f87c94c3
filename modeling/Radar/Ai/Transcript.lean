import Mathlib.Data.List.Induction
import Radar.Base.Run
import Radar.Ai.Events

/-!
# What a transcript may look like

The shape of a log is said twice: by what stands before and after each event,
and by a machine that reads the log from its start. The machine is what a
critical section continues; the shape is what a reader of the log relies on.
-/

set_option autoImplicit false

namespace Radar.Ai

open Radar.Run

/-- The log ends in a turn that no terminal has closed. -/
def OpenTurn (log : List StreamEvent) (turn : StreamEvent) : Prop :=
  ∃ a b, log = a++turn::b ∧ turn.isTurn ∧ ∀ e ∈ b, e.isTerminal = false ∧ e.isTurn = false

/-- The turn that the log ends in. -/
def openTurn? (log : List StreamEvent) : Option StreamEvent :=
  (log.reverse.find? fun e => e.isTurn || e.isTerminal).filter StreamEvent.isTurn

theorem openTurn?_eq_some {log : List StreamEvent} {turn : StreamEvent} :
    openTurn? log = some turn ↔ OpenTurn log turn := by
  unfold openTurn? OpenTurn
  rw [Option.filter_eq_some_iff, List.find?_eq_some_iff_append]
  constructor
  · rintro ⟨⟨_,b,a,hlog,hrest⟩,hturn⟩
    refine ⟨a.reverse,b.reverse,?_,hturn,fun e he => ?_⟩
    · rw [← List.reverse_reverse log, hlog]
      simp
    · have hlast := hrest e (List.mem_reverse.mp he)
      simp only [Bool.not_eq_true', Bool.or_eq_false_iff] at hlast
      exact ⟨hlast.2,hlast.1⟩
  · rintro ⟨a,b,rfl,hturn,hrest⟩
    refine ⟨⟨by simp [hturn],b.reverse,a.reverse,by simp,fun e he => ?_⟩,hturn⟩
    have hlast := hrest e (List.mem_reverse.mp he)
    simp [hlast.1, hlast.2]

structure Transcript (log : List StreamEvent) : Prop where
  /-- What an agent emits stands between a turn marker and the next terminal. -/
  steps : ∀ a e b, log = a++e::b → e.isAgent → ∃ turn, OpenTurn a turn
  turns : ∀ a t b u c, log = a++t::(b++u::c) → t.isTurn → u.isTurn → ∃ e ∈ b, e.isTerminal
  closed : ∀ a e b, log = a++e::b → e.isClosed → b = []
  /-- The turn that a terminal with an outcome closes is an apply turn. -/
  outcome : ∀ a e b, log = a++e::b → e.isTerminal → e.applyOutcome ≠ none →
    ∃ turn, OpenTurn a turn ∧ turn.apply

inductive Phase where
  | between
  | inTurn (apply : Bool)
  | closed
  deriving DecidableEq, Repr

def Phase.next (p : Phase) (e : StreamEvent) : Option Phase :=
  match p, e.type with
  | .between, .turn => some (.inTurn e.apply)
  | .between, .closed => some .closed
  | .between, .done | .between, .error => if e.applyOutcome = none then some .between else none
  | .inTurn apply, .done | .inTurn apply, .error =>
    if e.applyOutcome = none ∨ apply then some .between else none
  | .inTurn apply, .phase | .inTurn apply, .step | .inTurn apply, .thinking =>
    some (.inTurn apply)
  | _, _ => none

/-- The phase a log has come to, if all its events were in place. -/
def phase (log : List StreamEvent) : Option Phase := run Phase.next .between log

theorem phase_append {log more : List StreamEvent} {p : Phase} (h : phase log = some p) :
    phase (log++more) = run Phase.next p more := by
  rw [phase, run_append, show run Phase.next .between log = some p from h]
  rfl

/-- The event types say which of the predicates holds. -/
theorem type_of_terminal {e : StreamEvent} (h : e.isTerminal = true) :
    e.type = .done ∨ e.type = .error := by
  simpa [StreamEvent.isTerminal] using h

theorem type_of_agent {e : StreamEvent} (h : e.isAgent = true) :
    e.type = .phase ∨ e.type = .step ∨ e.type = .thinking := by
  simpa [StreamEvent.isAgent, or_assoc] using h

theorem not_turn_of_agent {e : StreamEvent} (h : e.isAgent = true) :
    e.isTerminal = false ∧ e.isTurn = false := by
  rcases type_of_agent h with h | h | h <;> simp [StreamEvent.isTerminal, StreamEvent.isTurn, h]

/-- All that the machine can do. -/
theorem next_cases {p q : Phase} {e : StreamEvent} (h : p.next e = some q) :
    (e.type = .turn ∧ p = .between ∧ q = .inTurn e.apply) ∨
    (e.type = .closed ∧ p = .between ∧ q = .closed) ∨
    ((e.type = .done ∨ e.type = .error) ∧ q = .between ∧
      (e.applyOutcome ≠ none → p = .inTurn true)) ∨
    ((e.type = .phase ∨ e.type = .step ∨ e.type = .thinking) ∧
      ∃ apply, p = .inTurn apply ∧ q = .inTurn apply) := by
  cases p with
  | inTurn apply =>
    cases apply <;> cases htype : e.type <;> simp_all [Phase.next]
  | _ => cases htype : e.type <;> simp_all [Phase.next]

theorem next_turn {p q : Phase} {e : StreamEvent} (he : e.isTurn = true)
    (h : p.next e = some q) : p = .between ∧ q = .inTurn e.apply := by
  have htype : e.type = .turn := of_decide_eq_true he
  simpa [htype] using next_cases h

theorem next_agent {p q : Phase} {e : StreamEvent} (he : e.isAgent = true)
    (h : p.next e = some q) : ∃ apply, p = .inTurn apply ∧ q = .inTurn apply := by
  rcases type_of_agent he with htype | htype | htype <;> simpa [htype] using next_cases h

theorem next_terminal {p q : Phase} {e : StreamEvent} (he : e.isTerminal = true)
    (h : p.next e = some q) :
    q = .between ∧ (e.applyOutcome ≠ none → p = .inTurn true) := by
  rcases type_of_terminal he with htype | htype <;> simpa [htype] using next_cases h

theorem next_closed {p q : Phase} {e : StreamEvent} (he : e.isClosed = true)
    (h : p.next e = some q) : p = .between ∧ q = .closed := by
  have htype : e.type = .closed := of_decide_eq_true he
  simpa [htype] using next_cases h

theorem next_after_closed {e : StreamEvent} : Phase.next .closed e = none := rfl

/-- A turn that is open was opened by a marker that says what it is. -/
theorem exists_open {log : List StreamEvent} {apply : Bool}
    (h : phase log = some (.inTurn apply)) : ∃ turn, OpenTurn log turn ∧ turn.apply = apply := by
  induction log using List.reverseRecOn with
  | nil => nomatch h
  | append_singleton log e ih =>
    obtain ⟨p,hp,hnext⟩ := run_append_some Phase.next h
    have hnext : p.next e = some (.inTurn apply) := by simpa using hnext
    by_cases hturn : e.isTurn = true
    · obtain ⟨_,hq⟩ := next_turn hturn hnext
      refine ⟨e,⟨log,[],rfl,hturn,by simp⟩,?_⟩
      exact (Phase.inTurn.inj hq).symm
    · have hagent : e.isAgent = true := by
        rcases next_cases hnext with ⟨h,_⟩ | ⟨h,_,h'⟩ | ⟨h,h',_⟩ | ⟨h,_⟩ <;>
          simp_all [StreamEvent.isAgent, StreamEvent.isTurn, or_assoc]
      obtain ⟨was,rfl,hq⟩ := next_agent hagent hnext
      obtain rfl := Phase.inTurn.inj hq
      obtain ⟨turn,⟨a,b,rfl,hmarker,hrest⟩,happly⟩ := ih hp
      refine ⟨turn,⟨a,b++[e],by simp,hmarker,?_⟩,happly⟩
      intro d hd
      rcases List.mem_append.mp hd with hd | hd
      · exact hrest d hd
      · rw [List.mem_singleton.mp hd]
        exact not_turn_of_agent hagent

/-- The turn whose phase it is, is the one that is open. -/
theorem phase_of_open {log : List StreamEvent} {turn : StreamEvent} {p : Phase}
    (h : phase log = some p) (hopen : OpenTurn log turn) :
    p = .inTurn turn.apply := by
  obtain ⟨a,b,rfl,hturn,hrest⟩ := hopen
  obtain ⟨q,_,hq⟩ := run_append_some Phase.next h
  obtain ⟨r,hr,hb⟩ := run_cons_some Phase.next hq
  obtain ⟨_,rfl⟩ := next_turn hturn hr
  clear hq hr h
  induction b using List.reverseRecOn generalizing p with
  | nil => exact (Option.some.inj hb).symm
  | append_singleton b e ih =>
    obtain ⟨u,hu,hnext⟩ := run_append_some Phase.next hb
    have hnext : u.next e = some p := by simpa using hnext
    have hlast := hrest e (by simp)
    obtain rfl := ih (fun d hd => hrest d (by simp [hd])) hu
    rcases next_cases hnext with ⟨h,_⟩ | ⟨_,h,_⟩ | ⟨h,_⟩ | ⟨h,_,h',rfl⟩ <;>
      simp_all [StreamEvent.isTerminal, StreamEvent.isTurn]

/-- From within a turn, only a terminal leads to where a marker may stand. -/
theorem terminal_before {b : List StreamEvent} {apply : Bool}
    (h : run Phase.next (.inTurn apply) b = some .between) : ∃ e ∈ b, e.isTerminal = true := by
  induction b generalizing apply with
  | nil => nomatch h
  | cons e b ih =>
    obtain ⟨p,hp,hb⟩ := run_cons_some Phase.next h
    by_cases hterminal : e.isTerminal = true
    · exact ⟨e,List.mem_cons_self,hterminal⟩
    · have hagent : e.isAgent = true := by
        rcases next_cases hp with ⟨_,h,_⟩ | ⟨_,h,_⟩ | ⟨h,_⟩ | ⟨h,_⟩ <;>
          simp_all [StreamEvent.isAgent, StreamEvent.isTerminal, or_assoc]
      obtain ⟨_,_,rfl⟩ := next_agent hagent hp
      obtain ⟨d,hd,hterminal⟩ := ih hb
      exact ⟨d,List.mem_cons_of_mem e hd,hterminal⟩

theorem nothing_after_closed {b : List StreamEvent} {p : Phase}
    (h : run Phase.next .closed b = some p) : b = [] := by
  cases b with
  | nil => rfl
  | cons e b =>
    obtain ⟨_,hnext,_⟩ := run_cons_some Phase.next h
    nomatch hnext

/-- What the machine reads to the end is a transcript. -/
theorem transcript_of_phase {log : List StreamEvent} {p : Phase} (h : phase log = some p) :
    Transcript log where
  steps := by
    rintro a e b rfl he
    obtain ⟨q,hq,hrest⟩ := run_append_some Phase.next h
    obtain ⟨_,hnext,_⟩ := run_cons_some Phase.next hrest
    obtain ⟨apply,rfl,_⟩ := next_agent he hnext
    obtain ⟨turn,hopen,_⟩ := exists_open hq
    exact ⟨turn,hopen⟩
  turns := by
    rintro a t b u c rfl ht hu
    obtain ⟨q,_,hrest⟩ := run_append_some Phase.next h
    obtain ⟨v,hv,hrest⟩ := run_cons_some Phase.next hrest
    obtain ⟨_,rfl⟩ := next_turn ht hv
    obtain ⟨w,hb,hrest⟩ := run_append_some Phase.next hrest
    obtain ⟨_,hnext,_⟩ := run_cons_some Phase.next hrest
    obtain ⟨rfl,_⟩ := next_turn hu hnext
    exact terminal_before hb
  closed := by
    rintro a e b rfl he
    obtain ⟨q,_,hrest⟩ := run_append_some Phase.next h
    obtain ⟨_,hnext,hb⟩ := run_cons_some Phase.next hrest
    obtain ⟨_,rfl⟩ := next_closed he hnext
    exact nothing_after_closed hb
  outcome := by
    rintro a e b rfl he houtcome
    obtain ⟨q,hq,hrest⟩ := run_append_some Phase.next h
    obtain ⟨_,hnext,_⟩ := run_cons_some Phase.next hrest
    obtain rfl := (next_terminal he hnext).2 houtcome
    exact exists_open hq

end Radar.Ai
