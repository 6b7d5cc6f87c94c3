import Radar.Investigation.EvidenceRegistry
import Radar.Investigation.MatchesSound

/-!
# The registry accounts for every ref

The records of an active scope are the refs issued since it was begun. A closed
scope is never active again, an id that is begun once more belongs to another
scope.
-/

set_option autoImplicit false

namespace Radar.Investigation

open Radar.Runes Radar.Story

theorem run_append (ops : List Op) (op : Op) :
    run (ops++[op]) =
      ((apply (run ops).1 op).1,(apply (run ops).1 op).2::trace ops) := by
  rw [run, List.foldl_append]
  rfl

/-- The registry beside what was answered so far. -/
structure Inv (r : Registry) (past : List Event) : Prop where
  live_iff : ∀ s id, live s id past = true ↔
    ∃ o, r.owners[s]? = some o ∧ o.id = id ∧ o.once = false
  owned : ∀ id state, r.scopes id = some state → ∃ s, live s id past = true
  state : ∀ s id, live s id past = true →
    ∃ state, r.scopes id = some state ∧ state.records = issues s past
  alone : ∀ s t id, live s id past = true → live t id past = true → s = t
  nodup : ∀ s, ((issues s past).map Prod.fst).Nodup
  cap : ∀ s, (issues s past).length ≤ maxIssuedRefsPerScope
  fresh : ∀ s, r.owners.length ≤ s → issues s past = []
  closed : ∀ s o, r.owners[s]? = some o → o.once = true → o.records = some (issues s past)

namespace Inv

variable {r : Registry} {past : List Event} {scope : Text} {s : ℕ}

theorem empty : Inv {} [] := by
  constructor <;> simp [live, issues]

theorem not_live (h : Inv r past) (hs : r.owners.length ≤ s) (id : Text) :
    live s id past = false := by
  rw [Bool.eq_false_iff]
  intro hlive
  obtain ⟨o,ho,-⟩ := (h.live_iff s id).mp hlive
  have := (List.getElem?_eq_some_iff.mp ho).1
  omega

theorem id_unique (h : Inv r past) {id id' : Text} (hid : live s id past = true)
    (hid' : live s id' past = true) : id = id' := by
  obtain ⟨o,ho,rfl,-⟩ := (h.live_iff s id).mp hid
  obtain ⟨o',ho',rfl,-⟩ := (h.live_iff s id').mp hid'
  rw [ho, Option.some_inj] at ho'
  rw [ho']

/-- An event that changes neither what is live nor what was issued. -/
theorem keep (h : Inv r past) {e : Event} (hlive : ∀ s id, live s id (e::past) = live s id past)
    (hissues : ∀ s, issues s (e::past) = issues s past) : Inv r (e::past) := by
  constructor <;> simp only [hlive, hissues]
  · exact h.live_iff
  · exact h.owned
  · exact h.state
  · exact h.alone
  · exact h.nodup
  · exact h.cap
  · exact h.fresh
  · exact h.closed

theorem markConnected (h : Inv r past) (scope : Text) :
    Inv (r.markConnected scope).1 (.markConnected scope (r.markConnected scope).2::past) := by
  rw [Registry.markConnected]
  cases hscope : r.scopes scope with
  | none => exact h.keep (fun _ _ => rfl) fun _ => rfl
  | some st =>
    have hk := h.keep (e := .markConnected scope true) (fun _ _ => rfl) fun _ => rfl
    constructor
    · exact hk.live_iff
    · intro id state hstate
      by_cases hid : id = scope
      · subst hid
        exact hk.owned id st hscope
      · exact hk.owned id state (by simpa [Function.update_of_ne hid] using hstate)
    · intro s id hlive
      obtain ⟨state,hstate,hrecords⟩ := hk.state s id hlive
      by_cases hid : id = scope
      · subst hid
        rw [hscope, Option.some_inj] at hstate
        subst hstate
        exact ⟨_,Function.update_self ..,hrecords⟩
      · exact ⟨state,by simpa [Function.update_of_ne hid] using hstate,hrecords⟩
    · exact hk.alone
    · exact hk.nodup
    · exact hk.cap
    · exact hk.fresh
    · exact hk.closed

theorem begin (h : Inv r past) (hfree : r.scopes scope = none) :
    Inv ⟨Function.update r.scopes scope (some {}),r.owners++[{ id := scope }]⟩
      (.begin scope (.ok r.owners.length)::past) := by
  have hnone : ∀ s, live s scope past = false := by
    intro s
    rw [Bool.eq_false_iff]
    intro hlive
    obtain ⟨state,hstate,-⟩ := h.state s scope hlive
    rw [hfree] at hstate
    cases hstate
  have hlive : ∀ s id, live s id (.begin scope (.ok r.owners.length)::past) = true ↔
      (r.owners.length = s ∧ scope = id) ∨ live s id past = true := by
    intro s id
    rw [live, Bool.or_eq_true, Bool.and_eq_true, beq_iff_eq, beq_iff_eq]
  have hfresh := h.not_live (le_refl r.owners.length)
  constructor
  · intro s id
    rw [hlive, h.live_iff]
    rcases Nat.lt_trichotomy s r.owners.length with hlt | rfl | hgt
    · rw [List.getElem?_append_left hlt]
      have hne : r.owners.length ≠ s := by omega
      simp [hne]
    · simp
    · rw [List.getElem?_eq_none (by omega), List.getElem?_eq_none (by simp; omega)]
      have hne : r.owners.length ≠ s := by omega
      simp [hne]
  · intro id state hstate
    by_cases hid : id = scope
    · exact ⟨r.owners.length,(hlive _ _).mpr (.inl ⟨rfl,hid.symm⟩)⟩
    · obtain ⟨s,hs⟩ := h.owned id state (by simpa [Function.update_of_ne hid] using hstate)
      exact ⟨s,(hlive s id).mpr (.inr hs)⟩
  · intro s id hlater
    rcases (hlive s id).mp hlater with ⟨rfl,rfl⟩ | hs
    · refine ⟨{},Function.update_self ..,?_⟩
      exact (h.fresh _ (le_refl _)).symm
    · obtain ⟨state,hstate,hrecords⟩ := h.state s id hs
      have hid : id ≠ scope := by
        rintro rfl
        exact Bool.false_ne_true ((hnone s).symm.trans hs)
      exact ⟨state,by simpa [Function.update_of_ne hid] using hstate,hrecords⟩
  · intro s t id hlater hlater'
    rcases (hlive s id).mp hlater with ⟨rfl,rfl⟩ | hs
    · rcases (hlive t _).mp hlater' with ⟨rfl,-⟩ | ht
      · rfl
      · exact absurd ((hnone t).symm.trans ht) Bool.false_ne_true
    · rcases (hlive t id).mp hlater' with ⟨rfl,rfl⟩ | ht
      · exact absurd ((hnone s).symm.trans hs) Bool.false_ne_true
      · exact h.alone s t id hs ht
  · exact h.nodup
  · exact h.cap
  · intro s hs
    rw [List.length_append] at hs
    exact h.fresh s (by simp at hs; omega)
  · intro s o ho honce
    rcases Nat.lt_or_ge s r.owners.length with hlt | hge
    · rw [List.getElem?_append_left hlt] at ho
      exact h.closed s o ho honce
    · rw [List.getElem?_append_right hge, List.getElem?_singleton] at ho
      split_ifs at ho
      rw [Option.some_inj] at ho
      rw [← ho] at honce
      cases honce

theorem issue (h : Inv r past) {payload ref : Text} {state : ScopeState}
    (hscope : r.scopes scope = some state) (hroom : state.records.length < maxIssuedRefsPerScope)
    (href : state.records.lookup ref = none) :
    Inv ⟨Function.update r.scopes scope
        (some { state with records := state.records++[(ref,payload)] }),r.owners⟩
      (.issue scope payload (some ref)::past) := by
  obtain ⟨s,hs⟩ := h.owned scope state hscope
  obtain ⟨state',hstate',hrecords⟩ := h.state s scope hs
  rw [hscope, Option.some_inj] at hstate'
  subst hstate'
  have hissues : ∀ t, issues t (.issue scope payload (some ref)::past) =
      if t = s then issues s past++[(ref,payload)] else issues t past := by
    intro t
    rw [issues]
    by_cases ht : t = s
    · subst ht
      rw [if_pos hs, if_pos rfl]
    · rw [if_neg ht, if_neg]
      intro hlive
      exact ht (h.alone t s scope hlive hs)
  constructor
  · exact h.live_iff
  · intro id st hst
    by_cases hid : id = scope
    · subst hid
      exact ⟨s,hs⟩
    · exact h.owned id st (by simpa [Function.update_of_ne hid] using hst)
  · intro t id ht
    rw [hissues]
    by_cases hid : id = scope
    · subst hid
      rw [if_pos (h.alone t s id ht hs)]
      exact ⟨_,Function.update_self ..,by rw [hrecords]⟩
    · have hne : t ≠ s := by
        rintro rfl
        exact hid (h.id_unique ht hs)
      rw [if_neg hne]
      obtain ⟨st,hst,hrec⟩ := h.state t id ht
      exact ⟨st,by simpa [Function.update_of_ne hid] using hst,hrec⟩
  · exact h.alone
  · intro t
    rw [hissues]
    by_cases ht : t = s
    · rw [if_pos ht, List.map_append, List.perm_append_comm.nodup_iff]
      have hfresh : ref ∉ (issues s past).map Prod.fst := by
        rw [← hrecords, List.mem_map]
        rintro ⟨p,hp,hsame⟩
        have hdiffers := List.lookup_eq_none_iff.mp href p hp
        simp [hsame] at hdiffers
      exact List.nodup_cons.mpr ⟨hfresh,h.nodup s⟩
    · rw [if_neg ht]
      exact h.nodup t
  · intro t
    rw [hissues]
    by_cases ht : t = s
    · rw [if_pos ht, List.length_append, ← hrecords]
      exact hroom
    · rw [if_neg ht]
      exact h.cap t
  · intro t ht
    have hne : t ≠ s := by
      rintro rfl
      have := h.not_live ht scope
      rw [hs] at this
      cases this
    rw [hissues, if_neg hne]
    exact h.fresh t ht
  · intro t o ho honce
    have hne : t ≠ s := by
      rintro rfl
      obtain ⟨o',ho',-,hopen⟩ := (h.live_iff t scope).mp hs
      rw [ho, Option.some_inj] at ho'
      subst ho'
      rw [honce] at hopen
      cases hopen
    rw [hissues, if_neg hne]
    exact h.closed t o ho honce

theorem close (h : Inv r past) {o : Scope} {answer : Option Records} (ho : r.owners[s]? = some o)
    (hopen : o.once = false) :
    Inv ⟨Function.update r.scopes o.id none,
        r.owners.set s { o with
          once := true
          records := (r.scopes o.id).map ScopeState.records }⟩
      (.close s answer::past) := by
  have hs : live s o.id past = true := (h.live_iff s o.id).mpr ⟨o,ho,rfl,hopen⟩
  obtain ⟨state,hstate,hrecords⟩ := h.state s o.id hs
  have hlt := (List.getElem?_eq_some_iff.mp ho).1
  have hlive : ∀ t id, live t id (.close s answer::past) = true ↔
      s ≠ t ∧ live t id past = true := by
    intro t id
    rw [live, Bool.and_eq_true, bne_iff_ne]
  have hother : ∀ t id, s ≠ t → live t id past = true → id ≠ o.id := by
    rintro t id hne ht rfl
    exact hne (h.alone s t _ hs ht)
  constructor
  · intro t id
    rw [hlive, h.live_iff]
    by_cases ht : s = t
    · subst ht
      simp [hlt]
    · simp [List.getElem?_set_ne ht, ht]
  · intro id st hst
    have hid : id ≠ o.id := by
      rintro rfl
      simp at hst
    obtain ⟨t,ht⟩ := h.owned id st (by simpa [Function.update_of_ne hid] using hst)
    refine ⟨t,(hlive t id).mpr ⟨?_,ht⟩⟩
    rintro rfl
    exact hid (h.id_unique ht hs)
  · intro t id ht
    obtain ⟨hne,ht⟩ := (hlive t id).mp ht
    obtain ⟨st,hst,hrec⟩ := h.state t id ht
    exact ⟨st,by simpa [Function.update_of_ne (hother t id hne ht)] using hst,hrec⟩
  · intro t u id ht hu
    exact h.alone t u id ((hlive t id).mp ht).2 ((hlive u id).mp hu).2
  · exact h.nodup
  · exact h.cap
  · intro t ht
    rw [List.length_set] at ht
    exact h.fresh t ht
  · intro t o' ho' honce
    by_cases ht : t = s
    · subst ht
      rw [List.getElem?_set_self hlt, Option.some_inj] at ho'
      subst ho'
      simp [hstate, hrecords, issues]
    · rw [List.getElem?_set_ne (Ne.symm ht)] at ho'
      exact h.closed t o' ho' honce

/-- A close that closes nothing. -/
theorem close_again (h : Inv r past) {answer : Option Records}
    (hclosed : ∀ o, r.owners[s]? = some o → o.once = true) : Inv r (.close s answer::past) := by
  have hdead : ∀ id, live s id past = false := by
    intro id
    rw [Bool.eq_false_iff]
    intro hlive
    obtain ⟨o,ho,-,hopen⟩ := (h.live_iff s id).mp hlive
    rw [hclosed o ho] at hopen
    cases hopen
  refine h.keep (fun t id => ?_) fun _ => rfl
  rw [live]
  by_cases ht : s = t
  · subst ht
    simp [hdead]
  · simp [ht]

/-- Every operation keeps the registry beside its answers. -/
theorem apply (h : Inv r past) (op : Op) :
    Inv (Investigation.apply r op).1 ((Investigation.apply r op).2::past) := by
  cases op with
  | begin scope =>
    simp only [Investigation.apply, Registry.begin]
    by_cases hblank : trimSpace scope = []
    · simp only [if_pos hblank]
      exact h.keep (fun _ _ => rfl) fun _ => rfl
    · simp only [if_neg hblank]
      cases hscope : r.scopes scope with
      | none => exact h.begin hscope
      | some st => exact h.keep (fun _ _ => rfl) fun _ => rfl
  | markConnected scope => exact h.markConnected scope
  | active scope => exact h.keep (fun _ _ => rfl) fun _ => rfl
  | issue scope payload nonces =>
    simp only [Investigation.apply, Registry.issue]
    cases hscope : r.scopes scope with
    | none => exact h.keep (fun _ _ => rfl) fun _ => rfl
    | some st =>
      by_cases hroom : st.records.length ≥ maxIssuedRefsPerScope
      · simp only [if_pos hroom]
        exact h.keep (fun _ _ => rfl) fun _ => rfl
      · simp only [if_neg hroom]
        cases hfind : (nonces.map (newRef scope)).find? (fun ref => st.records.lookup ref = none) with
        | none => exact h.keep (fun _ _ => rfl) fun _ => rfl
        | some ref =>
          have href := List.find?_some hfind
          exact h.issue hscope (by omega) (by simpa using href)
  | matched scope ref payload => exact h.keep (fun _ _ => rfl) fun _ => rfl
  | close owner =>
    simp only [Investigation.apply, Registry.close]
    cases hown : r.owners[owner]? with
    | none => exact h.close_again fun o ho => by rw [hown] at ho; nomatch ho
    | some o =>
      cases honce : o.once with
      | true =>
        simp only [honce, if_true]
        refine h.close_again fun o' ho' => ?_
        rw [hown, Option.some_inj] at ho'
        rw [← ho', honce]
      | false =>
        simp only [honce, Bool.false_eq_true, if_false]
        exact h.close hown honce

end Inv

theorem inv_run (ops : List Op) : Inv (run ops).1 (trace ops) := by
  induction ops using List.reverseRecOn with
  | nil => exact .empty
  | append_singleton ops op ih =>
    rw [trace, run_append]
    exact ih.apply op

section Later

variable {s : ℕ} {ops : List Op}

theorem trace_append (ops : List Op) (op : Op) :
    trace (ops++[op]) = (apply (run ops).1 op).2::trace ops := by
  rw [trace, run_append]

theorem issues_prefix_cons (s : ℕ) (e : Event) (past : List Event) :
    issues s past <+: issues s (e::past) := by
  cases e with
  | issue id payload answer =>
    cases answer with
    | none => exact List.prefix_refl _
    | some ref =>
      rw [issues]
      by_cases hlive : live s id past = true
      · rw [if_pos hlive]
        exact List.prefix_append _ _
      · rw [if_neg hlive]
  | _ => exact List.prefix_refl _

theorem issues_prefix (s : ℕ) (ops later : List Op) :
    issues s (trace ops) <+: issues s (trace (ops++later)) := by
  induction later using List.reverseRecOn with
  | nil => rw [List.append_nil]
  | append_singleton later op ih =>
    rw [← List.append_assoc, trace_append]
    exact ih.trans (issues_prefix_cons s _ _)

/-- The scope was handed out and its close has run. -/
def Shut (r : Registry) (s : ℕ) : Prop := ∃ o, r.owners[s]? = some o ∧ o.once = true

theorem Shut.apply {r : Registry} (h : Shut r s) (op : Op) :
    Shut (Investigation.apply r op).1 s := by
  obtain ⟨o,ho,honce⟩ := h
  have hlt := (List.getElem?_eq_some_iff.mp ho).1
  cases op with
  | begin scope =>
    simp only [Investigation.apply, Registry.begin]
    split_ifs
    · exact ⟨o,ho,honce⟩
    · exact ⟨o,ho,honce⟩
    · exact ⟨o,by rwa [List.getElem?_append_left hlt],honce⟩
  | markConnected scope =>
    simp only [Investigation.apply, Registry.markConnected]
    cases r.scopes scope <;> exact ⟨o,ho,honce⟩
  | active scope => exact ⟨o,ho,honce⟩
  | issue scope payload nonces =>
    simp only [Investigation.apply, Registry.issue]
    cases r.scopes scope with
    | none => exact ⟨o,ho,honce⟩
    | some st =>
      simp only
      split_ifs
      · exact ⟨o,ho,honce⟩
      · split <;> exact ⟨o,ho,honce⟩
  | matched scope ref payload => exact ⟨o,ho,honce⟩
  | close owner =>
    simp only [Investigation.apply, Registry.close]
    cases hown : r.owners[owner]? with
    | none => exact ⟨o,ho,honce⟩
    | some o' =>
      simp only
      split_ifs with honce'
      · exact ⟨o,ho,honce⟩
      · have hne : owner ≠ s := by
          rintro rfl
          rw [hown, Option.some_inj] at ho
          exact honce' (ho ▸ honce)
        exact ⟨o,by rwa [List.getElem?_set_ne hne],honce⟩

theorem Shut.not_live {r : Registry} {past : List Event} (h : Shut r s) (hinv : Inv r past)
    (id : Text) : live s id past = false := by
  obtain ⟨o,ho,honce⟩ := h
  rw [Bool.eq_false_iff]
  intro hlive
  obtain ⟨o',ho',-,hopen⟩ := (hinv.live_iff s id).mp hlive
  rw [ho, Option.some_inj] at ho'
  subst ho'
  rw [honce] at hopen
  cases hopen

theorem shut_close (h : ∃ id, live s id (trace ops) = true) : Shut (run (ops++[.close s])).1 s := by
  obtain ⟨id,hlive⟩ := h
  obtain ⟨o,ho,-,hopen⟩ := ((inv_run ops).live_iff s id).mp hlive
  have hlt := (List.getElem?_eq_some_iff.mp ho).1
  rw [run_append]
  simp only [apply, Registry.close, ho, hopen, Bool.false_eq_true, if_false]
  exact ⟨_,List.getElem?_set_self hlt,rfl⟩

/-- From its close on a scope stays shut, and nothing more is issued for it. -/
theorem closed_later (h : ∃ id, live s id (trace ops) = true) (later : List Op) :
    Shut (run (ops++.close s::later)).1 s ∧
      issues s (trace (ops++.close s::later)) = issues s (trace ops) := by
  induction later using List.reverseRecOn with
  | nil =>
    refine ⟨shut_close h,?_⟩
    rw [trace_append]
    rfl
  | append_singleton later op ih =>
    obtain ⟨hshut,hissues⟩ := ih
    have hsplit : ops++.close s::(later++[op]) = (ops++.close s::later)++[op] := by simp
    rw [hsplit, trace_append, ← hissues]
    constructor
    · rw [run_append]
      exact hshut.apply op
    · have hdead := hshut.not_live (inv_run _)
      generalize (apply (run (ops++.close s::later)).1 op).2 = e
      cases e with
      | issue id payload answer =>
        cases answer with
        | none => rfl
        | some ref => rw [issues, hdead, if_neg Bool.false_ne_true]
      | _ => rfl

end Later

theorem lookup_iff_mem {records : Records} (h : (records.map Prod.fst).Nodup) {ref payload : Text} :
    records.lookup ref = some payload ↔ (ref,payload) ∈ records := by
  rw [List.lookup_eq_some_iff]
  constructor
  · rintro ⟨a,b,rfl,-⟩
    simp
  · intro hmem
    obtain ⟨a,b,rfl⟩ := List.append_of_mem hmem
    refine ⟨a,b,rfl,fun p hp => ?_⟩
    rw [List.map_append, List.nodup_append] at h
    have hne := h.2.2 p.1 (List.mem_map_of_mem hp) ref (by simp)
    simpa using Ne.symm hne

theorem accountable (ops : List Op) : Accountable ops := by
  have hinv := inv_run ops
  constructor
  · exact hinv.nodup
  · exact fun s later => issues_prefix s ops later
  · exact hinv.cap
  · intro id payload nonces ref hanswer
    rw [trace_append] at hanswer
    simp only [apply, List.cons.injEq, Event.issue.injEq, true_and, and_true, Registry.issue]
      at hanswer
    cases hscope : (run ops).1.scopes id with
    | none =>
      rw [hscope] at hanswer
      cases hanswer
    | some st => exact hinv.owned id st hscope
  · intro id ref payload answer hanswer
    rw [trace_append] at hanswer
    simp only [apply, List.cons.injEq, Event.matched.injEq, true_and, and_true, Registry.matched]
      at hanswer
    subst hanswer
    cases hscope : (run ops).1.scopes id with
    | none =>
      simp only [Bool.false_eq_true, false_iff]
      rintro ⟨s,hlive,-⟩
      obtain ⟨st,hst,-⟩ := hinv.state s id hlive
      rw [hscope] at hst
      cases hst
    | some st =>
      obtain ⟨s,hlive⟩ := hinv.owned id st hscope
      obtain ⟨st',hst',hrecords⟩ := hinv.state s id hlive
      rw [hscope, Option.some_inj] at hst'
      subst hst'
      simp only [beq_iff_eq, hrecords, lookup_iff_mem (hinv.nodup s)]
      constructor
      · exact fun h => ⟨s,hlive,h⟩
      · rintro ⟨t,ht,h⟩
        rwa [hinv.alone t s id ht hlive] at h
  · exact hinv.alone
  · intro s later h
    obtain ⟨hshut,hissues⟩ := closed_later h later
    exact ⟨hshut.not_live (inv_run _),hissues⟩
  · intro s later answer h hanswer
    obtain ⟨⟨o,ho,honce⟩,hissues⟩ := closed_later h later
    rw [trace_append] at hanswer
    simp only [apply, List.cons.injEq, Event.close.injEq, true_and, and_true, Registry.close, ho,
      honce, if_true] at hanswer
    rw [← hanswer, (inv_run _).closed s o ho honce, hissues]

end Radar.Investigation
