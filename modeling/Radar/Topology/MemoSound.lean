import Mathlib.Tactic.SplitIfs
import Radar.Topology.Memo

/-!
# Memoized topologies are sound

An entry, a flight's result and whatever a call holds were built by a call
with the same key. Every step only adds builds, entries and flights, so what
one call knows is kept by the others' steps.
-/

set_option autoImplicit false

namespace Radar.Topology

open Radar.Run

variable {T X : Type} {indexByResource : T → X}

/-- Some call with this key built the topology. -/
def BuiltFor (s : Memoizer T X) (key : String) (topo : T) : Prop :=
  ∃ b ∈ s.built, b.2 = topo ∧ b.1.key = key

structure Good (s : Memoizer T X) (key : String) (served : Served T) : Prop where
  built : BuiltFor s key served.topo
  young : ∀ builtAt lookedUp, served.cached = some (builtAt, lookedUp) →
    builtAt ≤ lookedUp ∧ lookedUp-builtAt < s.ttl

def FlightFor (s : Memoizer T X) (key : String) (flight : ℕ) : Prop :=
  ∃ f, s.flights[flight]? = some f ∧ f.key = key

def EntryFor (s : Memoizer T X) (topo : T) (ref : ℕ) : Prop :=
  ∃ e, s.heap[ref]? = some e ∧ e.topo = topo

variable (indexByResource) in
/-- What a call knows at each of its steps. -/
def Knows (s : Memoizer T X) : Call T X → Prop
  | .idle => True
  | .direct _ _ => True
  | .missed _ _ => True
  | .leading q _ flight => FlightFor s q.key flight
  | .building q _ flight => FlightFor s q.key flight
  | .storing q _ flight topo => FlightFor s q.key flight ∧ BuiltFor s q.key topo
  | .finishing q _ flight r => FlightFor s q.key flight ∧ ∀ served ∈ r, Good s q.key served
  | .waiting q _ flight => FlightFor s q.key flight
  | .got q served => Good s q.key served
  | .entryRead q served ref => Good s q.key served ∧ EntryFor s served.topo ref
  | .returned q withIndex r index => ∀ served ∈ r, Good s q.key served ∧
      (withIndex = true → index = some (indexByResource served.topo))

def Call.query : Call T X → Option Query
  | .idle => none
  | .direct q _ | .missed q _ | .leading q _ _ | .building q _ _ | .storing q _ _ _
  | .finishing q _ _ _ | .waiting q _ _ | .got q _ | .entryRead q _ _ | .returned q _ _ _ => some q

variable (indexByResource) in
/-- `Q` holds of every query that was ever asked. -/
structure MemoInv (Q : Query → Prop) (s : Memoizer T X) : Prop where
  entries : ∀ k ref, s.entries k = some ref →
    ∃ e, s.heap[ref]? = some e ∧ BuiltFor s k e.topo
  ages : ∀ e ∈ s.heap, e.builtAt ≤ s.now
  indexes : ∀ e ∈ s.heap, ∀ x, e.index = some x → x = indexByResource e.topo
  group : ∀ k flight, s.group k = some flight → FlightFor s k flight
  results : ∀ f ∈ s.flights, ∀ served, f.result = some (some served) → Good s f.key served
  calls : ∀ i, Knows indexByResource s (s.calls i)
  asked : ∀ i q, (s.calls i).query = some q → Q q
  builders : ∀ b ∈ s.built, Q b.1

/-- Nothing that a call relies on is lost. -/
structure Grows (s t : Memoizer T X) : Prop where
  ttl : t.ttl = s.ttl
  built : ∀ b ∈ s.built, b ∈ t.built
  flights : ∀ k flight, FlightFor s k flight → FlightFor t k flight
  heap : ∀ topo ref, EntryFor s topo ref → EntryFor t topo ref

theorem Grows.builtFor {s t : Memoizer T X} (h : Grows s t) {key : String} {topo : T}
    (hb : BuiltFor s key topo) : BuiltFor t key topo := by
  obtain ⟨b,hmem,hb⟩ := hb
  exact ⟨b,h.built b hmem,hb⟩

theorem Grows.good {s t : Memoizer T X} (h : Grows s t) {key : String} {served : Served T}
    (hg : Good s key served) : Good t key served where
  built := h.builtFor hg.built
  young := by rw [h.ttl]; exact hg.young

theorem Grows.knows {s t : Memoizer T X} (h : Grows s t) {c : Call T X}
    (hc : Knows indexByResource s c) : Knows indexByResource t c := by
  cases c with
  | idle => trivial
  | direct q w => trivial
  | missed q w => trivial
  | leading q w flight => exact h.flights _ _ hc
  | building q w flight => exact h.flights _ _ hc
  | storing q w flight topo => exact ⟨h.flights _ _ hc.1,h.builtFor hc.2⟩
  | finishing q w flight r => exact ⟨h.flights _ _ hc.1,fun x hx => h.good (hc.2 x hx)⟩
  | waiting q w flight => exact h.flights _ _ hc
  | got q served => exact h.good hc
  | entryRead q served ref => exact ⟨h.good hc.1,h.heap _ _ hc.2⟩
  | returned q w r index => exact fun x hx => ⟨h.good (hc x hx).1,(hc x hx).2⟩

theorem new_memo_inv (Q : Query → Prop) (ttl now : ℤ) :
    MemoInv indexByResource Q (newMemoizer ttl now : Memoizer T X) where
  entries := by simp [newMemoizer]
  ages := by simp [newMemoizer]
  indexes := by simp [newMemoizer]
  group := by simp [newMemoizer]
  results := by simp [newMemoizer]
  calls _ := trivial
  asked := by simp [newMemoizer, Call.query]
  builders := by simp [newMemoizer]

variable {Q : Query → Prop} {s : Memoizer T X}

/-- One call moves on; what the others know is untouched. -/
theorem setCall_inv (h : MemoInv indexByResource Q s) (i : ℕ) {c : Call T X}
    (hc : Knows indexByResource s c) (hq : ∀ q, c.query = some q → Q q) :
    MemoInv indexByResource Q (setCall s i c) where
  entries := h.entries
  ages := h.ages
  indexes := h.indexes
  group := h.group
  results := fun f hf served hr => ⟨(h.results f hf served hr).built,(h.results f hf served hr).young⟩
  calls := by
    intro j
    have hgrow : Grows s (setCall s i c) := ⟨rfl,fun _ hb => hb,fun _ _ hf => hf,fun _ _ he => he⟩
    by_cases hj : j = i
    · subst hj
      simpa only [setCall, Function.update_self] using hgrow.knows hc
    · simpa only [setCall, Function.update_of_ne hj] using hgrow.knows (h.calls j)
  asked := by
    intro j q hjq
    by_cases hj : j = i
    · subst hj
      exact hq q (by simpa only [setCall, Function.update_self] using hjq)
    · exact h.asked j q (by simpa only [setCall, Function.update_of_ne hj] using hjq)
  builders := h.builders

theorem lookup_good (h : MemoInv indexByResource Q s) {key : String} {served : Served T}
    (hl : lookup s key = some served) : Good s key served := by
  obtain ⟨e,he,hl⟩ := Option.bind_eq_some_iff.mp hl
  obtain ⟨ref,hentry,hheap⟩ := Option.bind_eq_some_iff.mp he
  split_ifs at hl with hyoung
  obtain rfl := Option.some.inj hl
  obtain ⟨e',he',hb⟩ := h.entries key ref hentry
  obtain rfl : e = e' := Option.some.inj (hheap.symm.trans he')
  refine ⟨hb,fun builtAt lookedUp hc => ?_⟩
  obtain ⟨rfl,rfl⟩ := Prod.mk.inj (Option.some.inj hc)
  exact ⟨h.ages e (List.mem_of_getElem? hheap),hyoung⟩

theorem afterScoped_knows {q : Query} {withIndex : Bool} {r : Option (Served T)}
    (h : ∀ served ∈ r, Good s q.key served) :
    Knows indexByResource s (afterScoped q withIndex r) := by
  cases r with
  | none => exact fun _ hn => by cases hn
  | some served =>
    cases withIndex with
    | false =>
      intro x hx
      exact ⟨h x hx,fun hw => by cases hw⟩
    | true => exact h served rfl

theorem afterScoped_query (q : Query) (withIndex : Bool) (r : Option (Served T)) :
    (afterScoped q withIndex r : Call T X).query = some q := by
  cases r with
  | none => rfl
  | some served => cases withIndex <;> rfl

theorem built_grows (q : Query) (topo : T) : Grows s (built s q topo) :=
  ⟨rfl,fun _ hb => List.mem_append_left _ hb,fun _ _ hf => hf,fun _ _ he => he⟩

theorem built_inv (h : MemoInv indexByResource Q s) {q : Query} (hq : Q q) (topo : T) :
    MemoInv indexByResource Q (built s q topo) where
  entries k ref hk := by
    obtain ⟨e,he,hb⟩ := h.entries k ref hk
    exact ⟨e,he,(built_grows q topo).builtFor hb⟩
  ages := h.ages
  indexes := h.indexes
  group := h.group
  results f hf served hr := (built_grows q topo).good (h.results f hf served hr)
  calls i := (built_grows q topo).knows (h.calls i)
  asked := h.asked
  builders := by
    intro b hb
    cases List.mem_append.mp hb with
    | inl hold => exact h.builders b hold
    | inr hnew => rw [List.mem_singleton.mp hnew]; exact hq

theorem builtFor_new (q : Query) (topo : T) : BuiltFor (built s q topo) q.key topo :=
  ⟨(q, topo),List.mem_append_right _ List.mem_cons_self,rfl,rfl⟩

theorem getElem?_append_some {α : Type} {l : List α} {i : ℕ} {a : α} (h : l[i]? = some a)
    (x : α) : (l++[x])[i]? = some a := by
  rw [List.getElem?_append_left (List.getElem?_eq_some_iff.mp h).1]
  exact h

theorem lead_grows (key : String) : Grows s (lead s key) where
  ttl := rfl
  built _ hb := hb
  flights k flight hf := by
    obtain ⟨f,hf,hk⟩ := hf
    exact ⟨f,getElem?_append_some hf _,hk⟩
  heap _ _ he := he

theorem flightFor_lead (key : String) : FlightFor (lead s key) key s.flights.length :=
  ⟨⟨key,none⟩,by simp [lead],rfl⟩

theorem lead_inv (h : MemoInv indexByResource Q s) (key : String) :
    MemoInv indexByResource Q (lead s key) where
  entries := h.entries
  ages := h.ages
  indexes := h.indexes
  group := by
    intro k flight hk
    by_cases hkey : k = key
    · subst hkey
      simp only [lead, Function.update_self] at hk
      obtain rfl := Option.some.inj hk
      exact flightFor_lead k
    · simp only [lead, Function.update_of_ne hkey] at hk
      exact (lead_grows key).flights k flight (h.group k flight hk)
  results := by
    intro f hf served hr
    cases List.mem_append.mp hf with
    | inl hold => exact (lead_grows key).good (h.results f hold served hr)
    | inr hnew =>
      obtain rfl := List.mem_singleton.mp hnew
      nomatch hr
  calls i := (lead_grows key).knows (h.calls i)
  asked := h.asked
  builders := h.builders

/-- Rewriting one place of a list without its `k`. -/
theorem getElem?_modify_of {α β : Type} {l : List α} {i : ℕ} {a : α} (h : l[i]? = some a)
    (j : ℕ) (f : α → α) (k : α → β) (hf : ∀ x, k (f x) = k x) :
    ∃ b, (l.modify j f)[i]? = some b ∧ k b = k a := by
  rw [List.getElem?_modify, h]
  by_cases hj : j = i
  · exact ⟨f a,by simp [hj],hf a⟩
  · exact ⟨a,by simp [hj],rfl⟩

/-- What is in a list with one place rewritten. -/
theorem mem_modify {α : Type} {l : List α} {j : ℕ} {f : α → α} {b : α} (h : b ∈ l.modify j f) :
    b ∈ l ∨ ∃ a, l[j]? = some a ∧ b = f a := by
  obtain ⟨i,hi⟩ := List.mem_iff_getElem?.mp h
  rw [List.getElem?_modify] at hi
  by_cases hj : j = i
  · subst hj
    cases ha : l[j]? with
    | none => simp [ha] at hi
    | some a => exact .inr ⟨a,rfl,by simpa [ha] using hi.symm⟩
  · exact .inl (List.mem_of_getElem? (by simpa [hj] using hi))

theorem land_grows (key : String) (flight : ℕ) (r : Option (Served T)) :
    Grows s (land s key flight r) where
  ttl := rfl
  built _ hb := hb
  flights k i hf := by
    obtain ⟨f,hf,hk⟩ := hf
    obtain ⟨g,hg,hgk⟩ := getElem?_modify_of hf flight (setResult r) Flight.key fun _ => rfl
    exact ⟨g,hg,hgk.trans hk⟩
  heap _ _ he := he

theorem land_inv (h : MemoInv indexByResource Q s) {key : String} {flight : ℕ}
    {r : Option (Served T)} (hf : FlightFor s key flight)
    (hr : ∀ served ∈ r, Good s key served) :
    MemoInv indexByResource Q (land s key flight r) where
  entries := h.entries
  ages := h.ages
  indexes := h.indexes
  group := by
    intro k i hk
    by_cases hkey : k = key
    · subst hkey
      simp only [land, Function.update_self] at hk
      cases hk
    · simp only [land, Function.update_of_ne hkey] at hk
      exact (land_grows key flight r).flights k i (h.group k i hk)
  results := by
    intro f hmem served hres
    apply (land_grows key flight r).good
    cases mem_modify hmem with
    | inl hold => exact h.results f hold served hres
    | inr hnew =>
      obtain ⟨g,hg,rfl⟩ := hnew
      obtain ⟨g',hg',hkey⟩ := hf
      obtain rfl : g = g' := Option.some.inj (hg.symm.trans hg')
      have hserved : r = some served := Option.some.inj hres
      exact hkey.symm ▸ hr served hserved
  calls i := (land_grows key flight r).knows (h.calls i)
  asked := h.asked
  builders := h.builders

theorem store_grows (key : String) (topo : T) : Grows s (store s key topo) where
  ttl := rfl
  built _ hb := hb
  flights _ _ hf := hf
  heap _ _ he := by
    obtain ⟨e,he,ht⟩ := he
    exact ⟨e,getElem?_append_some he _,ht⟩

theorem store_inv (h : MemoInv indexByResource Q s) {key : String} {topo : T}
    (hb : BuiltFor s key topo) : MemoInv indexByResource Q (store s key topo) where
  entries := by
    intro k ref hk
    have hk := (Option.filter_eq_some_iff.mp hk).1
    split_ifs at hk with hkey
    · obtain rfl := Option.some.inj hk
      exact ⟨⟨topo,s.now,none⟩,by simp [store],hkey ▸ hb⟩
    · obtain ⟨e,he,hbe⟩ := h.entries k ref hk
      exact ⟨e,getElem?_append_some he _,hbe⟩
  ages := by
    intro e he
    cases List.mem_append.mp he with
    | inl hold => exact h.ages e hold
    | inr hnew => rw [List.mem_singleton.mp hnew]; exact le_refl _
  indexes := by
    intro e he x hx
    cases List.mem_append.mp he with
    | inl hold => exact h.indexes e hold x hx
    | inr hnew => rw [List.mem_singleton.mp hnew] at hx; nomatch hx
  group := h.group
  results f hf served hr := (store_grows key topo).good (h.results f hf served hr)
  calls i := (store_grows key topo).knows (h.calls i)
  asked := h.asked
  builders := h.builders

theorem index_grows (ref : ℕ) (x : X) : Grows s (withIndexAt s ref x) where
  ttl := rfl
  built _ hb := hb
  flights _ _ hf := hf
  heap topo i he := by
    obtain ⟨e,he,ht⟩ := he
    obtain ⟨e',he',hte⟩ := getElem?_modify_of he ref (setIndex x) MemoEntry.topo fun _ => rfl
    exact ⟨e',he',hte.trans ht⟩

theorem index_inv (h : MemoInv indexByResource Q s) {ref : ℕ} {e : MemoEntry T X}
    (he : s.heap[ref]? = some e) :
    MemoInv indexByResource Q (withIndexAt s ref (indexByResource e.topo)) where
  entries := by
    intro k i hk
    obtain ⟨e₀,he₀,hb⟩ := h.entries k i hk
    obtain ⟨e₁,he₁,ht⟩ := getElem?_modify_of he₀ ref (setIndex (indexByResource e.topo))
      MemoEntry.topo fun _ => rfl
    exact ⟨e₁,he₁,ht.symm ▸ hb⟩
  ages := by
    intro e₁ hmem
    cases mem_modify hmem with
    | inl hold => exact h.ages e₁ hold
    | inr hnew =>
      obtain ⟨e₀,he₀,rfl⟩ := hnew
      exact h.ages e₀ (List.mem_of_getElem? he₀)
  indexes := by
    intro e₁ hmem x hx
    cases mem_modify hmem with
    | inl hold => exact h.indexes e₁ hold x hx
    | inr hnew =>
      obtain ⟨e₀,he₀,rfl⟩ := hnew
      obtain rfl : e = e₀ := Option.some.inj (he.symm.trans he₀)
      exact (Option.some.inj hx).symm
  group := h.group
  results f hf served hr := (index_grows ref _).good (h.results f hf served hr)
  calls i := (index_grows ref _).knows (h.calls i)
  asked := h.asked
  builders := h.builders

section Steps

variable [DecidableEq T] {t : Memoizer T X} {i : ℕ}

omit [DecidableEq T] in
theorem tick_inv (h : MemoInv indexByResource Q s) (d : ℕ) :
    MemoInv indexByResource Q { s with now := s.now+d } where
  entries := h.entries
  ages e he := le_trans (h.ages e he) (Int.le_add_of_nonneg_right (Int.natCast_nonneg d))
  indexes := h.indexes
  group := h.group
  results f hf served hr := ⟨(h.results f hf served hr).built,(h.results f hf served hr).young⟩
  calls j := by
    have hgrow : Grows s { s with now := s.now+d } :=
      ⟨rfl,fun _ hb => hb,fun _ _ hf => hf,fun _ _ he => he⟩
    exact hgrow.knows (h.calls j)
  asked := h.asked
  builders := h.builders

theorem call_inv (h : MemoInv indexByResource Q s) {q : Query} {withIndex : Bool} (hq : Q q)
    (ht : step indexByResource s (.call i q withIndex) = some t) :
    MemoInv indexByResource Q t := by
  have hquery : ∀ p, some q = some p → Q p := fun p hp => Option.some.inj hp ▸ hq
  simp only [step] at ht
  split at ht
  · split_ifs at ht
    · obtain rfl := Option.some.inj ht
      exact setCall_inv h i trivial hquery
    · cases hl : lookup s q.key with
      | none =>
        obtain rfl := Option.some.inj (by simpa [hl] using ht)
        exact setCall_inv h i trivial hquery
      | some served =>
        obtain rfl := Option.some.inj (by simpa [hl] using ht)
        apply setCall_inv h i
        · exact afterScoped_knows fun x hx => Option.some.inj hx ▸ lookup_good h hl
        · rw [afterScoped_query]
          exact hquery
  · cases ht

omit [DecidableEq T] in
/-- The query of a call stays the same while it runs. -/
theorem asked_of (h : MemoInv indexByResource Q s) {c : Call T X} {q : Query}
    (hc : s.calls i = c) (hq : c.query = some q) : ∀ p, some q = some p → Q p := by
  intro p hp
  obtain rfl := Option.some.inj hp
  exact h.asked i q (hc ▸ hq)

theorem join_inv (h : MemoInv indexByResource Q s)
    (ht : step indexByResource s (.join i) = some t) : MemoInv indexByResource Q t := by
  simp only [step] at ht
  split at ht
  · next q withIndex hc =>
    have hquery := asked_of h hc rfl
    cases hg : s.group q.key with
    | none =>
      obtain rfl := Option.some.inj (by simpa [hg] using ht)
      exact setCall_inv (lead_inv h q.key) i (flightFor_lead q.key) hquery
    | some flight =>
      obtain rfl := Option.some.inj (by simpa [hg] using ht)
      exact setCall_inv h i (h.group q.key flight hg) hquery
  · cases ht

theorem recheck_inv (h : MemoInv indexByResource Q s)
    (ht : step indexByResource s (.recheck i) = some t) : MemoInv indexByResource Q t := by
  simp only [step] at ht
  split at ht
  · next q withIndex flight hc =>
    have hquery := asked_of h hc rfl
    have hflight : FlightFor s q.key flight := by simpa only [hc, Knows] using h.calls i
    cases hl : lookup s q.key with
    | none =>
      obtain rfl := Option.some.inj (by simpa [hl] using ht)
      exact setCall_inv h i hflight hquery
    | some served =>
      obtain rfl := Option.some.inj (by simpa [hl] using ht)
      exact setCall_inv h i ⟨hflight,fun x hx => Option.some.inj hx ▸ lookup_good h hl⟩ hquery
  · cases ht

theorem build_inv (h : MemoInv indexByResource Q s) {r : Option T}
    (ht : step indexByResource s (.build i r) = some t) : MemoInv indexByResource Q t := by
  simp only [step] at ht
  split at ht
  · next q withIndex flight hc =>
    have hquery := asked_of h hc rfl
    have hflight : FlightFor s q.key flight := by simpa only [hc, Knows] using h.calls i
    cases r with
    | none =>
      obtain rfl := Option.some.inj ht
      exact setCall_inv h i ⟨hflight,fun _ hn => by cases hn⟩ hquery
    | some topo =>
      obtain rfl := Option.some.inj ht
      refine setCall_inv (built_inv h (hquery q rfl) topo) i ?_ hquery
      exact ⟨(built_grows q topo).flights _ _ hflight,builtFor_new q topo⟩
  · next q withIndex hc =>
    have hquery := asked_of h hc rfl
    cases r with
    | none =>
      obtain rfl := Option.some.inj ht
      apply setCall_inv h i
      · exact afterScoped_knows fun _ hn => by cases hn
      · rw [afterScoped_query]
        exact hquery
    | some topo =>
      obtain rfl := Option.some.inj ht
      apply setCall_inv (built_inv h (hquery q rfl) topo) i
      · apply afterScoped_knows
        intro x hx
        obtain rfl := Option.some.inj hx
        exact ⟨builtFor_new q topo,fun _ _ hn => by cases hn⟩
      · rw [afterScoped_query]
        exact hquery
  · cases ht

theorem store_step_inv (h : MemoInv indexByResource Q s)
    (ht : step indexByResource s (.store i) = some t) : MemoInv indexByResource Q t := by
  simp only [step] at ht
  split at ht
  · next q withIndex flight topo hc =>
    obtain rfl := Option.some.inj ht
    have hknows : FlightFor s q.key flight ∧ BuiltFor s q.key topo := by
      simpa only [hc, Knows] using h.calls i
    refine setCall_inv (store_inv h hknows.2) i ?_ (asked_of h hc rfl)
    refine ⟨(store_grows q.key topo).flights _ _ hknows.1,fun x hx => ?_⟩
    obtain rfl := Option.some.inj hx
    exact ⟨(store_grows q.key topo).builtFor hknows.2,fun _ _ hn => by cases hn⟩
  · cases ht

theorem finish_inv (h : MemoInv indexByResource Q s)
    (ht : step indexByResource s (.finish i) = some t) : MemoInv indexByResource Q t := by
  simp only [step] at ht
  split at ht
  · next q withIndex flight r hc =>
    obtain rfl := Option.some.inj ht
    have hknows : FlightFor s q.key flight ∧ ∀ served ∈ r, Good s q.key served := by
      simpa only [hc, Knows] using h.calls i
    apply setCall_inv (land_inv h hknows.1 hknows.2) i
    · exact afterScoped_knows fun x hx => (land_grows q.key flight r).good (hknows.2 x hx)
    · rw [afterScoped_query]
      exact asked_of h hc rfl
  · cases ht

/-- A waiting call gets the result of a flight with its key. -/
theorem receive_inv (h : MemoInv indexByResource Q s)
    (ht : step indexByResource s (.receive i) = some t) : MemoInv indexByResource Q t := by
  simp only [step] at ht
  split at ht
  · next q withIndex flight hc =>
    obtain ⟨f,hf,ht⟩ := Option.bind_eq_some_iff.mp ht
    obtain ⟨r,hr,ht⟩ := Option.bind_eq_some_iff.mp ht
    obtain rfl := Option.some.inj ht
    obtain ⟨f',hf',hkey⟩ : FlightFor s q.key flight := by simpa only [hc, Knows] using h.calls i
    obtain rfl : f = f' := Option.some.inj (hf.symm.trans hf')
    apply setCall_inv h i
    · apply afterScoped_knows
      intro x hx
      exact hkey ▸ h.results f (List.mem_of_getElem? hf) x (by rw [hr, hx])
    · rw [afterScoped_query]
      exact asked_of h hc rfl
  · cases ht

theorem readEntry_knows {q : Query} {served : Served T} (hg : Good s q.key served) :
    Knows indexByResource s (readEntry indexByResource s q served) := by
  have hinline : Knows indexByResource s
      (.returned q true (some served) (some (indexByResource served.topo))) := by
    intro x hx
    obtain rfl := Option.some.inj hx
    exact ⟨hg,fun _ => rfl⟩
  simp only [readEntry]
  split_ifs
  · exact hinline
  · split
    · exact hinline
    · split
      · next e he =>
        split_ifs with htopo
        · exact hinline
        · exact ⟨hg,e,he,not_not.mp htopo⟩
      · exact hinline

theorem readEntry_query (q : Query) (served : Served T) :
    (readEntry indexByResource s q served).query = some q := by
  simp only [readEntry]
  split_ifs
  · rfl
  · split
    · rfl
    · split
      · split_ifs <;> rfl
      · rfl

theorem read_entry_inv (h : MemoInv indexByResource Q s)
    (ht : step indexByResource s (.readEntry i) = some t) : MemoInv indexByResource Q t := by
  simp only [step] at ht
  split at ht
  · next q served hc =>
    obtain rfl := Option.some.inj ht
    have hgood : Good s q.key served := by simpa only [hc, Knows] using h.calls i
    apply setCall_inv h i (readEntry_knows hgood)
    rw [readEntry_query]
    exact asked_of h hc rfl
  · cases ht

/-- The index of an entry is the index of the topology the call got. -/
theorem index_step_inv (h : MemoInv indexByResource Q s)
    (ht : step indexByResource s (.index i) = some t) : MemoInv indexByResource Q t := by
  simp only [step] at ht
  split at ht
  · next q served ref hc =>
    obtain ⟨e,he,ht⟩ := Option.bind_eq_some_iff.mp ht
    have hknows : Good s q.key served ∧ EntryFor s served.topo ref := by
      simpa only [hc, Knows] using h.calls i
    obtain ⟨e',he',htopo⟩ := hknows.2
    obtain rfl : e = e' := Option.some.inj (he.symm.trans he')
    cases hx : e.index with
    | some x =>
      obtain rfl := Option.some.inj (by simpa [hx] using ht)
      refine setCall_inv h i (fun y hy => ?_) (asked_of h hc rfl)
      obtain rfl := Option.some.inj hy
      refine ⟨hknows.1,fun _ => ?_⟩
      rw [h.indexes e (List.mem_of_getElem? he) x hx, htopo]
    | none =>
      obtain rfl := Option.some.inj (by simpa [hx] using ht)
      refine setCall_inv (index_inv h he) i (fun y hy => ?_) (asked_of h hc rfl)
      obtain rfl := Option.some.inj hy
      exact ⟨(index_grows ref _).good hknows.1,fun _ => by rw [htopo]⟩
  · cases ht

theorem memo_step_inv {a : Act T} (h : MemoInv indexByResource Q s)
    (hq : ∀ q, a.query = some q → Q q) (ht : step indexByResource s a = some t) :
    MemoInv indexByResource Q t := by
  cases a with
  | tick d =>
    obtain rfl := Option.some.inj ht
    exact tick_inv h d
  | call i q withIndex => exact call_inv h (hq q rfl) ht
  | join i => exact join_inv h ht
  | recheck i => exact recheck_inv h ht
  | build i r => exact build_inv h ht
  | store i => exact store_step_inv h ht
  | finish i => exact finish_inv h ht
  | receive i => exact receive_inv h ht
  | readEntry i => exact read_entry_inv h ht
  | index i => exact index_step_inv h ht

end Steps

section Runs

variable [DecidableEq T]

/-- Along a run every query is one of the run's own. -/
theorem memo_run_inv (as : List (Act T)) {s t : Memoizer T X}
    (h : MemoInv indexByResource Q s) (hq : ∀ q ∈ as.filterMap Act.query, Q q)
    (hrun : run (step indexByResource) s as = some t) : MemoInv indexByResource Q t := by
  induction as generalizing s with
  | nil =>
    obtain rfl : s = t := by simpa using hrun
    exact h
  | cons a as ih =>
    obtain ⟨u,hu,hrun⟩ := run_cons_some _ hrun
    apply ih (memo_step_inv h _ hu) _ hrun
    · exact fun q hqa => hq q (by simp [hqa])
    · intro q hmem
      apply hq q
      rw [List.filterMap_cons]
      cases a.query with
      | none => exact hmem
      | some p => exact List.mem_cons_of_mem p hmem

/-- In every run in which no two calls of one scope are confused by their keys, every topology
returned was built for the same scope and equivalent options, was younger than the TTL when it
was looked up, and comes with its own index. -/
theorem memo_sound (indexByResource : T → X) (ttl now : ℤ) (as : List (Act T))
    (hsep : Separated as) (s : Memoizer T X)
    (hrun : run (step indexByResource) (newMemoizer ttl now) as = some s) :
    Sound indexByResource s := by
  intro i q withIndex served index hc
  have hinv := memo_run_inv (Q := fun q => q ∈ as.filterMap Act.query) as
    (new_memo_inv _ ttl now) (fun _ h => h) hrun
  have hknows := hinv.calls i
  rw [hc] at hknows
  obtain ⟨hgood,hindex⟩ := hknows served rfl
  obtain ⟨b,hb,htopo,hkey⟩ := hgood.built
  have hquery : q ∈ as.filterMap Act.query := hinv.asked i q (by rw [hc]; rfl)
  have hparts := scopedKey_inj hkey
  have hequiv := hsep b.1 (hinv.builders b hb) q hquery hparts.1 hparts.2
  exact ⟨⟨b,hb,htopo,hparts.1,hequiv⟩,hgood.young,hindex⟩

def allQuery : Query := ⟨0,{},rfl⟩

def noneQuery : Query := ⟨0,{ namespaces := some [] },rfl⟩

/-- A build shared through a flight, then read from the cache with its index. -/
def sharedRun : List (Act ℕ) :=
  [.call 0 allQuery false,.call 1 allQuery false,.join 0,.join 1,.recheck 0,.build 0 (some 7),
    .store 0,.finish 0,.receive 1,.call 2 allQuery true,.readEntry 2,.index 2]

theorem memo_sound_shared :
    ∃ s, run (step fun n : ℕ => n+1) (newMemoizer 5 0) sharedRun = some s ∧
      Sound (fun n : ℕ => n+1) s := by
  refine ⟨_,rfl,memo_sound (fun n : ℕ => n+1) 5 0 sharedRun ?_ _ rfl⟩
  intro q hq p hp _ _
  have hall : ∀ x ∈ sharedRun.filterMap Act.query, x = allQuery := by
    simp [sharedRun, Act.query]
  rw [hall q hq, hall p hp]
  exact ⟨rfl,rfl,rfl,rfl,fun _ => rfl⟩

/-- A build for all namespaces answers a call that may see none. -/
theorem all_served_for_none :
    ¬∀ (as : List (Act ℕ)) (s : Memoizer ℕ ℕ),
      run (step fun n : ℕ => n) (newMemoizer 5 0) as = some s → Sound (fun n : ℕ => n) s := by
  intro h
  have hsound := h [.call 0 allQuery false,.join 0,.recheck 0,.build 0 (some 7),.store 0,.finish 0,
    .call 1 noneQuery false] _ rfl 1 noneQuery false ⟨7,some (0, 0)⟩ none rfl
  obtain ⟨⟨b,hb,-,-,hequiv⟩,-⟩ := hsound
  have hbuilt : b ∈ [(allQuery, 7)] := hb
  obtain rfl := List.mem_singleton.mp hbuilt
  exact absurd (hequiv.namespaces "a") (by decide)

end Runs

end Radar.Topology
