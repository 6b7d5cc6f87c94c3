import Radar.ReadScope.Stores

/-!
# What an assessment finds

Informers that synced stay synced, so a store that was found to be complete
stays complete. An assessment splits its target by what each namespace's store
was when it was looked at.
-/

set_option autoImplicit false

namespace Radar.ReadScope

open Looks

abbrev Later : World → World → Prop := Relation.ReflTransGen Moves

theorem later_synced {w v : World} (h : Later w v) {inf : Informer} (hsynced : w.synced inf = true) :
    v.synced inf = true := by
  induction h with
  | refl => exact hsynced
  | tail _ hmove ih =>
    cases hmove with
    | sync i =>
      by_cases hi : inf = i
      · rw [hi]
        exact Function.update_self _ _ _
      · exact (Function.update_of_ne hi _ _).trans ih
    | hold => exact ih
    | track => exact ih
    | deadline => exact ih

section Readiness

variable {rc : ResourceCache} {key : String} {w v : World}

/-- The namespace is collected, and its store has synced. -/
def Readable (rc : ResourceCache) (key : String) (w : World) (ns : String) : Prop :=
  Covers rc key ns ∧ ∃ inf, storeFor rc key ns = some inf ∧ w.synced inf = true

theorem Readable.later {ns : String} (h : Readable rc key w ns) (hlater : Later w v) :
    Readable rc key v ns := by
  obtain ⟨hcovers,inf,hstore,hsynced⟩ := h
  exact ⟨hcovers,inf,hstore,later_synced hlater hsynced⟩

theorem yields_later {α : Type} {p : Looks World α} {a : α} (h : Yields Later w p a v) : Later w v :=
  yields_moves (fun _ => .refl) (fun hst htu => hst.trans htu) h

theorem yields_allSynced {infs : List Informer} {b : Bool} (h : Yields Later w (allSynced infs) b v) :
    (b = true → ∀ inf ∈ infs, v.synced inf = true) ∧
      ((∀ inf ∈ infs, w.synced inf = true) → b = true) := by
  induction infs generalizing w b with
  | nil =>
    obtain ⟨rfl,rfl⟩ := yields_pure h
    exact ⟨nofun,fun _ => rfl⟩
  | cons inf rest ih =>
    obtain ⟨synced,u,hfirst,hrest⟩ := yields_bind h
    obtain ⟨hmove,rfl⟩ := yields_ask hfirst
    cases hsynced : u.synced inf with
    | false =>
      rw [hsynced, if_neg Bool.false_ne_true] at hrest
      obtain ⟨rfl,rfl⟩ := yields_pure hrest
      refine ⟨nofun,fun hall => ?_⟩
      rw [← hsynced]
      exact later_synced hmove (hall inf List.mem_cons_self)
    | true =>
      rw [hsynced, if_pos rfl] at hrest
      obtain ⟨hsound,hfull⟩ := ih hrest
      constructor
      · intro hb i hi
        rcases List.mem_cons.mp hi with rfl | hi
        · exact later_synced (yields_later hrest) hsynced
        · exact hsound hb i hi
      · intro hall
        exact hfull fun i hi => later_synced hmove (hall i (List.mem_cons_of_mem inf hi))

theorem yields_unsynced {r : KindReadiness} (h : Yields Later w (unsynced rc key) r v) :
    r ≠ .ready ∧ r ≠ .unavailable := by
  obtain ⟨past,u,-,hrest⟩ := yields_bind h
  obtain ⟨rfl,rfl⟩ := yields_pure hrest
  cases past with
  | false => exact ⟨nofun,nofun⟩
  | true => exact ⟨nofun,nofun⟩

theorem yields_storeReadiness {inf : Informer} {r : KindReadiness}
    (h : Yields Later w (storeReadiness rc key inf) r v) :
    (r = .ready → v.synced inf = true) ∧ (w.synced inf = true → r = .ready) ∧ r ≠ .unavailable := by
  obtain ⟨synced,u,hfirst,hrest⟩ := yields_bind h
  obtain ⟨hmove,rfl⟩ := yields_ask hfirst
  cases hsynced : u.synced inf with
  | true =>
    rw [hsynced, if_pos rfl] at hrest
    obtain ⟨rfl,rfl⟩ := yields_pure hrest
    exact ⟨fun _ => hsynced,fun _ => rfl,(by simp)⟩
  | false =>
    rw [hsynced, if_neg Bool.false_ne_true] at hrest
    obtain ⟨hready,hknown⟩ := yields_unsynced hrest
    refine ⟨fun heq => absurd heq hready,fun hw => ?_,hknown⟩
    rw [later_synced hmove hw] at hsynced
    cases hsynced

theorem yields_readiness (hwatched : Watched rc key) {r : KindReadiness}
    (h : Yields Later w (KindReadinessFor rc key) r v) :
    (r = .ready → ∀ inf ∈ (rc.kindStores key).map Prod.snd, v.synced inf = true) ∧
      ((∀ inf ∈ (rc.kindStores key).map Prod.snd, w.synced inf = true) → r = .ready) ∧
      r ≠ .unavailable := by
  rw [KindReadinessFor, hwatched.enabled, InformerSynced, hwatched.status] at h
  obtain ⟨pair,u,hfirst,hrest⟩ := yields_bind h
  obtain ⟨synced,u',hall,hpair⟩ := yields_bind hfirst
  obtain ⟨rfl,rfl⟩ := yields_pure hpair
  obtain ⟨hsound,hfull⟩ := yields_allSynced hall
  cases synced with
  | true =>
    obtain ⟨rfl,rfl⟩ := yields_pure hrest
    exact ⟨fun _ => hsound rfl,fun _ => rfl,(by simp)⟩
  | false =>
    obtain ⟨hready,hknown⟩ := yields_unsynced hrest
    exact ⟨fun heq => absurd heq hready,fun hw => absurd (hfull hw) Bool.false_ne_true,hknown⟩

end Readiness

section Assess

open KindReadAssessment

variable {rc : ResourceCache} {key : String} {w v : World}

/-- The four lists of an assessment. -/
def parts (a : KindReadAssessment) : List String :=
  a.read.getD []++a.loading++a.failed++a.uncovered

theorem appended_getD (read : Option (List String)) (l : List String) :
    (appended read l).getD [] = read.getD []++l := by
  unfold appended
  split_ifs with hempty
  · rw [hempty, List.append_nil]
  · rfl

theorem appended_isSome {read : Option (List String)} (h : read.isSome = true) (l : List String) :
    (appended read l).isSome = true := by
  unfold appended
  split_ifs
  · exact h
  · rfl

theorem assign_parts (a : KindReadAssessment) (state : KindReadiness) (l : List String) :
    (parts (a.assign state l)).Perm (parts a++l) := by
  rw [List.perm_iff_count]
  intro x
  unfold parts assign
  cases state with
  | ready =>
    simp only [appended_getD, List.count_append]
    omega
  | failed =>
    simp only [List.count_append]
    omega
  | unavailable =>
    simp only [List.count_append]
    omega
  | pending =>
    simp only [List.count_append]
    omega

theorem assign_read {a : KindReadAssessment} (h : a.read.isSome = true) (state : KindReadiness)
    (l : List String) : (a.assign state l).read.isSome = true := by
  cases state with
  | ready => exact appended_isSome h l
  | failed => exact h
  | unavailable => exact h
  | pending => exact h

theorem assign_uncovered (a : KindReadAssessment) (state : KindReadiness) (l : List String) :
    (a.assign state l).uncovered = a.uncovered := by
  cases state <;> rfl

theorem mem_assign_read {a : KindReadAssessment} {state : KindReadiness} {l : List String}
    {ns : String} (h : ns ∈ (a.assign state l).read.getD []) :
    ns ∈ a.read.getD [] ∨ state = .ready ∧ ns ∈ l := by
  cases state with
  | ready =>
    rw [assign, appended_getD, List.mem_append] at h
    exact h.imp_right fun hin => ⟨rfl,hin⟩
  | failed => exact .inl h
  | unavailable => exact .inl h
  | pending => exact .inl h

theorem assign_nil (a : KindReadAssessment) (state : KindReadiness) : a.assign state [] = a := by
  cases state <;> simp [assign, appended]

/-- What looking at some more namespaces makes of an assessment. -/
structure Goes (rc : ResourceCache) (key : String) (w v : World) (namespaces : List String)
    (a b : KindReadAssessment) : Prop where
  read : a.read.isSome = true → b.read.isSome = true
  parts : (parts b).Perm (parts a++namespaces)
  uncovered : ∀ ns, ns ∈ b.uncovered ↔ ns ∈ a.uncovered ∨ ns ∈ namespaces ∧ ¬Covers rc key ns
  synced : ∀ ns ∈ b.read.getD [], ns ∈ a.read.getD [] ∨ Readable rc key v ns
  full : (∀ ns ∈ namespaces, Readable rc key w ns) → b.loading = a.loading ∧ b.failed = a.failed

namespace Goes

theorem refl (w v : World) (a : KindReadAssessment) : Goes rc key w v [] a a where
  read h := h
  parts := by rw [List.append_nil]
  uncovered ns := by simp
  synced ns h := .inl h
  full _ := ⟨rfl,rfl⟩

theorem trans {u : World} {l m : List String} {a b c : KindReadAssessment}
    (h : Goes rc key w u l a b) (h' : Goes rc key u v m b c) (hwu : Later w u) (huv : Later u v) :
    Goes rc key w v (l++m) a c where
  read hread := h'.read (h.read hread)
  parts := by
    rw [← List.append_assoc]
    exact h'.parts.trans (h.parts.append_right m)
  uncovered ns := by
    rw [h'.uncovered, h.uncovered, List.mem_append, or_and_right, or_assoc]
  synced ns hns := by
    rcases h'.synced ns hns with hin | hread
    · exact (h.synced ns hin).imp_right fun hread => hread.later huv
    · exact .inr hread
  full hall := by
    obtain ⟨hl,hf⟩ := h.full fun ns hns => hall ns (List.mem_append_left m hns)
    obtain ⟨hl',hf'⟩ := h'.full fun ns hns => (hall ns (List.mem_append_right l hns)).later hwu
    exact ⟨hl'.trans hl,hf'.trans hf⟩

theorem uncover (w : World) (a : KindReadAssessment) {ns : String} (hns : ¬Covers rc key ns) :
    Goes rc key w w [ns] a { a with uncovered := a.uncovered++[ns] } where
  read h := h
  parts := by simp only [ReadScope.parts, List.append_assoc, List.Perm.refl]
  uncovered n := by
    rw [List.mem_append, List.mem_singleton]
    constructor
    · exact Or.imp_right fun heq => ⟨heq,heq ▸ hns⟩
    · exact Or.imp_right fun hin => hin.1
  synced n h := .inl h
  full _ := ⟨rfl,rfl⟩

theorem assigned (a : KindReadAssessment) {l : List String} {state : KindReadiness}
    (hcovers : ∀ ns ∈ l, Covers rc key ns)
    (hready : state = .ready → ∀ ns ∈ l, Readable rc key v ns)
    (hfull : ∀ ns ∈ l, Readable rc key w ns → state = .ready) :
    Goes rc key w v l a (a.assign state l) where
  read h := assign_read h state l
  parts := assign_parts a state l
  uncovered ns := by
    rw [assign_uncovered]
    exact ⟨.inl,fun h => h.resolve_right fun hin => hin.2 (hcovers ns hin.1)⟩
  synced ns h := (mem_assign_read h).imp_right fun hin => hready hin.1 ns hin.2
  full hall := by
    cases l with
    | nil =>
      rw [assign_nil]
      exact ⟨rfl,rfl⟩
    | cons ns l =>
      rw [hfull ns List.mem_cons_self (hall ns List.mem_cons_self)]
      exact ⟨rfl,rfl⟩

end Goes

theorem goes_each (hwatched : Watched rc key) {covered l : List String}
    (hcovered : KindNamespaces rc key = some covered) {a b : KindReadAssessment}
    (h : Yields Later w (assessEach rc key covered l a) b v) : Goes rc key w v l a b := by
  induction l generalizing w a with
  | nil =>
    obtain ⟨rfl,rfl⟩ := yields_pure h
    exact Goes.refl _ _ _
  | cons ns rest ih =>
    rw [assessEach] at h
    by_cases hin : ns ∈ covered
    · rw [if_neg (not_not.mpr hin)] at h
      have hcovers : Covers rc key ns := fun _ heq => Option.some.inj (hcovered.symm.trans heq) ▸ hin
      obtain ⟨inf,hstore,-,-⟩ := store_holds hwatched.layout hcovers
      rw [hstore] at h
      obtain ⟨state,u,hstate,hrest⟩ := yields_bind h
      obtain ⟨hready,hfull,-⟩ := yields_storeReadiness hstate
      have hfirst : Goes rc key w u [ns] a (a.assign state [ns]) := by
        apply Goes.assigned
        · intro n hn
          exact List.mem_singleton.mp hn ▸ hcovers
        · intro heq n hn
          exact List.mem_singleton.mp hn ▸ ⟨hcovers,inf,hstore,hready heq⟩
        · rintro n hn ⟨-,i,hi,hsynced⟩
          rw [List.mem_singleton.mp hn, hstore] at hi
          exact hfull (Option.some.inj hi ▸ hsynced)
      exact hfirst.trans (ih hrest) (yields_later hstate) (yields_later hrest)
    · rw [if_pos hin] at h
      have hcovers : ¬Covers rc key ns := fun hall => hin (hall covered hcovered)
      exact (Goes.uncover w a hcovers).trans (ih h) .refl (yields_later h)

/-- The target of a request: its namespaces, or those that are collected. -/
def Target (rc : ResourceCache) (key : String) (requested : Option (List String))
    (target : List String) : Prop :=
  requested = some target ∨ requested = none ∧ KindNamespaces rc key = some target

structure Assessed (rc : ResourceCache) (key : String) (requested : Option (List String))
    (w v : World) (target : List String) (a : KindReadAssessment) : Prop where
  asked : Target rc key requested target
  read : a.read.isSome = true
  partition : (parts a).Perm target
  uncovered : ∀ ns, ns ∈ a.uncovered ↔ ns ∈ target ∧ ¬Covers rc key ns
  synced : ∀ ns ∈ a.read.getD [], Readable rc key v ns
  full : (∀ ns ∈ target, Readable rc key w ns) → a.loading = [] ∧ a.failed = []
  complete : a.complete = true ↔
    requested ≠ none ∧ a.loading = [] ∧ a.failed = [] ∧ a.uncovered = []

theorem Goes.assessed {requested : Option (List String)} {target : List String}
    {a b : KindReadAssessment} {c : Bool} (h : Goes rc key w v target a b)
    (htarget : Target rc key requested target) (hread : a.read = some []) (hloading : a.loading = [])
    (hfailed : a.failed = []) (huncovered : a.uncovered = [])
    (hc : c = true ↔ requested ≠ none ∧ b.loading = [] ∧ b.failed = [] ∧ b.uncovered = []) :
    Assessed rc key requested w v target { b with complete := c } where
  asked := htarget
  read := h.read (by rw [hread]; rfl)
  partition := by
    have hparts := h.parts
    rw [show ReadScope.parts a = [] by simp [ReadScope.parts, hread, hloading, hfailed, huncovered],
      List.nil_append] at hparts
    exact hparts
  uncovered ns := by
    have hns := h.uncovered ns
    rw [huncovered] at hns
    simpa using hns
  synced ns hns := (h.synced ns hns).resolve_left (by simp [hread])
  full hall := by
    obtain ⟨hl,hf⟩ := h.full hall
    exact ⟨hl.trans hloading,hf.trans hfailed⟩
  complete := hc

theorem whole_alone (h : Layout rc key) (hnone : KindNamespaces rc key = none) :
    ∃ inf, (rc.kindStores key).map Prod.snd = [inf] := by
  cases h with
  | whole watched hcovered hstores => exact ⟨_,by rw [hstores]; rfl⟩
  | each namespaces hcovered => cases hnone.symm.trans hcovered

theorem assess_cases (hwatched : Watched rc key) {requested : Option (List String)}
    {a : KindReadAssessment} (h : Yields Later w (AssessKindRead rc key requested) a v) :
    (requested = none ∧ a.read = none) ∨ ∃ target, Assessed rc key requested w v target a := by
  obtain ⟨readiness,u,hreadiness,hrest⟩ := yields_bind h
  obtain ⟨hready,hfull,hknown⟩ := yields_readiness hwatched hreadiness
  dsimp only at hrest
  rw [if_neg hknown] at hrest
  cases hcovered : KindNamespaces rc key with
  | none =>
    rw [hcovered] at hrest
    cases requested with
    | none =>
      obtain ⟨rfl,rfl⟩ := yields_pure hrest
      exact .inl ⟨rfl,rfl⟩
    | some namespaces =>
      obtain ⟨rfl,rfl⟩ := yields_pure hrest
      have hcovers : ∀ ns, Covers rc key ns := fun ns _ heq => by cases hcovered.symm.trans heq
      have hgoes : ∀ start : KindReadAssessment,
          Goes rc key w v namespaces start (start.assign readiness namespaces) := by
        intro start
        apply Goes.assigned
        · exact fun ns _ => hcovers ns
        · intro heq ns _
          obtain ⟨inf,hstore,hin,-⟩ := store_holds hwatched.layout (hcovers ns)
          exact ⟨hcovers ns,inf,hstore,hready heq inf hin⟩
        · rintro ns - ⟨-,inf,hstore,hsynced⟩
          obtain ⟨inf',hstore',hin,-⟩ := store_holds hwatched.layout (hcovers ns)
          obtain ⟨one,hone⟩ := whole_alone hwatched.layout hcovered
          rw [hone, List.mem_singleton] at hin
          rw [hstore, hin] at hstore'
          apply hfull
          rw [hone]
          intro i hi
          rw [List.mem_singleton.mp hi, ← Option.some.inj hstore']
          exact hsynced
      refine .inr ⟨namespaces,(hgoes _).assessed (.inl rfl) rfl rfl rfl rfl ?_⟩
      rw [assign_uncovered]
      simp
  | some covered =>
    rw [hcovered] at hrest
    obtain ⟨b,u',heach,hend⟩ := yields_bind hrest
    obtain ⟨rfl,rfl⟩ := yields_pure hend
    have hgoes := goes_each hwatched hcovered heach
    refine .inr ⟨requested.getD covered,?_⟩
    apply ((Goes.refl w u _).trans hgoes (yields_later hreadiness) (yields_later heach)).assessed
    · cases requested with
      | none => exact .inr ⟨rfl,hcovered⟩
      | some namespaces => exact .inl rfl
    · rfl
    · rfl
    · rfl
    · rfl
    · exact decide_eq_true_iff

end Assess

end Radar.ReadScope
