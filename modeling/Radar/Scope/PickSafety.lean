import Mathlib.Tactic.SplitIfs
import Radar.Scope.Picks

/-!
# User choices and clusters

An explicit choice stays until the context is switched, up to prunes and
trims of exactly what was stored, if the maps are not cleared over a choice
made for the active context. Picks are written for the context they were
checked against if that context is still active when it is read again. After
the maps are cleared only contexts active since then have entries.
-/

set_option autoImplicit false

namespace Radar.Scope

open Radar.Run

/-- What the user's latest choice for a key has become, since the last switch. -/
def chosen (k : Key) : List Write → Option (List String)
  | [] => none
  | .switched::_ => none
  | .explicit k' namespaces _::ws => if k' = k then some namespaces else chosen k ws
  | .seed _ _ _::ws => chosen k ws
  | .commit k' _ survivors _::ws =>
    if k' = k ∧ (chosen k ws).isSome then some survivors else chosen k ws

/-- No seed over a choice, and every commit takes namespaces from exactly what it replaced. -/
def Kept : List Write → Prop
  | [] => True
  | .seed k _ _::ws => chosen k ws = none ∧ Kept ws
  | .commit k replaced survivors _::ws =>
    ((∀ p, chosen k ws = some p → p = replaced) ∧ ∃ q, survivors = replaced.filter q) ∧ Kept ws
  | _::ws => Kept ws

/-- The stored pick of the active context is the user's choice. -/
def ChoiceStored (s : Server) : Prop :=
  ∀ user p, chosen ⟨user,s.context⟩ s.writes = some p →
    s.nsPreferences ⟨user,s.context⟩ = pick p

/-- The picks were checked against the context they are written for; clearing needs no check. -/
def Write.Checked : Write → Prop
  | .switched => True
  | .explicit k namespaces checked => namespaces = [] ∨ checked = k.context
  | .seed k _ checked => checked = k.context
  | .commit k _ _ checked => checked = k.context

/-- Only contexts active since the maps were last cleared have entries. -/
def EntriesRecent (s : Server) : Prop :=
  ∀ k, (s.nsPreferences k).isSome ∨ s.seededPicks k → k.context ∈ s.recent

/-- The maps are not cleared over a choice for the active context. -/
def NoChoiceCleared (s : Server) : Act → Prop
  | .finalizePostContextSwitch => ∀ user, chosen ⟨user,s.context⟩ s.writes = none
  | _ => True

/-- When the request reads the context again before it writes, the active context is the one its
picks were checked against. -/
def CheckedInContext (s : Server) : Act → Prop
  | .next i =>
    match s.requests i with
    | .validated _ namespaces checked => namespaces = [] ∨ checked = s.context
    | .sourced k _ checked => s.context = k.context → checked = k.context
    | .mutation m => s.context = m.key.context → m.checked = m.key.context
    | _ => True
  | _ => True

/-- The key a request is about to write, with the lock in its hand. -/
def Request.writing : Request → Option Key
  | .setting k _ _ => some k
  | .seeding k _ _ => some k
  | .committing m => some m.key
  | _ => none

def Request.mutating : Request → Option Mutation
  | .mutation m => some m
  | .committing m => some m
  | _ => none

def Locked (s : Server) : Prop := ∀ i k, (s.requests i).writing = some k → s.nsPickMu = some i

/-- What a request is about to write was checked for its key. -/
def Request.Checked : Request → Prop
  | .setting k namespaces checked => namespaces = [] ∨ checked = k.context
  | .seeding k _ checked => checked = k.context
  | .committing m => m.checked = m.key.context
  | _ => True

def Mutation.Trims (m : Mutation) : Prop := ∃ q, m.survivors = m.expected.filter q

section Moves

/-- What one step can do. -/
inductive Moves (s : Server) : Act → Server → Prop where
  | switched (name : String) : Moves s (.switchContext name) (s.switchContext name)
  | cleared (free : s.nsPickMu = none) :
    Moves s .finalizePostContextSwitch s.clearAllNamespacePreferences
  | moved (a : Act) (i : ℕ) (r : Request) (before : (s.requests i).writing = none)
    (after : r.writing = none) (trims : ∀ m, r.mutating = some m → m.Trims) :
    Moves s a (s.setRequest i r)
  | locked (i : ℕ) (r : Request) (k : Key) (free : s.nsPickMu = none) (writing : r.writing = some k)
    (active : k.context = s.context)
    (same : ∀ m, r.mutating = some m → (s.requests i).mutating = some m)
    (checked : CheckedInContext s (.next i) → r.Checked) : Moves s (.next i) (s.lock i r)
  | explicit (i : ℕ) (k : Key) (namespaces : List String) (checked : String)
    (request : s.requests i = .setting k namespaces checked) :
    Moves s (.next i) ((s.setActiveNamespaceForUser k namespaces checked).unlock i .idle)
  | seeds (i : ℕ) (k : Key) (picks : List String) (checked : String)
    (request : s.requests i = .seeding k picks checked) :
    Moves s (.next i) ((s.seedPick k picks checked).unlock i (.seeded k.user))
  | commits (i : ℕ) (m : Mutation) (request : s.requests i = .committing m) :
    Moves s (.next i) ((s.commitPickMutation m).unlock i (Server.afterMutation m))

theorem afterMutation_quiet (m : Mutation) : (Server.afterMutation m).writing = none ∧
    (Server.afterMutation m).mutating = none := by
  unfold Server.afterMutation
  split_ifs <;> exact ⟨rfl,rfl⟩

theorem intersect_trims (picks : List String) (allowed : Option (List String)) :
    ∃ q, intersectPicksWithAllowed picks allowed = picks.filter q := by
  cases allowed with
  | none => exact ⟨fun _ => true,(List.filter_true picks).symm⟩
  | some l => exact ⟨_,rfl⟩

theorem prune_trims (picks existing : List String) :
    ∃ q, pruneToExistingNamespaces picks existing = picks.filter q := by
  unfold pruneToExistingNamespaces
  split_ifs
  · exact ⟨fun _ => true,(List.filter_true picks).symm⟩
  · exact intersect_trims picks (some existing)

variable {s t : Server}

theorem mutate_moves (a : Act) (i : ℕ) {m : Mutation} (hm : m.Trims)
    (hq : (s.requests i).writing = none) : Moves s a (s.mutate i m) := by
  apply Moves.moved a i _ hq
  · split_ifs
    · exact (afterMutation_quiet m).1
    · rfl
  · intro m' hm'
    split_ifs at hm'
    · rw [(afterMutation_quiet m).2] at hm'
      cases hm'
    · obtain rfl := Option.some.inj hm'
      exact hm

theorem next_moves {i : ℕ} (ht : s.next i = some t) : Moves s (.next i) t := by
  have hnone : ∀ {r : Request}, r.mutating = none → ∀ m, r.mutating = some m → m.Trims :=
    fun hr m hm => by cases hr.symm.trans hm
  cases hr : s.requests i with
  | validated user namespaces checked =>
    simp only [Server.next, hr] at ht
    split_ifs at ht with hl hc
    · obtain rfl := Option.some.inj ht
      exact .moved _ i _ (by rw [hr]; rfl) rfl (hnone rfl)
    · obtain rfl := Option.some.inj ht
      refine .locked i _ ⟨user,s.context⟩ (Option.not_isSome_iff_eq_none.mp hl) rfl rfl
        (fun m hm => by cases hm) fun hok => ?_
      simp only [CheckedInContext, hr] at hok
      exact hok
  | setting k namespaces checked =>
    simp only [Server.next, hr] at ht
    obtain rfl := Option.some.inj ht
    exact .explicit i k namespaces checked hr
  | loading k =>
    simp only [Server.next, hr] at ht
    split_ifs at ht <;>
    · obtain rfl := Option.some.inj ht
      exact .moved _ i _ (by rw [hr]; rfl) rfl (hnone rfl)
  | sourced k picks checked =>
    simp only [Server.next, hr] at ht
    split_ifs at ht with hl hc
    · obtain rfl := Option.some.inj ht
      exact .moved _ i _ (by rw [hr]; rfl) rfl (hnone rfl)
    · obtain rfl := Option.some.inj ht
      have hctx := not_not.mp hc
      refine .locked i _ k (Option.not_isSome_iff_eq_none.mp hl) rfl hctx.symm
        (fun m hm => by cases hm) fun hok => ?_
      simp only [CheckedInContext, hr] at hok
      exact hok hctx
  | seeding k picks checked =>
    simp only [Server.next, hr] at ht
    obtain rfl := Option.some.inj ht
    exact .seeds i k picks checked hr
  | seeded user =>
    simp only [Server.next, hr] at ht
    split_ifs at ht <;>
    · obtain rfl := Option.some.inj ht
      exact .moved _ i _ (by rw [hr]; rfl) rfl (hnone rfl)
  | inContext k =>
    simp only [Server.next, hr] at ht
    obtain rfl := Option.some.inj ht
    exact .moved _ i _ (by rw [hr]; rfl) rfl (hnone rfl)
  | mutation m =>
    simp only [Server.next, hr] at ht
    split_ifs at ht with hl hc
    · obtain rfl := Option.some.inj ht
      exact .moved _ i _ (by rw [hr]; rfl) (afterMutation_quiet m).1 (hnone (afterMutation_quiet m).2)
    · obtain rfl := Option.some.inj ht
      have hctx := not_not.mp hc
      refine .locked i _ m.key (Option.not_isSome_iff_eq_none.mp hl) rfl hctx.symm
        (fun m' hm => by rw [hr]; exact hm) fun hok => ?_
      simp only [CheckedInContext, hr] at hok
      exact hok hctx
  | committing m =>
    simp only [Server.next, hr] at ht
    obtain rfl := Option.some.inj ht
    exact .commits i m hr
  | idle => simp [Server.next, hr] at ht
  | absent k => simp [Server.next, hr] at ht
  | snapshot k picks => simp [Server.next, hr] at ht
  | pruned k actives => simp [Server.next, hr] at ht

theorem step_moves {a : Act} (ht : s.step a = some t) : Moves s a t := by
  have hnone : ∀ {r : Request}, r.mutating = none → ∀ m, r.mutating = some m → m.Trims :=
    fun hr m hm => by cases hr.symm.trans hm
  cases a with
  | switchContext name =>
    obtain rfl := Option.some.inj ht
    exact .switched name
  | finalizePostContextSwitch =>
    simp only [Server.step] at ht
    split_ifs at ht with hl
    obtain rfl := Option.some.inj ht
    exact .cleared (Option.not_isSome_iff_eq_none.mp hl)
  | post i user namespaces =>
    cases hr : s.requests i with
    | idle =>
      simp only [Server.step, hr] at ht
      obtain rfl := Option.some.inj ht
      exact .moved _ i _ (by rw [hr]; rfl) rfl (hnone rfl)
    | _ => simp [Server.step, hr] at ht
  | get i user =>
    cases hr : s.requests i with
    | idle =>
      simp only [Server.step, hr] at ht
      split_ifs at ht <;>
      · obtain rfl := Option.some.inj ht
        exact .moved _ i _ (by rw [hr]; rfl) rfl (hnone rfl)
    | _ => simp [Server.step, hr] at ht
  | source i saved picks =>
    cases hr : s.requests i with
    | absent k =>
      simp only [Server.step, hr] at ht
      cases picks with
      | none =>
        obtain rfl := Option.some.inj ht
        exact .moved _ i _ (by rw [hr]; rfl) rfl (hnone rfl)
      | some picks =>
        dsimp only at ht
        split_ifs at ht <;>
        · obtain rfl := Option.some.inj ht
          exact .moved _ i _ (by rw [hr]; rfl) rfl (hnone rfl)
    | _ => simp [Server.step, hr] at ht
  | existing i namespaces =>
    cases hr : s.requests i with
    | snapshot k picks =>
      simp only [Server.step, hr] at ht
      obtain rfl := Option.some.inj ht
      exact mutate_moves _ i (prune_trims picks namespaces) (by rw [hr]; rfl)
    | _ => simp [Server.step, hr] at ht
  | allowed i failed namespaces =>
    cases hr : s.requests i with
    | pruned k actives =>
      simp only [Server.step, hr] at ht
      split_ifs at ht
      · obtain rfl := Option.some.inj ht
        exact .moved _ i _ (by rw [hr]; rfl) rfl (hnone rfl)
      · obtain rfl := Option.some.inj ht
        exact mutate_moves _ i (intersect_trims actives namespaces) (by rw [hr]; rfl)
    | _ => simp [Server.step, hr] at ht
  | next i => exact next_moves ht

end Moves

section Lock

variable {s t : Server} {a : Act} {i j : ℕ} {r : Request} {k : Key}

theorem set_request_other (hj : j ≠ i) : (s.setRequest i r).requests j = s.requests j := by
  simp only [Server.setRequest, Function.update_of_ne hj]

theorem set_request_self : (s.setRequest i r).requests i = r := by
  simp only [Server.setRequest, Function.update_self]

theorem set_request_writing (hr : r.writing = none)
    (hk : ((s.setRequest i r).requests j).writing = some k) :
    (s.requests j).writing = some k := by
  by_cases hj : j = i
  · subst hj
    rw [set_request_self, hr] at hk
    cases hk
  · rwa [set_request_other hj] at hk

/-- Only the holder of the lock was writing, and it has let go. -/
theorem unlock_quiet (hl : Locked s) (hi : (s.requests i).writing = some k) {u : Server}
    (hu : u.requests = s.requests) (hr : r.writing = none) (j : ℕ) :
    ((u.unlock i r).requests j).writing = none := by
  cases hw : ((u.unlock i r).requests j).writing with
  | none => rfl
  | some k' =>
    have hj : (s.requests j).writing = some k' := by
      rw [← hu]
      exact set_request_writing hr hw
    have hji : j = i := Option.some.inj ((hl j k' hj).symm.trans (hl i k hi))
    subst hji
    rw [show (u.unlock j r).requests j = r from set_request_self, hr] at hw
    cases hw

/-- A seed marks its key, and stores its picks where none are stored. -/
theorem seed_cases (s : Server) (k : Key) (picks : List String) (checked : String) :
    s.seedPick k picks checked = s ∧ s.seededPicks k = true ∨
    s.seedPick k picks checked =
      { s with seededPicks := Function.update s.seededPicks k true } ∨
    s.seededPicks k = false ∧ s.nsPreferences k = none ∧ s.seedPick k picks checked =
      { s with
        seededPicks := Function.update s.seededPicks k true
        nsPreferences := Function.update s.nsPreferences k (some picks)
        writes := .seed k picks checked::s.writes } := by
  unfold Server.seedPick
  by_cases hk : s.seededPicks k = true
  · rw [if_pos hk]
    exact .inl ⟨rfl,hk⟩
  · rw [if_neg hk]
    by_cases hp : (s.nsPreferences k).isSome = true
    · exact .inr (.inl (if_pos hp))
    · exact .inr (.inr ⟨Bool.eq_false_iff.mpr hk,Option.not_isSome_iff_eq_none.mp hp,if_neg hp⟩)

/-- What a write under `k` leaves alone. -/
structure Touches (k : Key) (s t : Server) : Prop where
  context : t.context = s.context
  recent : t.recent = s.recent
  requests : t.requests = s.requests
  picks : ∀ k', k' ≠ k → t.nsPreferences k' = s.nsPreferences k'
  seeded : ∀ k', k' ≠ k → t.seededPicks k' = s.seededPicks k'

theorem set_touches (k : Key) (namespaces : List String) (checked : String) :
    Touches k s (s.setActiveNamespaceForUser k namespaces checked) :=
  ⟨rfl,rfl,rfl,fun _ h => Function.update_of_ne h _ _,fun _ h => Function.update_of_ne h _ _⟩

theorem seed_touches (k : Key) (picks : List String) (checked : String) :
    Touches k s (s.seedPick k picks checked) := by
  obtain ⟨h,-⟩ | h | ⟨-,-,h⟩ := seed_cases s k picks checked
  · rw [h]
    exact ⟨rfl,rfl,rfl,fun _ _ => rfl,fun _ _ => rfl⟩
  · rw [h]
    exact ⟨rfl,rfl,rfl,fun _ _ => rfl,fun _ h => Function.update_of_ne h _ _⟩
  · rw [h]
    exact ⟨rfl,rfl,rfl,fun _ h => Function.update_of_ne h _ _,fun _ h => Function.update_of_ne h _ _⟩

theorem commit_touches (m : Mutation) : Touches m.key s (s.commitPickMutation m) := by
  unfold Server.commitPickMutation
  split_ifs
  · exact ⟨rfl,rfl,rfl,fun _ _ => rfl,fun _ _ => rfl⟩
  · exact ⟨rfl,rfl,rfl,fun _ h => Function.update_of_ne h _ _,fun _ _ => rfl⟩

theorem moves_locked (hl : Locked s) (hm : Moves s a t) : Locked t := by
  cases hm with
  | switched name => exact hl
  | cleared free => exact hl
  | moved a i r before after trims =>
    intro j k hk
    exact hl j k (set_request_writing after hk)
  | locked i r k free writing active same checked =>
    intro j k' hk
    by_cases hj : j = i
    · rw [hj]
      rfl
    · have hold : (s.requests j).writing = some k' := by
        rwa [show (s.lock i r).requests j = s.requests j from set_request_other hj] at hk
      cases free.symm.trans (hl j k' hold)
  | explicit i k namespaces checked request =>
    intro j k' hk
    cases (unlock_quiet hl (by rw [request]; rfl) rfl rfl j).symm.trans hk
  | seeds i k picks checked request =>
    intro j k' hk
    cases (unlock_quiet hl (by rw [request]; rfl) (seed_touches k picks checked).requests rfl j).symm.trans hk
  | commits i m request =>
    intro j k' hk
    cases (unlock_quiet hl (by rw [request]; rfl) (commit_touches m).requests
      (afterMutation_quiet m).1 j).symm.trans hk

end Lock

section Recent

variable {s t : Server} {a : Act}

structure RecentInv (s : Server) : Prop where
  locked : Locked s
  active : s.context ∈ s.recent
  entries : EntriesRecent s
  writing : ∀ i k, (s.requests i).writing = some k → k.context ∈ s.recent

theorem touches_recent {k : Key} (h : EntriesRecent s) (hk : k.context ∈ s.recent)
    (ht : Touches k s t) : EntriesRecent t := by
  intro k' hk'
  rw [ht.recent]
  by_cases hkk : k' = k
  · exact hkk ▸ hk
  · rw [ht.picks k' hkk, ht.seeded k' hkk] at hk'
    exact h k' hk'

/-- A write by the holder of the lock, which is then let go. -/
theorem unlock_recent (h : RecentInv s) {i : ℕ} {k : Key} {r : Request}
    (hi : (s.requests i).writing = some k) (ht : Touches k s t) (hr : r.writing = none)
    (hl : Locked (t.unlock i r)) : RecentInv (t.unlock i r) where
  locked := hl
  active := by
    show t.context ∈ t.recent
    rw [ht.context, ht.recent]
    exact h.active
  entries := fun k' => touches_recent h.entries (h.writing i k hi) ht k'
  writing j k' hk := by cases (unlock_quiet h.locked hi ht.requests hr j).symm.trans hk

theorem moves_recent (h : RecentInv s) (hm : Moves s a t) : RecentInv t := by
  have hl := moves_locked h.locked hm
  cases hm with
  | switched name =>
    exact ⟨hl,List.mem_cons_self,fun k hk => List.mem_cons_of_mem _ (h.entries k hk),
      fun i k hk => List.mem_cons_of_mem _ (h.writing i k hk)⟩
  | cleared free =>
    refine ⟨hl,List.mem_singleton_self _,fun k hk => by simp [Server.clearAllNamespacePreferences] at hk,?_⟩
    intro i k hk
    cases free.symm.trans (h.locked i k hk)
  | moved a i r before after trims =>
    exact ⟨hl,h.active,h.entries,fun j k hk => h.writing j k (set_request_writing after hk)⟩
  | locked i r k free writing active same checked =>
    refine ⟨hl,h.active,h.entries,fun j k' hk => ?_⟩
    obtain rfl : i = j := Option.some.inj (hl j k' hk)
    rw [show (s.lock i r).requests i = r from set_request_self, writing] at hk
    obtain rfl := Option.some.inj hk
    rw [active]
    exact h.active
  | explicit i k namespaces checked request =>
    exact unlock_recent h (by rw [request]; rfl) (set_touches k namespaces checked) rfl hl
  | seeds i k picks checked request =>
    exact unlock_recent h (by rw [request]; rfl) (seed_touches k picks checked) rfl hl
  | commits i m request =>
    exact unlock_recent h (by rw [request]; rfl) (commit_touches m) (afterMutation_quiet m).1 hl

end Recent

section Choice

variable {s t : Server} {a : Act}

structure ChoiceInv (s : Server) : Prop where
  locked : Locked s
  kept : Kept s.writes
  active : ∀ k p, k.context = s.context → chosen k s.writes = some p →
    s.nsPreferences k = pick p ∧ s.seededPicks k = true
  /-- A request may still write for the context left by the last switch, before any choice. -/
  writing : ∀ i k, (s.requests i).writing = some k →
    k.context = s.context ∨ ∀ k', chosen k' s.writes = none
  trims : ∀ i m, (s.requests i).mutating = some m → m.Trims

theorem pick_getD (p : List String) : (pick p).getD [] = p := by
  unfold pick
  split_ifs with hp
  · exact hp.symm
  · rfl

/-- Also under the key a request is about to write, the choice is what is stored. -/
theorem ChoiceInv.stored (h : ChoiceInv s) {i : ℕ} {k : Key} {p : List String}
    (hi : (s.requests i).writing = some k) (hp : chosen k s.writes = some p) :
    s.nsPreferences k = pick p ∧ s.seededPicks k = true := by
  obtain hk | hnone := h.writing i k hi
  · exact h.active k p hk hp
  · cases (hnone k).symm.trans hp

theorem unlock_trims {i : ℕ} {r : Request} (h : ∀ j m, (s.requests j).mutating = some m → m.Trims)
    (ht : t.requests = s.requests) (hr : r.mutating = none) (j : ℕ) (m : Mutation)
    (hm : ((t.unlock i r).requests j).mutating = some m) : m.Trims := by
  by_cases hj : j = i
  · subst hj
    rw [show (t.unlock j r).requests j = r from set_request_self, hr] at hm
    cases hm
  · rw [show (t.unlock i r).requests j = t.requests j from set_request_other hj, ht] at hm
    exact h j m hm

theorem explicit_choice (h : ChoiceInv s) {i : ℕ} {k : Key} {namespaces : List String}
    {checked : String} (request : s.requests i = .setting k namespaces checked)
    (hl : Locked ((s.setActiveNamespaceForUser k namespaces checked).unlock i .idle)) :
    ChoiceInv ((s.setActiveNamespaceForUser k namespaces checked).unlock i .idle) where
  locked := hl
  kept := h.kept
  active := by
    intro k' p hk' hp
    change chosen k' (.explicit k namespaces checked::s.writes) = some p at hp
    by_cases hkk : k = k'
    · subst hkk
      rw [chosen, if_pos rfl] at hp
      obtain rfl := Option.some.inj hp
      exact ⟨Function.update_self k _ _,Function.update_self k _ _⟩
    · rw [chosen, if_neg hkk] at hp
      obtain ⟨hstored,hseeded⟩ := h.active k' p hk' hp
      exact ⟨(Function.update_of_ne (Ne.symm hkk) _ _).trans hstored,
        (Function.update_of_ne (Ne.symm hkk) _ _).trans hseeded⟩
  writing j k' hk := by cases (unlock_quiet h.locked (by rw [request]; rfl)
    (set_touches k namespaces checked).requests rfl j).symm.trans hk
  trims := unlock_trims h.trims rfl rfl

theorem seed_choice (h : ChoiceInv s) {i : ℕ} {k : Key} {picks : List String} {checked : String}
    (request : s.requests i = .seeding k picks checked)
    (hl : Locked ((s.seedPick k picks checked).unlock i (.seeded k.user))) :
    ChoiceInv ((s.seedPick k picks checked).unlock i (.seeded k.user)) := by
  have hi : (s.requests i).writing = some k := by
    rw [request]
    rfl
  have ht := seed_touches (s := s) k picks checked
  have hunseeded : s.seededPicks k = false → chosen k s.writes = none := by
    intro hseed
    cases hp : chosen k s.writes with
    | none => rfl
    | some p => cases hseed.symm.trans (h.stored hi hp).2
  have hchosen : ∀ k', chosen k' (s.seedPick k picks checked).writes = chosen k' s.writes := by
    intro k'
    obtain ⟨hs,-⟩ | hs | ⟨-,-,hs⟩ := seed_cases s k picks checked <;> rw [hs]
    rfl
  refine ⟨hl,?_,?_,?_,unlock_trims h.trims ht.requests rfl⟩
  · show Kept (s.seedPick k picks checked).writes
    obtain ⟨hs,-⟩ | hs | ⟨hseed,-,hs⟩ := seed_cases s k picks checked <;> rw [hs]
    · exact h.kept
    · exact h.kept
    · exact ⟨hunseeded hseed,h.kept⟩
  · intro k' p hk' hp
    replace hp : chosen k' s.writes = some p := (hchosen k').symm.trans hp
    replace hk' : k'.context = s.context := hk'.trans ht.context
    show (s.seedPick k picks checked).nsPreferences k' = pick p ∧
      (s.seedPick k picks checked).seededPicks k' = true
    by_cases hkk : k' = k
    · subst hkk
      obtain ⟨hs,-⟩ | hs | ⟨hseed,-,-⟩ := seed_cases s k' picks checked
      · rw [hs]
        exact h.active k' p hk' hp
      · rw [hs]
        exact ⟨(h.active k' p hk' hp).1,Function.update_self k' _ _⟩
      · cases (hunseeded hseed).symm.trans hp
    · rw [ht.picks k' hkk, ht.seeded k' hkk]
      exact h.active k' p hk' hp
  · intro j k' hk
    cases (unlock_quiet h.locked hi ht.requests rfl j).symm.trans hk

theorem commit_choice (h : ChoiceInv s) {i : ℕ} {m : Mutation}
    (request : s.requests i = .committing m)
    (hl : Locked ((s.commitPickMutation m).unlock i (Server.afterMutation m))) :
    ChoiceInv ((s.commitPickMutation m).unlock i (Server.afterMutation m)) := by
  have hi : (s.requests i).writing = some m.key := by
    rw [request]
    rfl
  have ht := commit_touches (s := s) m
  refine ⟨hl,?_,?_,?_,unlock_trims h.trims ht.requests (afterMutation_quiet m).2⟩
  · show Kept (s.commitPickMutation m).writes
    unfold Server.commitPickMutation
    split_ifs with hexp
    · exact h.kept
    · refine ⟨⟨?_,h.trims i m (by rw [request]; rfl)⟩,h.kept⟩
      intro p hp
      rw [← not_not.mp hexp, (h.stored hi hp).1, pick_getD]
  · intro k' p hk' hp
    replace hk' : k'.context = s.context := hk'.trans ht.context
    change chosen k' (s.commitPickMutation m).writes = some p at hp
    show (s.commitPickMutation m).nsPreferences k' = pick p ∧
      (s.commitPickMutation m).seededPicks k' = true
    unfold Server.commitPickMutation at hp ⊢
    split_ifs at hp ⊢ with hexp
    · exact h.active k' p hk' hp
    · by_cases hkk : m.key = k'
      · subst hkk
        cases hc : chosen m.key s.writes with
        | none => simp [chosen, hc] at hp
        | some p' =>
          rw [chosen, hc, if_pos ⟨rfl,rfl⟩] at hp
          obtain rfl := Option.some.inj hp
          exact ⟨Function.update_self m.key _ _,(h.active m.key p' hk' hc).2⟩
      · rw [chosen, if_neg (fun hand => hkk hand.1)] at hp
        obtain ⟨hstored,hseeded⟩ := h.active k' p hk' hp
        exact ⟨(Function.update_of_ne (Ne.symm hkk) _ _).trans hstored,hseeded⟩
  · intro j k' hk
    cases (unlock_quiet h.locked hi ht.requests (afterMutation_quiet m).1 j).symm.trans hk

theorem moves_choice (h : ChoiceInv s) (hok : NoChoiceCleared s a) (hm : Moves s a t) :
    ChoiceInv t := by
  have hl := moves_locked h.locked hm
  cases hm with
  | switched name =>
    exact ⟨hl,h.kept,fun k p _ hp => (by cases hp),fun i k _ => .inr fun _ => rfl,h.trims⟩
  | cleared free =>
    refine ⟨hl,h.kept,?_,h.writing,h.trims⟩
    intro k p hk hp
    obtain ⟨user,context⟩ := k
    obtain rfl : context = s.context := hk
    cases (hok user).symm.trans hp
  | moved a i r before after trims =>
    refine ⟨hl,h.kept,h.active,fun j k hk => h.writing j k (set_request_writing after hk),?_⟩
    intro j m hm
    by_cases hj : j = i
    · subst hj
      rw [set_request_self] at hm
      exact trims m hm
    · rw [set_request_other hj] at hm
      exact h.trims j m hm
  | locked i r k free writing active same checked =>
    refine ⟨hl,h.kept,h.active,?_,?_⟩
    · intro j k' hk
      obtain rfl : i = j := Option.some.inj (hl j k' hk)
      rw [show (s.lock i r).requests i = r from set_request_self, writing] at hk
      obtain rfl := Option.some.inj hk
      exact .inl active
    · intro j m hm
      by_cases hj : j = i
      · subst hj
        rw [show (s.lock j r).requests j = r from set_request_self] at hm
        exact h.trims j m (same m hm)
      · rw [show (s.lock i r).requests j = s.requests j from set_request_other hj] at hm
        exact h.trims j m hm
  | explicit i k namespaces checked request => exact explicit_choice h request hl
  | seeds i k picks checked request => exact seed_choice h request hl
  | commits i m request => exact commit_choice h request hl

end Choice

section Checked

variable {s t : Server} {a : Act}

structure CheckedInv (s : Server) : Prop where
  writes : ∀ w ∈ s.writes, w.Checked
  requests : ∀ i, (s.requests i).Checked

theorem quiet_checked {r : Request} (hr : r.writing = none) : r.Checked := by
  cases r with
  | setting k namespaces checked => nomatch hr
  | seeding k picks checked => nomatch hr
  | committing m => nomatch hr
  | _ => trivial

theorem set_request_checked (h : ∀ j, (s.requests j).Checked) {i : ℕ} {r : Request}
    (hr : r.Checked) (j : ℕ) : ((s.setRequest i r).requests j).Checked := by
  by_cases hj : j = i
  · subst hj
    rwa [set_request_self]
  · rw [set_request_other hj]
    exact h j

theorem moves_checked (h : CheckedInv s) (hok : CheckedInContext s a) (hm : Moves s a t) :
    CheckedInv t := by
  cases hm with
  | switched name => exact ⟨List.forall_mem_cons.mpr ⟨trivial,h.writes⟩,h.requests⟩
  | cleared free => exact ⟨h.writes,h.requests⟩
  | moved a i r before after trims =>
    exact ⟨h.writes,set_request_checked h.requests (quiet_checked after)⟩
  | locked i r k free writing active same checked =>
    exact ⟨h.writes,set_request_checked h.requests (checked hok)⟩
  | explicit i k namespaces checked request =>
    have hw : (Request.setting k namespaces checked).Checked := request ▸ h.requests i
    exact ⟨List.forall_mem_cons.mpr ⟨hw,h.writes⟩,set_request_checked h.requests trivial⟩
  | seeds i k picks checked request =>
    have hw : (Request.seeding k picks checked).Checked := request ▸ h.requests i
    constructor
    · show ∀ w ∈ (s.seedPick k picks checked).writes, w.Checked
      obtain ⟨hs,-⟩ | hs | ⟨-,-,hs⟩ := seed_cases s k picks checked <;> rw [hs]
      · exact h.writes
      · exact h.writes
      · exact List.forall_mem_cons.mpr ⟨hw,h.writes⟩
    · refine set_request_checked ?_ trivial
      rw [(seed_touches k picks checked).requests]
      exact h.requests
  | commits i m request =>
    have hw : (Request.committing m).Checked := request ▸ h.requests i
    constructor
    · show ∀ w ∈ (s.commitPickMutation m).writes, w.Checked
      unfold Server.commitPickMutation
      split_ifs
      · exact h.writes
      · exact List.forall_mem_cons.mpr ⟨hw,h.writes⟩
    · refine set_request_checked ?_ (quiet_checked (afterMutation_quiet m).1)
      rw [(commit_touches m).requests]
      exact h.requests

end Checked

theorem fresh_locked (context : String) : Locked {context := context} := fun _ _ h => by cases h

/-- Every run keeps entries to the contexts active since the maps were cleared; user choices are
kept if no choice of the active context is cleared, and picks stay in the context they were checked
against if that context is still active when a request reads it again. -/
theorem picks_safe {context : String} {as : List Act} {s : Server}
    (hr : run Server.step {context := context} as = some s) :
    EntriesRecent s ∧
    (Meets Server.step NoChoiceCleared {context := context} as →
      Kept s.writes ∧ ChoiceStored s) ∧
    (Meets Server.step CheckedInContext {context := context} as → ∀ w ∈ s.writes, w.Checked) := by
  have hl := fresh_locked context
  refine ⟨?_,fun hm => ?_,fun hm => ?_⟩
  · have h0 : RecentInv {context := context} :=
      ⟨hl,List.mem_singleton_self _,fun k hk => by simp at hk,fun _ _ hk => nomatch hk⟩
    exact (run_invariant (fun _ _ _ h ht => moves_recent h (step_moves ht)) h0 hr).entries
  · have h0 : ChoiceInv {context := context} :=
      ⟨hl,trivial,fun _ _ _ hp => (nomatch hp),fun _ _ hk => (nomatch hk),fun _ _ hk => nomatch hk⟩
    have h := meets_invariant (fun _ _ _ h hok ht => moves_choice h hok (step_moves ht)) h0 hm hr
    exact ⟨h.kept,fun user p hp => (h.active ⟨user,s.context⟩ p rfl hp).1⟩
  · have h0 : CheckedInv {context := context} := ⟨fun _ hw => (nomatch hw),fun _ => trivial⟩
    exact (meets_invariant (fun _ _ _ h hok ht => moves_checked h hok (step_moves ht)) h0 hm hr).writes

/-- A pick posted in context A, the steps of the request after it. -/
def posted : List Act := [.post 0 "alice" ["team-a"],.next 0,.next 0]

theorem picks_safe_posted : ∃ s, run Server.step {context := "A"} posted = some s ∧
    EntriesRecent s ∧ (Kept s.writes ∧ ChoiceStored s) ∧ ∀ w ∈ s.writes, w.Checked := by
  have hr : ∃ s, run Server.step {context := "A"} posted = some s := ⟨_,rfl⟩
  obtain ⟨s,hs⟩ := hr
  have hsafe := picks_safe hs
  refine ⟨s,hs,hsafe.1,hsafe.2.1 ?_,hsafe.2.2 ?_⟩
  · exact meets_cons trivial rfl (meets_cons trivial rfl (meets_cons trivial rfl trivial))
  · exact meets_cons trivial rfl (meets_cons (.inr rfl) rfl (meets_cons trivial rfl trivial))

/-- The context is switched between the validation of the pick and the lock. -/
def switchedBetween : List Act :=
  [.post 0 "alice" ["team-a"],.switchContext "B",.next 0,.next 0]

theorem pick_of_the_other_context : ∃ s,
    run Server.step {context := "A"} switchedBetween = some s ∧
      s.nsPreferences ⟨"alice","B"⟩ = some ["team-a"] ∧
      ¬∀ w ∈ s.writes, w.Checked := by
  refine ⟨_,rfl,rfl,fun h => ?_⟩
  obtain h | h := h (.explicit ⟨"alice","B"⟩ ["team-a"] "A") List.mem_cons_self
  · nomatch h
  · exact absurd h (by decide)

end Radar.Scope
