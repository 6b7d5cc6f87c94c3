import Mathlib.Data.Finset.Card
import Mathlib.Data.Finset.Range
import Mathlib.Logic.Function.Basic
import Mathlib.Logic.Function.Iterate

/-!
# Union-find with path compression

Every element has a parent, and a root is its own parent. Where the parents
form a forest, compressing a path keeps every root, and linking one root to
another one joins two trees. Compression and linking both move parents up, so
no order of the elements decreases along a path; that a climb ends is part of
what is kept.
-/

set_option autoImplicit false

namespace Radar.UnionFind

/-- The climb from `i` takes `n` steps to the root `r`. -/
inductive Climb (parent : ℕ → ℕ) : ℕ → ℕ → ℕ → Prop
  | root {r : ℕ} (h : parent r = r) : Climb parent 0 r r
  | up {n i r : ℕ} (hne : parent i ≠ i) (h : Climb parent n (parent i) r) : Climb parent (n+1) i r

def Root (parent : ℕ → ℕ) (i r : ℕ) : Prop := ∃ n, Climb parent n i r

def Same (parent : ℕ → ℕ) (i j : ℕ) : Prop := ∃ r, Root parent i r ∧ Root parent j r

/-- Every climb ends, and no climb leaves the elements below `n`. -/
structure Forest (n : ℕ) (parent : ℕ → ℕ) : Prop where
  rooted : ∀ i, ∃ r, Root parent i r
  closed : ∀ i, i < n → parent i < n

/-- `parent[i] = find(parent[i])` on the way back. None if the fuel runs out. -/
def find : ℕ → (ℕ → ℕ) → ℕ → Option (ℕ × (ℕ → ℕ))
  | 0, _, _ => none
  | fuel+1, parent, i =>
    if parent i ≠ i then
      match find fuel parent (parent i) with
      | none => none
      | some (r,parent) =>
        let parent := Function.update parent i r
        some (parent i,parent)
    else some (parent i,parent)

section Climbs

variable {parent : ℕ → ℕ} {n m i j r s : ℕ}

theorem Climb.root_fixed (h : Climb parent n i r) : parent r = r := by
  induction h with
  | root h => exact h
  | up _ _ ih => exact ih

theorem Climb.unique (h : Climb parent n i r) (h' : Climb parent m i s) : n = m ∧ r = s := by
  induction h generalizing m with
  | root hr =>
    cases h' with
    | root => exact ⟨rfl,rfl⟩
    | up hne => exact absurd hr hne
  | up hne _ ih =>
    cases h' with
    | root hr => exact absurd hr hne
    | up _ h' =>
      obtain ⟨rfl,rfl⟩ := ih h'
      exact ⟨rfl,rfl⟩

/-- Part of the way up, the rest of the climb is left. -/
theorem Climb.rest (h : Climb parent n i r) {k : ℕ} (hk : k ≤ n) :
    Climb parent (n-k) (parent^[k] i) r := by
  induction k generalizing n i with
  | zero => exact h
  | succ k ih =>
    cases h with
    | root => omega
    | @up m _ _ hne h =>
      have hrest := ih h (by omega)
      rw [Function.iterate_succ_apply]
      rwa [show m+1-(k+1) = m-k by omega]

theorem iterate_lt (hclosed : ∀ i, i < m → parent i < m) (hi : i < m) (k : ℕ) :
    parent^[k] i < m := by
  induction k with
  | zero => exact hi
  | succ k ih =>
    rw [Function.iterate_succ_apply']
    exact hclosed _ ih

/-- A climb does not come to an element twice, so it is shorter than the elements are many. -/
theorem Climb.lt (h : Climb parent n i r) (hclosed : ∀ i, i < m → parent i < m) (hi : i < m) :
    n < m := by
  have hinj : Set.InjOn (fun k => parent^[k] i) (Finset.range (n+1)) := by
    intro a ha b hb heq
    have ha : a ≤ n := by simpa [Nat.lt_succ_iff] using ha
    have hb : b ≤ n := by simpa [Nat.lt_succ_iff] using hb
    have heq : parent^[a] i = parent^[b] i := heq
    have hrest := h.rest hb
    rw [← heq] at hrest
    have hsteps := ((h.rest ha).unique hrest).1
    omega
  have hmaps : ∀ k ∈ Finset.range (n+1), (fun k => parent^[k] i) k ∈ Finset.range m := fun k _ =>
    Finset.mem_range.mpr (iterate_lt hclosed hi k)
  have hcard := Finset.card_le_card_of_injOn _ hmaps hinj
  rw [Finset.card_range, Finset.card_range] at hcard
  exact hcard

theorem Root.unique (h : Root parent i r) (h' : Root parent i s) : r = s := by
  obtain ⟨n,hn⟩ := h
  obtain ⟨m,hm⟩ := h'
  exact (hn.unique hm).2

theorem Root.fixed (h : Root parent i r) : parent r = r := by
  obtain ⟨n,hn⟩ := h
  exact hn.root_fixed

theorem Root.self (h : parent r = r) : Root parent r r := ⟨0,.root h⟩

theorem Root.up (hne : parent i ≠ i) (h : Root parent (parent i) r) : Root parent i r := by
  obtain ⟨n,hn⟩ := h
  exact ⟨n+1,.up hne hn⟩

theorem Root.lt (h : Root parent i r) (hclosed : ∀ i, i < m → parent i < m) (hi : i < m) :
    r < m := by
  obtain ⟨n,hn⟩ := h
  induction hn with
  | root => exact hi
  | up _ _ ih => exact ih (hclosed _ hi)

end Climbs

section Changes

variable {parent next : ℕ → ℕ} {n i j r s : ℕ}

/-- Every root is kept. -/
def Keeps (parent next : ℕ → ℕ) : Prop := ∀ i r, Root parent i r → Root next i r

theorem Keeps.trans {last : ℕ → ℕ} (h : Keeps parent next) (h' : Keeps next last) :
    Keeps parent last := fun i r hr => h' i r (h i r hr)

theorem Keeps.same (h : Keeps parent next) (hp : Forest n parent) :
    Same next i j ↔ Same parent i j := by
  constructor
  · rintro ⟨r,hi,hj⟩
    obtain ⟨a,ha⟩ := hp.rooted i
    obtain ⟨b,hb⟩ := hp.rooted j
    obtain rfl := (h i a ha).unique hi
    obtain rfl := (h j b hb).unique hj
    exact ⟨_,ha,hb⟩
  · rintro ⟨r,hi,hj⟩
    exact ⟨r,h i r hi,h j r hj⟩

theorem Same.symm (h : Same parent i j) : Same parent j i := by
  obtain ⟨r,hi,hj⟩ := h
  exact ⟨r,hj,hi⟩

theorem Same.trans {k : ℕ} (h : Same parent i j) (h' : Same parent j k) : Same parent i k := by
  obtain ⟨r,hi,hj⟩ := h
  obtain ⟨s,hj',hk⟩ := h'
  obtain rfl := hj.unique hj'
  exact ⟨_,hi,hk⟩

/-- An element may point straight at its root. -/
theorem compress_keeps (h : Root parent i r) : Keeps parent (Function.update parent i r) := by
  rintro j s ⟨n,hn⟩
  induction hn with
  | @root s hs =>
    by_cases hsi : s = i
    · subst hsi
      obtain rfl := h.unique (Root.self hs)
      exact Root.self (Function.update_self ..)
    · exact Root.self (by rw [Function.update_of_ne hsi, hs])
  | @up n j s hne hn ih =>
    by_cases hji : j = i
    · subst hji
      obtain rfl := h.unique ⟨n+1,.up hne hn⟩
      have hfixed := h.fixed
      have hrj : r ≠ j := by
        rintro rfl
        exact hne hfixed
      refine Root.up (by rwa [Function.update_self]) ?_
      rw [Function.update_self]
      exact Root.self (by rw [Function.update_of_ne hrj, hfixed])
    · have hsame : Function.update parent i r j = parent j := Function.update_of_ne hji ..
      exact Root.up (by rwa [hsame]) (by rwa [hsame])

theorem compress_forest (h : Forest n parent) (hr : Root parent i r) (hi : i < n) :
    Forest n (Function.update parent i r) where
  rooted j := by
    obtain ⟨s,hs⟩ := h.rooted j
    exact ⟨s,compress_keeps hr j s hs⟩
  closed j hj := by
    by_cases hji : j = i
    · rw [hji, Function.update_self]
      exact hr.lt h.closed hi
    · rw [Function.update_of_ne hji]
      exact h.closed j hj

/-- With enough fuel `find` returns the root, and keeps every root. -/
theorem find_spec (h : Forest n parent) (hi : i < n) {fuel : ℕ} (hfuel : n ≤ fuel) :
    ∃ r next, find fuel parent i = some (r,next) ∧ Root parent i r ∧ Forest n next ∧
      Keeps parent next := by
  have hclimb : ∀ {k i r fuel}, Climb parent k i r → i < n → k < fuel →
      ∃ next, find fuel parent i = some (r,next) ∧ Forest n next ∧ Keeps parent next := by
    intro k i r fuel hk
    induction hk generalizing fuel with
    | @root r hr =>
      intro _ hlt
      obtain ⟨fuel,rfl⟩ := Nat.exists_eq_succ_of_ne_zero (Nat.ne_of_gt hlt)
      exact ⟨parent,by simp [find, hr],h,fun _ _ hroot => hroot⟩
    | @up k i r hne hk ih =>
      intro hi hlt
      obtain ⟨fuel,rfl⟩ := Nat.exists_eq_succ_of_ne_zero (Nat.ne_zero_of_lt hlt)
      obtain ⟨next,hnext,hforest,hkeeps⟩ := ih (h.closed i hi) (Nat.lt_of_succ_lt_succ hlt)
      have hroot : Root next i r := hkeeps i r ⟨k+1,.up hne hk⟩
      refine ⟨Function.update next i r,?_,compress_forest hforest hroot hi,
        hkeeps.trans (compress_keeps hroot)⟩
      simp [find, hne, hnext]
  obtain ⟨r,k,hk⟩ := h.rooted i
  have hlt := hk.lt h.closed hi
  obtain ⟨next,hfind,hforest,hkeeps⟩ := hclimb hk hi (Nat.lt_of_lt_of_le hlt hfuel)
  exact ⟨r,next,hfind,⟨k,hk⟩,hforest,hkeeps⟩

/-- One root is linked to another one: the elements of its tree go along. -/
theorem link_root (hr : parent r = r) (hs : parent s = s) {a : ℕ} (h : Root parent i a) :
    Root (Function.update parent r s) i (if a = r then s else a) := by
  by_cases hrs : r = s
  · subst hrs
    have hsame : Function.update parent r r = parent := by
      conv_lhs => rw [← hr]
      rw [hr]
      exact Function.update_eq_self_iff.mpr hr.symm
    rw [hsame]
    by_cases ha : a = r
    · rwa [if_pos ha, ← ha]
    · rwa [if_neg ha]
  · have hnew : Root (Function.update parent r s) s s :=
      Root.self (by rw [Function.update_of_ne (Ne.symm hrs), hs])
    obtain ⟨n,hn⟩ := h
    induction hn with
    | @root a ha =>
      by_cases har : a = r
      · rw [if_pos har]
        refine Root.up ?_ ?_
        · rw [har, Function.update_self]
          exact Ne.symm hrs
        · rwa [har, Function.update_self]
      · rw [if_neg har]
        exact Root.self (by rw [Function.update_of_ne har, ha])
    | @up n i a hne hn ih =>
      have hir : i ≠ r := by
        rintro rfl
        exact hne hr
      have hsame : Function.update parent r s i = parent i := Function.update_of_ne hir ..
      exact Root.up (by rwa [hsame]) (by rwa [hsame])

theorem link_forest (h : Forest n parent) (hr : parent r = r) (hs : parent s = s) (hsn : s < n) :
    Forest n (Function.update parent r s) where
  rooted i := by
    obtain ⟨a,ha⟩ := h.rooted i
    exact ⟨_,link_root hr hs ha⟩
  closed i hi := by
    by_cases hir : i = r
    · rwa [hir, Function.update_self]
    · rw [Function.update_of_ne hir]
      exact h.closed i hi

/-- Elements are together after a link if they were before it, or were with the two roots. -/
theorem link_same (h : Forest n parent) (hr : parent r = r) (hs : parent s = s) :
    Same (Function.update parent r s) i j ↔
      Same parent i j ∨ (Root parent i r ∧ Root parent j s) ∨
        (Root parent i s ∧ Root parent j r) := by
  obtain ⟨a,ha⟩ := h.rooted i
  obtain ⟨b,hb⟩ := h.rooted j
  have hi := link_root hr hs ha
  have hj := link_root hr hs hb
  constructor
  · rintro ⟨c,hci,hcj⟩
    have heq : (if a = r then s else a) = if b = r then s else b :=
      (hi.unique hci).trans (hj.unique hcj).symm
    by_cases har : a = r <;> by_cases hbr : b = r
    · exact .inl ⟨r,har ▸ ha,hbr ▸ hb⟩
    · rw [if_pos har, if_neg hbr] at heq
      exact .inr (.inl ⟨har ▸ ha,heq ▸ hb⟩)
    · rw [if_neg har, if_pos hbr] at heq
      exact .inr (.inr ⟨heq ▸ ha,hbr ▸ hb⟩)
    · rw [if_neg har, if_neg hbr] at heq
      exact .inl ⟨a,ha,heq ▸ hb⟩
  · have hall : (if a = r then s else a) = (if b = r then s else b) →
        Same (Function.update parent r s) i j := fun heq => ⟨_,hi,heq ▸ hj⟩
    rintro (⟨c,hci,hcj⟩ | ⟨hir,hjs⟩ | ⟨his,hjr⟩)
    · apply hall
      rw [ha.unique hci, hb.unique hcj]
    · apply hall
      rw [if_pos (ha.unique hir), hb.unique hjs]
      split <;> rfl
    · apply hall
      rw [if_pos (hb.unique hjr), ha.unique his]
      split <;> rfl

theorem id_forest (n : ℕ) : Forest n fun i => i :=
  ⟨fun i => ⟨i,Root.self rfl⟩,fun _ hi => hi⟩

theorem same_id : Same (fun i => i) i j ↔ i = j := by
  constructor
  · rintro ⟨r,hi,hj⟩
    exact (hi.unique (Root.self rfl)).symm.trans (hj.unique (Root.self rfl))
  · rintro rfl
    exact ⟨i,Root.self rfl,Root.self rfl⟩

end Changes

end Radar.UnionFind
