import Mathlib.Data.List.Nodup

/-!
# Grouping in order of arrival

Elements are put into groups by a key. A group remembers what its first
member brought, and lists its members as they came.
-/

set_option autoImplicit false

namespace Radar.Grouping

structure Group (K H α : Type*) where
  key : K
  head : H
  members : List α

section Collect

variable {K H α : Type*} [DecidableEq K] (key : α → K) (head : α → H)

/-- `if m[k] == nil { m[k] = new }; m[k].members = append(m[k].members, x)` -/
def add (gs : List (Group K H α)) (x : α) : List (Group K H α) :=
  match gs with
  | [] => [⟨key x,head x,[x]⟩]
  | g::gs => if g.key = key x then { g with members := g.members++[x] }::gs else g::add gs x

def collect (xs : List α) : List (Group K H α) := xs.foldl (add key head) []

/-- The groups of the elements seen so far. -/
structure Collected (xs : List α) (gs : List (Group K H α)) : Prop where
  nodup : (gs.map Group.key).Nodup
  members : ∀ g ∈ gs, g.members = xs.filter fun x => key x = g.key
  head : ∀ g ∈ gs, ∃ x ∈ xs, key x = g.key ∧ head x = g.head
  cover : ∀ x ∈ xs, ∃ g ∈ gs, g.key = key x

variable {key head}

theorem mem_add_keys {gs : List (Group K H α)} {x : α} {k : K} :
    k ∈ (add key head gs x).map Group.key ↔ k ∈ gs.map Group.key ∨ k = key x := by
  induction gs with
  | nil => simp [add]
  | cons g gs ih =>
    by_cases hg : g.key = key x
    · rw [add, if_pos hg]
      simp only [List.map_cons, List.mem_cons]
      constructor
      · exact .inl
      · rintro (h | h)
        · exact h
        · exact .inl (h.trans hg.symm)
    · rw [add, if_neg hg, List.map_cons, List.mem_cons, ih, List.map_cons, List.mem_cons, or_assoc]

/-- A new key comes last. -/
theorem add_keys (gs : List (Group K H α)) (x : α) : (add key head gs x).map Group.key =
    gs.map Group.key++if key x ∈ gs.map Group.key then [] else [key x] := by
  induction gs with
  | nil => rfl
  | cons g gs ih =>
    by_cases hg : g.key = key x
    · rw [add, if_pos hg, if_pos (by simp [hg])]
      simp
    · rw [add, if_neg hg, List.map_cons, ih, List.map_cons, List.cons_append]
      by_cases hin : key x ∈ gs.map Group.key
      · rw [if_pos hin, if_pos (List.mem_cons_of_mem _ hin)]
      · rw [if_neg hin, if_neg (by simpa [Ne.symm hg] using hin)]

theorem add_nodup {gs : List (Group K H α)} {x : α} (h : (gs.map Group.key).Nodup) :
    ((add key head gs x).map Group.key).Nodup := by
  induction gs with
  | nil => simp [add]
  | cons g gs ih =>
    rw [List.map_cons, List.nodup_cons] at h
    by_cases hg : g.key = key x
    · rw [add, if_pos hg]
      exact List.nodup_cons.mpr h
    · rw [add, if_neg hg, List.map_cons, List.nodup_cons]
      refine ⟨fun hm => ?_,ih h.2⟩
      exact (mem_add_keys.mp hm).elim h.1 hg

/-- A group of the result was there, or has gained the element, or begins with it. -/
theorem mem_add {gs : List (Group K H α)} {x : α} {g : Group K H α} (h : (gs.map Group.key).Nodup)
    (hg : g ∈ add key head gs x) : (g ∈ gs ∧ g.key ≠ key x) ∨
    (∃ g₀ ∈ gs, g₀.key = key x ∧ g = { g₀ with members := g₀.members++[x] }) ∨
    (key x ∉ gs.map Group.key ∧ g = ⟨key x,head x,[x]⟩) := by
  induction gs with
  | nil => exact .inr (.inr ⟨by simp,by simpa [add] using hg⟩)
  | cons g₁ gs ih =>
    rw [List.map_cons, List.nodup_cons] at h
    by_cases h₁ : g₁.key = key x
    · rw [add, if_pos h₁] at hg
      cases List.mem_cons.mp hg with
      | inl heq => exact .inr (.inl ⟨g₁,List.mem_cons_self,h₁,heq⟩)
      | inr hm =>
        refine .inl ⟨List.mem_cons_of_mem g₁ hm,fun hk => h.1 ?_⟩
        rw [h₁, ← hk]
        exact List.mem_map_of_mem hm
    · rw [add, if_neg h₁] at hg
      cases List.mem_cons.mp hg with
      | inl heq => exact .inl ⟨heq ▸ List.mem_cons_self,heq ▸ h₁⟩
      | inr hm =>
        obtain hold | hgain | hnew := ih h.2 hm
        · exact .inl ⟨List.mem_cons_of_mem g₁ hold.1,hold.2⟩
        · obtain ⟨g₀,hg₀,hk,heq⟩ := hgain
          exact .inr (.inl ⟨g₀,List.mem_cons_of_mem g₁ hg₀,hk,heq⟩)
        · refine .inr (.inr ⟨fun hk => ?_,hnew.2⟩)
          cases List.mem_cons.mp hk with
          | inl heq => exact h₁ heq.symm
          | inr hk => exact hnew.1 hk

theorem Collected.add {xs : List α} {gs : List (Group K H α)} (h : Collected key head xs gs)
    (x : α) : Collected key head (xs++[x]) (add key head gs x) where
  nodup := add_nodup h.nodup
  members g hg := by
    rw [List.filter_append, List.filter_singleton]
    obtain ⟨hold,hne⟩ | ⟨g₀,hg₀,hk,rfl⟩ | ⟨hnew,rfl⟩ := mem_add h.nodup hg
    · simp [h.members g hold, Ne.symm hne]
    · simp [h.members g₀ hg₀, hk]
    · have hnone : xs.filter (fun y => decide (key y = key x)) = [] := by
        rw [List.filter_eq_nil_iff]
        intro y hy hk
        obtain ⟨g,hg,hgk⟩ := h.cover y hy
        exact hnew (of_decide_eq_true hk ▸ hgk ▸ List.mem_map_of_mem hg)
      simp [hnone]
  head g hg := by
    obtain ⟨hold,-⟩ | ⟨g₀,hg₀,hk,rfl⟩ | ⟨-,rfl⟩ := mem_add h.nodup hg
    · obtain ⟨y,hy,hhead⟩ := h.head g hold
      exact ⟨y,List.mem_append_left _ hy,hhead⟩
    · obtain ⟨y,hy,hhead⟩ := h.head g₀ hg₀
      exact ⟨y,List.mem_append_left _ hy,hhead⟩
    · exact ⟨x,by simp,rfl,rfl⟩
  cover y hy := by
    have hkey : key y ∈ (Grouping.add key head gs x).map Group.key := by
      rw [mem_add_keys]
      cases List.mem_append.mp hy with
      | inl hy =>
        obtain ⟨g,hg,hgk⟩ := h.cover y hy
        exact .inl (hgk ▸ List.mem_map_of_mem hg)
      | inr hy => exact .inr (congrArg key (List.mem_singleton.mp hy))
    obtain ⟨g,hg,hgk⟩ := List.mem_map.mp hkey
    exact ⟨g,hg,hgk⟩

theorem foldl_collected {xs ys : List α} {gs : List (Group K H α)}
    (h : Collected key head xs gs) : Collected key head (xs++ys) (ys.foldl (add key head) gs) := by
  induction ys generalizing xs gs with
  | nil => simpa using h
  | cons y ys ih => simpa using ih (h.add y)

variable (key head) in
theorem collect_collected (xs : List α) : Collected key head xs (collect key head xs) := by
  have hnil : Collected key head [] [] :=
    ⟨List.nodup_nil,by simp,by simp,by simp⟩
  have hall : Collected key head ([]++xs) (collect key head xs) := foldl_collected hnil
  exact hall

/-- The groups in any order. -/
theorem Collected.perm {xs : List α} {gs gs' : List (Group K H α)}
    (h : Collected key head xs gs) (hp : gs'.Perm gs) : Collected key head xs gs' where
  nodup := (hp.map Group.key).nodup_iff.mpr h.nodup
  members g hg := h.members g (hp.mem_iff.mp hg)
  head g hg := h.head g (hp.mem_iff.mp hg)
  cover x hx := by
    obtain ⟨g,hg,hk⟩ := h.cover x hx
    exact ⟨g,hp.mem_iff.mpr hg,hk⟩

end Collect

section Lookup

/-- In an association list without repeated keys a lookup finds the entries. -/
theorem lookup_eq_some_iff {K V : Type*} [BEq K] [LawfulBEq K] {m : List (K × V)}
    (h : (m.map Prod.fst).Nodup) {k : K} {v : V} : m.lookup k = some v ↔ (k,v) ∈ m := by
  rw [List.lookup_eq_some_iff]
  constructor
  · rintro ⟨before,after,rfl,_⟩
    exact List.mem_append_right before List.mem_cons_self
  · intro hin
    obtain ⟨before,after,rfl⟩ := List.append_of_mem hin
    refine ⟨before,after,rfl,fun p hp => ?_⟩
    rw [List.map_append, List.nodup_append] at h
    have hne := h.2.2 p.1 (List.mem_map_of_mem hp) k (by simp)
    simpa using Ne.symm hne

end Lookup

section Select

variable {α β : Type*} {l : List α} {f : α → List β} {q : β → Bool}

/-- Where only one element puts out what is asked for, nothing else is selected. -/
theorem filter_flatMap_one (hn : l.Nodup) {a : α} (ha : a ∈ l)
    (hq : ∀ b ∈ l, b ≠ a → (f b).filter q = []) : (l.flatMap f).filter q = (f a).filter q := by
  induction l with
  | nil => cases ha
  | cons b l ih =>
    rw [List.nodup_cons] at hn
    rw [List.flatMap_cons, List.filter_append]
    cases List.mem_cons.mp ha with
    | inl heq =>
      have hrest : (l.flatMap f).filter q = [] := by
        rw [List.filter_eq_nil_iff]
        intro x hx
        obtain ⟨c,hc,hxc⟩ := List.mem_flatMap.mp hx
        have hnone := hq c (List.mem_cons_of_mem b hc) fun hca => hn.1 (heq ▸ hca ▸ hc)
        exact List.filter_eq_nil_iff.mp hnone x hxc
      rw [hrest, List.append_nil, heq]
    | inr hm =>
      have hb := hq b List.mem_cons_self fun hba => hn.1 (hba ▸ hm)
      rw [hb, List.nil_append]
      exact ih hn.2 hm fun c hc => hq c (List.mem_cons_of_mem b hc)

end Select

end Radar.Grouping
