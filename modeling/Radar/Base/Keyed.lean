import Mathlib.Data.List.AList
import Mathlib.Logic.Function.Basic

/-!
# One fold a key

A pass over a list that updates a table under the key of each element leaves at
every key the fold over the elements of that key, and a pass that keeps what it
reads of each element reads one thing alone where one element alone is read. A
loop over a map that writes under the key it visits leaves at every key what
its one turn there does.
-/

set_option autoImplicit false

namespace Radar.Keyed

variable {α β γ κ : Type*}

theorem filterMap_eq_singleton_iff {f : α → Option β} {xs : List α} {b : β} :
    xs.filterMap f = [b] ↔
      ∃ (i : ℕ) (x : α), xs[i]? = some x ∧ f x = some b ∧
        ∀ (j : ℕ) (y : α), xs[j]? = some y → f y ≠ none → j = i := by
  rw [List.filterMap_eq_cons_iff]
  constructor
  · rintro ⟨before,x,after,rfl,hbefore,hx,hafter⟩
    refine ⟨before.length,x,by simp,hx,fun j y hj hy => ?_⟩
    rw [List.filterMap_eq_nil_iff] at hafter
    rcases Nat.lt_trichotomy j before.length with hlt | heq | hgt
    · rw [List.getElem?_append_left hlt] at hj
      exact absurd (hbefore y (List.mem_of_getElem? hj)) hy
    · exact heq
    · obtain ⟨k,rfl⟩ := Nat.exists_eq_add_of_lt hgt
      rw [List.getElem?_append_right (by omega)] at hj
      have hk : before.length+k+1-before.length = k+1 := by omega
      rw [hk, List.getElem?_cons_succ] at hj
      exact absurd (hafter y (List.mem_of_getElem? hj)) hy
  · rintro ⟨i,x,hi,hx,halone⟩
    obtain ⟨hlt,hget⟩ := List.getElem?_eq_some_iff.mp hi
    have hsplit : xs = xs.take i++x::xs.drop (i+1) := by
      rw [← hget, List.getElem_cons_drop, List.take_append_drop]
    refine ⟨xs.take i,x,xs.drop (i+1),hsplit,fun y hy => ?_,hx,?_⟩
    · by_contra hne
      obtain ⟨j,hj⟩ := List.mem_iff_getElem?.mp hy
      have hjlt := (List.getElem?_eq_some_iff.mp hj).1
      rw [List.length_take] at hjlt
      rw [List.getElem?_take_of_lt (by omega)] at hj
      have := halone j y hj hne
      omega
    · rw [List.filterMap_eq_nil_iff]
      intro y hy
      by_contra hne
      obtain ⟨j,hj⟩ := List.mem_iff_getElem?.mp hy
      rw [List.getElem?_drop] at hj
      have := halone (i+1+j) y hj hne
      omega

section Owned

variable {σ : Type*} {f : σ → α → σ} {key : α → κ} {view : σ → κ → β}

/-- Elements that leave every key but their own leave a key that is none of theirs. -/
theorem foldl_untouched (hother : ∀ s x k, k ≠ key x → view (f s x) k = view s k) {xs : List α}
    {k : κ} (hk : k ∉ xs.map key) (s : σ) : view (xs.foldl f s) k = view s k := by
  induction xs generalizing s with
  | nil => rfl
  | cons x xs ih =>
    rw [List.map_cons, List.mem_cons, not_or] at hk
    rw [List.foldl_cons, ih hk.2, hother s x k hk.1]

/-- Of elements with keys of their own each one alone has a say at its key. -/
theorem foldl_touched (hother : ∀ s x k, k ≠ key x → view (f s x) k = view s k)
    (hown : ∀ s t x, view s (key x) = view t (key x) → view (f s x) (key x) = view (f t x) (key x))
    {xs : List α} {x : α} (hx : x ∈ xs) (hnodup : (xs.map key).Nodup) (s : σ) :
    view (xs.foldl f s) (key x) = view (f s x) (key x) := by
  obtain ⟨before,after,rfl⟩ := List.append_of_mem hx
  rw [List.map_append, List.map_cons, List.perm_middle.nodup_iff, List.nodup_cons, List.mem_append,
    not_or] at hnodup
  rw [List.foldl_append, List.foldl_cons, foldl_untouched hother hnodup.1.2]
  exact hown _ _ x (foldl_untouched hother hnodup.1.1 s)

variable [DecidableEq κ]

theorem find?_key_eq_none {xs : List α} {k : κ} :
    xs.find? (fun x => decide (key x = k)) = none ↔ k ∉ xs.map key := by
  rw [List.find?_eq_none, List.mem_map]
  constructor
  · rintro hnone ⟨x,hx,hkey⟩
    exact hnone x hx (decide_eq_true hkey)
  · intro hfree x hx hkey
    exact hfree ⟨x,hx,of_decide_eq_true hkey⟩

theorem find?_key_eq_some {xs : List α} (hnodup : (xs.map key).Nodup) {k : κ} {x : α} :
    xs.find? (fun x => decide (key x = k)) = some x ↔ x ∈ xs ∧ key x = k := by
  constructor
  · intro hfind
    exact ⟨List.mem_of_find?_eq_some hfind,by simpa using List.find?_some hfind⟩
  · rintro ⟨hx,rfl⟩
    cases hfind : xs.find? fun y => decide (key y = key x) with
    | none => exact absurd (List.mem_map_of_mem hx) (find?_key_eq_none.mp hfind)
    | some y =>
      have hkey : key y = key x := by simpa using List.find?_some hfind
      rw [List.inj_on_of_nodup_map hnodup (List.mem_of_find?_eq_some hfind) hx hkey]

/-- At a key a pass over elements with keys of their own is the turn of its one element. -/
theorem foldl_find (hother : ∀ s x k, k ≠ key x → view (f s x) k = view s k)
    (hown : ∀ s t x, view s (key x) = view t (key x) → view (f s x) (key x) = view (f t x) (key x))
    {xs : List α} (hnodup : (xs.map key).Nodup) (s : σ) (k : κ) :
    view (xs.foldl f s) k =
      match xs.find? fun x => decide (key x = k) with
      | none => view s k
      | some x => view (f s x) k := by
  cases hfind : xs.find? fun x => decide (key x = k) with
  | none => exact foldl_untouched hother (find?_key_eq_none.mp hfind) s
  | some x =>
    obtain ⟨hx,rfl⟩ := (find?_key_eq_some hnodup).mp hfind
    exact foldl_touched hother hown hx hnodup s

end Owned

variable [DecidableEq κ] (read : α → Option (κ × γ))

/-- The element is read as a value for one key, or not at all. -/
def updateAt (g : β → γ → β) (table : κ → β) (x : α) : κ → β :=
  match read x with
  | none => table
  | some (k,v) => Function.update table k (g (table k) v)

def valueAt (k : κ) (x : α) : Option γ :=
  (read x).bind fun r => if r.1 = k then some r.2 else none

/-- The values for one key, in their order. -/
def valuesAt (k : κ) (xs : List α) : List γ := xs.filterMap (valueAt read k)

variable {read}

theorem valueAt_eq_some {k : κ} {x : α} {v : γ} :
    valueAt read k x = some v ↔ read x = some (k,v) := by
  rw [valueAt]
  cases read x with
  | none => simp
  | some r =>
    obtain ⟨k',v'⟩ := r
    by_cases hk : k' = k
    · simp [hk]
    · simp [hk]

theorem foldl_updateAt (g : β → γ → β) (table : κ → β) (xs : List α) (k : κ) :
    xs.foldl (updateAt read g) table k = (valuesAt read k xs).foldl g (table k) := by
  induction xs generalizing table with
  | nil => rfl
  | cons x xs ih =>
    rw [List.foldl_cons, ih, valuesAt, valuesAt, List.filterMap_cons, updateAt, valueAt]
    cases read x with
    | none => rfl
    | some r =>
      by_cases hk : r.1 = k
      · subst hk
        simp
      · simp only [Option.bind_some, if_neg hk, Function.update_of_ne (Ne.symm hk)]

theorem mem_valuesAt {k : κ} {xs : List α} {v : γ} :
    v ∈ valuesAt read k xs ↔ ∃ x ∈ xs, read x = some (k,v) := by
  simp [valuesAt, valueAt_eq_some]

/-- The value for a key is alone. -/
theorem valuesAt_eq_singleton_iff {k : κ} {xs : List α} {v : γ} :
    valuesAt read k xs = [v] ↔
      ∃ (i : ℕ) (x : α), xs[i]? = some x ∧ read x = some (k,v) ∧
        ∀ (j : ℕ) (y : α) (w : γ), xs[j]? = some y → read y = some (k,w) → j = i := by
  rw [valuesAt, filterMap_eq_singleton_iff]
  simp only [valueAt_eq_some, ← Option.isSome_iff_ne_none, Option.isSome_iff_exists,
    forall_exists_index]
  constructor
  · rintro ⟨i,x,hi,hx,halone⟩
    exact ⟨i,x,hi,hx,fun j y w hj hy => halone j y hj w hy⟩
  · rintro ⟨i,x,hi,hx,halone⟩
    exact ⟨i,x,hi,hx,fun j y hj w hy => halone j y w hj hy⟩

end Radar.Keyed

namespace Radar.MapLoop

variable {κ V W : Type*}

theorem keys_nodup (m : AList fun _ : κ => V) : (m.entries.map Sigma.fst).Nodup := m.nodupKeys

variable [DecidableEq κ]

/-- A key is alone. -/
theorem filter_key {m : AList fun _ : κ => V} {k : κ} {v : V} (h : m.lookup k = some v) :
    m.entries.filter (fun e => decide (e.1 = k)) = [⟨k,v⟩] := by
  have hmem : (⟨k,v⟩ : Sigma fun _ : κ => V) ∈ m.entries := AList.mem_lookup_iff.mp h
  obtain ⟨before,after,hsplit⟩ := List.append_of_mem hmem
  have hnodup := keys_nodup m
  rw [hsplit, List.map_append, List.map_cons, List.perm_middle.nodup_iff, List.nodup_cons,
    List.mem_append, not_or] at hnodup
  have hnone : ∀ l : List (Sigma fun _ : κ => V), k ∉ l.map Sigma.fst →
      l.filter (fun e => decide (e.1 = k)) = [] := by
    intro l hl
    rw [List.filter_eq_nil_iff]
    intro e he heq
    exact hl (of_decide_eq_true heq ▸ List.mem_map_of_mem he)
  rw [hsplit, List.filter_append, List.filter_cons_of_pos (by simp),
    hnone before hnodup.1.1, hnone after hnodup.1.2, List.nil_append]

variable {f : (AList fun _ : κ => W) → κ → V → AList fun _ : κ => W}

/-- What stands under a key. -/
def under (s : AList fun _ : κ => W) (k : κ) : Option W := s.lookup k

theorem lookup_foldl (hother : ∀ s k v k', k' ≠ k → (f s k v).lookup k' = s.lookup k')
    (hown : ∀ s t k v, s.lookup k = t.lookup k → (f s k v).lookup k = (f t k v).lookup k)
    (m : AList fun _ : κ => V) (s : AList fun _ : κ => W) (k : κ) :
    (m.foldl f s).lookup k =
      match m.lookup k with
      | none => s.lookup k
      | some v => (f s k v).lookup k := by
  have hleave : ∀ (s : AList fun _ : κ => W) (e : Sigma fun _ : κ => V) (k' : κ), k' ≠ e.1 →
      under (f s e.1 e.2) k' = under s k' := fun s e k' => hother s e.1 e.2 k'
  have hmine : ∀ (s t : AList fun _ : κ => W) (e : Sigma fun _ : κ => V),
      under s e.1 = under t e.1 → under (f s e.1 e.2) e.1 = under (f t e.1 e.2) e.1 :=
    fun s t e => hown s t e.1 e.2
  rw [AList.foldl]
  cases hlookup : m.lookup k with
  | none =>
    have hfree : k ∉ m.entries.map Sigma.fst := AList.lookup_eq_none.mp hlookup
    exact Keyed.foldl_untouched hleave hfree s
  | some v =>
    have hmem : (⟨k,v⟩ : Sigma fun _ : κ => V) ∈ m.entries := AList.mem_lookup_iff.mp hlookup
    exact Keyed.foldl_touched hleave hmine hmem (keys_nodup m) s

end Radar.MapLoop
