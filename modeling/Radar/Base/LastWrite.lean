import Mathlib.Data.Finset.Card
import Mathlib.Data.List.Basic
import Mathlib.Data.List.Nodup

/-!
# The last write of a key in an ordered log

What decides a key's fate once a log has been applied is its last write. The
last writes of all keys are what a store holds that keeps one row a key.
-/

set_option autoImplicit false

namespace Radar.LastWrite

variable {ω κ : Type*} [DecidableEq κ] (key : ω → κ)

def last (k : κ) (log : List ω) : Option ω := (log.filter (fun w => key w = k)).getLast?

variable {key}

theorem last_def (k : κ) (log : List ω) :
    last key k log = (log.filter (fun w => key w = k)).getLast? := rfl

@[simp] theorem last_nil (k : κ) : last key k [] = none := rfl

theorem last_append (k : κ) (l m : List ω) : last key k (l++m) = (last key k m).or (last key k l) := by
  rw [last_def, List.filter_append, List.getLast?_append]
  rfl

theorem last_append_same {k : κ} {w : ω} (l : List ω) (h : key w = k) : last key k (l++[w]) = some w := by
  simp [last_def, h]

theorem last_append_other {k : κ} {w : ω} (l : List ω) (h : key w ≠ k) :
    last key k (l++[w]) = last key k l := by
  simp [last_def, h]

theorem last_eq_none {k : κ} {l : List ω} : last key k l = none ↔ ∀ w ∈ l, key w ≠ k := by
  simp [last_def]

theorem last_mem {k : κ} {l : List ω} {w : ω} (h : last key k l = some w) : w ∈ l ∧ key w = k := by
  have := List.mem_of_getLast? h
  simpa using this

theorem exists_last {l : List ω} {w : ω} (h : w ∈ l) : ∃ v, last key (key w) l = some v := by
  cases hlast : last key (key w) l with
  | none => exact absurd rfl (last_eq_none.mp hlast w h)
  | some v => exact ⟨v,rfl⟩

theorem last_cons (k : κ) (w : ω) (l : List ω) :
    last key k (w::l) = (last key k l).or (if key w = k then some w else none) := by
  have h : w::l = [w]++l := rfl
  rw [h, last_append]
  by_cases hk : key w = k <;> simp [last_def, hk]

/-- Where every key is written once, each write is the last of its key. -/
theorem last_of_nodup {l : List ω} {w : ω} (hl : (l.map key).Nodup) (hw : w ∈ l) :
    last key (key w) l = some w := by
  induction l with
  | nil => cases hw
  | cons v l ih =>
    rw [last_cons]
    obtain ⟨hv,hl⟩ := List.nodup_cons.mp hl
    obtain rfl | hw := List.mem_cons.mp hw
    · rw [last_eq_none.mpr fun u hu hk => hv (List.mem_map.mpr ⟨u,hu,hk⟩), if_pos rfl]
      rfl
    · rw [ih hl hw]
      rfl

section Lasts

variable (key)

/-- The writes that no later write of the same key follows. -/
def lasts : List ω → List ω
  | [] => []
  | w::l => if key w ∈ l.map key then lasts l else w::lasts l

variable {key}

theorem lasts_cons (w : ω) (l : List ω) :
    lasts key (w::l) = if key w ∈ l.map key then lasts key l else w::lasts key l := rfl

theorem lasts_sublist (l : List ω) : (lasts key l).Sublist l := by
  induction l with
  | nil => exact List.Sublist.slnil
  | cons w l ih =>
    rw [lasts_cons]
    split_ifs
    · exact ih.trans (List.sublist_cons_self w l)
    · exact ih.cons_cons w

theorem mem_lasts_keys {k : κ} {l : List ω} : k ∈ (lasts key l).map key ↔ k ∈ l.map key := by
  induction l with
  | nil => rfl
  | cons w l ih =>
    rw [lasts_cons]
    split_ifs with h
    · rw [ih, List.map_cons, List.mem_cons]
      constructor
      · exact .inr
      · rintro (rfl | hk)
        · exact h
        · exact hk
    · rw [List.map_cons, List.mem_cons, ih, List.map_cons, List.mem_cons]

theorem lasts_nodup (l : List ω) : ((lasts key l).map key).Nodup := by
  induction l with
  | nil => exact List.nodup_nil
  | cons w l ih =>
    rw [lasts_cons]
    split_ifs with h
    · exact ih
    · rw [List.map_cons, List.nodup_cons]
      exact ⟨fun hin => h (mem_lasts_keys.mp hin),ih⟩

theorem lasts_of_nodup {l : List ω} (h : (l.map key).Nodup) : lasts key l = l := by
  induction l with
  | nil => rfl
  | cons w l ih =>
    obtain ⟨hw,hl⟩ := List.nodup_cons.mp h
    rw [lasts_cons, if_neg hw, ih hl]

theorem lasts_append_one (l : List ω) (w : ω) :
    lasts key (l++[w]) = (lasts key l).filter (fun v => key v ≠ key w)++[w] := by
  induction l with
  | nil => rfl
  | cons v l ih =>
    simp only [List.cons_append, lasts_cons, ih, List.map_append, List.map_cons, List.map_nil,
      List.mem_append, List.mem_singleton]
    by_cases hv : key v ∈ l.map key
    · rw [if_pos (.inl hv), if_pos hv]
    · rw [if_neg hv]
      by_cases hw : key v = key w
      · rw [if_pos (.inr hw), List.filter_cons_of_neg (by simpa using hw)]
      · rw [if_neg fun h => h.elim hv hw, List.filter_cons_of_pos (by simpa using hw)]
        rfl

/-- A condition that stays true once it holds can be asked for before or after. -/
theorem lasts_filter {p : ω → Bool} {l : List ω}
    (h : l.Pairwise fun a b => p a = true → p b = true) :
    lasts key (l.filter p) = (lasts key l).filter p := by
  induction l with
  | nil => rfl
  | cons w l ih =>
    obtain ⟨hw,hl⟩ := List.pairwise_cons.mp h
    by_cases hp : p w = true
    · have hall : l.filter p = l := List.filter_eq_self.mpr fun a ha => hw a ha hp
      rw [List.filter_cons_of_pos hp, hall, List.filter_eq_self.mpr]
      intro a ha
      obtain rfl | ha := List.mem_cons.mp ((lasts_sublist _).subset ha)
      · exact hp
      · exact hw a ha hp
    · rw [List.filter_cons_of_neg hp, ih hl, lasts_cons]
      split_ifs
      · rfl
      · rw [List.filter_cons_of_neg hp]

/-- As many are left as there are keys. -/
theorem length_lasts (l : List ω) : (lasts key l).length = (l.map key).toFinset.card := by
  have hsame : (l.map key).toFinset = ((lasts key l).map key).toFinset := by
    ext k
    rw [List.mem_toFinset, List.mem_toFinset, mem_lasts_keys]
  rw [hsame, List.toFinset_card_of_nodup (lasts_nodup l), List.length_map]

end Lasts

end Radar.LastWrite
