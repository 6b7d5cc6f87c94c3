import Radar.Base.SortFunc
import Mathlib.Data.List.Nodup
import Mathlib.Data.List.Induction
import Mathlib.Logic.Function.Basic

/-!
# The best entries of distinct keys

A list bounded to `k` entries keeps, of all that was offered, the entries of
highest rank, at most one a key. A search that passes one key by asks for two
entries: whatever the order of the offers, it finds in the bounded list what it
would find among all of them.
-/

set_option autoImplicit false

namespace Radar.TopKept

variable {α κ τ : Type*} [LinearOrder τ] (key : α → κ) (rank : α → τ)

/-- Highest rank first. -/
def descending (a b : α) : Ordering := compare (rank b) (rank a)

instance : Std.TransCmp (descending rank) where
  eq_swap {a b} := @Std.OrientedCmp.eq_swap τ compare _ (rank b) (rank a)
  isLE_trans {a b c} h h' :=
    @Std.TransCmp.isLE_trans τ compare _ (rank c) (rank b) (rank a) h' h

/-- What a bounded list tells of the entries offered to it. -/
structure Keeps (k : ℕ) (offered kept : List α) : Prop where
  sub : ∀ x ∈ kept, x ∈ offered
  nodup : (kept.map key).Nodup
  length_le : kept.length ≤ k
  best : ∀ x ∈ offered, (∃ y ∈ kept, key y = key x ∧ rank x ≤ rank y) ∨
    (kept.length = k ∧ ∀ y ∈ kept, rank x ≤ rank y)

variable {key rank}

namespace Keeps

variable {k : ℕ} {offered kept : List α} {x : α}

theorem nil (k : ℕ) : Keeps key rank k [] [] :=
  ⟨fun _ h => h,List.nodup_nil,Nat.zero_le k,fun _ h => by cases h⟩

theorem raised {a b : List α} {y : α} (h : Keeps key rank k offered (a++y::b))
    (hy : key y = key x) :
    Keeps key rank k (offered++[x]) (a++(if rank y < rank x then x else y)::b) := by
  let z := if rank y < rank x then x else y
  change Keeps key rank k (offered++[x]) (a++z::b)
  have hz : key z = key x := by
    by_cases hlt : rank y < rank x <;> simp [z, hlt, hy]
  have hyz : rank y ≤ rank z := by
    by_cases hlt : rank y < rank x
    · simpa [z, hlt] using hlt.le
    · simp [z, hlt]
  have hxz : rank x ≤ rank z := by
    by_cases hlt : rank y < rank x
    · simp [z, hlt]
    · simpa [z, hlt] using not_lt.mp hlt
  have hmem : z ∈ offered++[x] := by
    by_cases hlt : rank y < rank x
    · simp [z, hlt]
    · have := h.sub y (by simp)
      simp [z, hlt, this]
  have hlen : (a++z::b).length = (a++y::b).length := by simp
  -- every entry of the list before has a successor of its key, ranked no lower
  have hsucc : ∀ v ∈ a++y::b, ∃ w ∈ a++z::b, key w = key v ∧ rank v ≤ rank w := by
    intro v hv
    rcases List.mem_append.mp hv with hv | hv
    · exact ⟨v,by simp [hv],rfl,le_refl _⟩
    · rcases List.mem_cons.mp hv with rfl | hv
      · exact ⟨z,by simp,hz.trans hy.symm,hyz⟩
      · exact ⟨v,by simp [hv],rfl,le_refl _⟩
  have hpred : ∀ w ∈ a++z::b, ∃ v ∈ a++y::b, rank v ≤ rank w := by
    intro w hw
    rcases List.mem_append.mp hw with hw | hw
    · exact ⟨w,by simp [hw],le_refl _⟩
    · rcases List.mem_cons.mp hw with rfl | hw
      · exact ⟨y,by simp,hyz⟩
      · exact ⟨w,by simp [hw],le_refl _⟩
  constructor
  · intro w hw
    rcases List.mem_append.mp hw with hw | hw
    · exact List.mem_append_left _ (h.sub w (by simp [hw]))
    · rcases List.mem_cons.mp hw with rfl | hw
      · exact hmem
      · exact List.mem_append_left _ (h.sub w (by simp [hw]))
  · have hnodup := h.nodup
    simpa [hz, hy] using hnodup
  · rw [hlen]
    exact h.length_le
  · intro v hv
    rcases List.mem_append.mp hv with hv | hv
    · rcases h.best v hv with ⟨w,hw,hkey,hle⟩ | ⟨hfull,hall⟩
      · obtain ⟨w',hw',hkey',hle'⟩ := hsucc w hw
        exact .inl ⟨w',hw',hkey'.trans hkey,hle.trans hle'⟩
      · refine .inr ⟨hlen.trans hfull,fun w hw => ?_⟩
        obtain ⟨w',hw',hle⟩ := hpred w hw
        exact (hall w' hw').trans hle
    · rw [List.mem_singleton.mp hv]
      exact .inl ⟨z,by simp,hz,hxz⟩

end Keeps

section Sorted

variable {m : List α} {k : ℕ}

/-- Cutting a descending list drops nothing that ranks above what stays. -/
theorem le_of_dropped (hm : m.Pairwise fun a b => rank b ≤ rank a) {x y : α}
    (hx : x ∈ m.drop k) (hy : y ∈ m.take k) : rank x ≤ rank y := by
  rw [← List.take_append_drop k m, List.pairwise_append] at hm
  exact hm.2.2 y hy x hx

/-- Where all but one entry of a descending list of `k+1` reach `t`, the first `k` do. -/
theorem reach_take {t : τ} (hm : m.Pairwise fun a b => rank b ≤ rank a) (hlen : m.length = k+1)
    (hone : m.countP (fun x => decide (rank x < t)) ≤ 1) : ∀ x ∈ m.take k, t ≤ rank x := by
  intro x hx
  by_contra hlt
  rw [not_le] at hlt
  have htake : 0 < (m.take k).countP fun x => decide (rank x < t) :=
    List.countP_pos_iff.mpr ⟨x,hx,decide_eq_true hlt⟩
  obtain ⟨y,hy⟩ : ∃ y, y ∈ m.drop k := by
    apply List.exists_mem_of_length_pos
    rw [List.length_drop]
    omega
  have hylt : rank y < t := (le_of_dropped hm hy hx).trans_lt hlt
  have hdrop : 0 < (m.drop k).countP fun x => decide (rank x < t) :=
    List.countP_pos_iff.mpr ⟨y,hy,decide_eq_true hylt⟩
  rw [← List.take_append_drop k m, List.countP_append] at hone
  omega

end Sorted

namespace Keeps

variable {k : ℕ} {offered kept : List α} {x : α}

theorem pushed (sort : SortFunc (descending rank)) (h : Keeps key rank k offered kept)
    (hx : key x ∉ kept.map key) :
    Keeps key rank k (offered++[x]) ((sort.run (kept++[x])).take k) := by
  have hperm := sort.perm (kept++[x])
  have hsorted : (sort.run (kept++[x])).Pairwise fun a b => rank b ≤ rank a :=
    (sort.sorted (kept++[x])).imp fun hab => compare_le_iff_le.mp hab
  generalize sort.run (kept++[x]) = m at hperm hsorted
  have hlen : m.length = kept.length+1 := by simpa using hperm.length_eq
  have hmem : ∀ y, y ∈ m ↔ y ∈ kept ∨ y = x := fun y => by simp [hperm.mem_iff]
  have hle := h.length_le
  constructor
  · intro y hy
    rcases (hmem y).mp (List.mem_of_mem_take hy) with hy | rfl
    · exact List.mem_append_left _ (h.sub y hy)
    · simp
  · have hnodup : (m.map key).Nodup := by
      rw [(hperm.map key).nodup_iff, List.map_append, List.nodup_append_comm]
      exact List.nodup_cons.mpr ⟨hx,h.nodup⟩
    rw [List.map_take]
    exact hnodup.sublist (List.take_sublist k _)
  · exact List.length_take_le k m
  · -- an entry of the sorted list stays or is the one cut off below `k` others
    have hstay : ∀ y ∈ m, y ∈ m.take k ∨ ((m.take k).length = k ∧ ∀ z ∈ m.take k, rank y ≤ rank z) := by
      intro y hy
      rw [← List.take_append_drop k m, List.mem_append] at hy
      rcases hy with hy | hy
      · exact .inl hy
      · refine .inr ⟨?_,fun z hz => le_of_dropped hsorted hy hz⟩
        have := List.length_pos_of_mem hy
        rw [List.length_drop] at this
        rw [List.length_take]
        omega
    intro v hv
    rcases List.mem_append.mp hv with hv | hv
    · rcases h.best v hv with ⟨w,hw,hkey,hle⟩ | ⟨hfull,hall⟩
      · rcases hstay w ((hmem w).mpr (.inl hw)) with hw | ⟨hfull,hall⟩
        · exact .inl ⟨w,hw,hkey,hle⟩
        · exact .inr ⟨hfull,fun z hz => hle.trans (hall z hz)⟩
      · refine .inr ⟨by rw [List.length_take]; omega,?_⟩
        apply reach_take hsorted (by omega)
        rw [hperm.countP_eq, List.countP_append]
        have hnone : kept.countP (fun y => decide (rank y < rank v)) = 0 :=
          List.countP_eq_zero.mpr fun y hy => by simpa using hall y hy
        rw [hnone, Nat.zero_add]
        exact List.countP_le_length
    · rcases hstay v ((hmem v).mpr (.inr (List.mem_singleton.mp hv))) with hv | hv
      · exact .inl ⟨v,hv,rfl,le_refl _⟩
      · exact .inr hv

/-- A search that passes one key by finds in the bounded list what it finds among all. -/
theorem exists_other_iff (h : Keeps key rank k offered kept) (hk : 2 ≤ k) (stale : κ) (t : τ) :
    (∃ x ∈ kept, key x ≠ stale ∧ t ≤ rank x) ↔ ∃ x ∈ offered, key x ≠ stale ∧ t ≤ rank x := by
  constructor
  · rintro ⟨x,hx,hkey,ht⟩
    exact ⟨x,h.sub x hx,hkey,ht⟩
  · rintro ⟨x,hx,hkey,ht⟩
    rcases h.best x hx with ⟨y,hy,hsame,hle⟩ | ⟨hfull,hall⟩
    · exact ⟨y,hy,hsame ▸ hkey,ht.trans hle⟩
    · -- two entries of two keys stand, so one is not the key passed by
      by_contra hnone
      have hstale : ∀ y ∈ kept.map key, y = stale := by
        intro c hc
        obtain ⟨y,hy,rfl⟩ := List.mem_map.mp hc
        by_contra hne
        exact hnone ⟨y,hy,hne,ht.trans (hall y hy)⟩
      have hrep := List.eq_replicate_of_mem hstale
      have hnodup := h.nodup
      rw [hrep, List.nodup_replicate, List.length_map] at hnodup
      omega

end Keeps

variable [DecidableEq κ] (key rank)

/-- The first entry with the key of `x` gives way to `x` where `x` ranks above it. -/
def raise (x : α) : List α → Option (List α)
  | [] => none
  | y::l =>
    if key y = key x then some ((if rank y < rank x then x else y)::l)
    else (raise x l).map (y::·)

def keep (sort : SortFunc (descending rank)) (k : ℕ) (l : List α) (x : α) : List α :=
  match raise key rank x l with
  | some l' => l'
  | none => (sort.run (l++[x])).take k

/-- A table of bounded lists; the entry is offered to the list at `i`. -/
def keepAt {ι : Type*} [DecidableEq ι] (sort : SortFunc (descending rank)) (k : ℕ)
    (table : ι → List α) (i : ι) (x : α) : ι → List α :=
  Function.update table i (keep key rank sort k (table i) x)

variable {key rank}

theorem raise_none {x : α} {l : List α} (h : raise key rank x l = none) : key x ∉ l.map key := by
  induction l with
  | nil => exact List.not_mem_nil
  | cons y l ih =>
    rw [raise] at h
    by_cases hy : key y = key x
    · rw [if_pos hy] at h
      nomatch h
    · rw [if_neg hy, Option.map_eq_none_iff] at h
      rw [List.map_cons, List.mem_cons, not_or]
      exact ⟨fun h => hy h.symm,ih h⟩

theorem raise_some {x : α} {l l' : List α} (h : raise key rank x l = some l') :
    ∃ a y b, l = a++y::b ∧ key y = key x ∧ l' = a++(if rank y < rank x then x else y)::b := by
  induction l generalizing l' with
  | nil => nomatch h
  | cons y l ih =>
    rw [raise] at h
    by_cases hy : key y = key x
    · rw [if_pos hy, Option.some_inj] at h
      exact ⟨[],y,l,rfl,hy,h.symm⟩
    · rw [if_neg hy, Option.map_eq_some_iff] at h
      obtain ⟨m,hm,rfl⟩ := h
      obtain ⟨a,z,b,rfl,hz,rfl⟩ := ih hm
      exact ⟨y::a,z,b,rfl,hz,rfl⟩

theorem Keeps.keep {k : ℕ} {offered kept : List α} (sort : SortFunc (descending rank)) (h : Keeps key rank k offered kept) (x : α) :
    Keeps key rank k (offered++[x]) (TopKept.keep key rank sort k kept x) := by
  rw [TopKept.keep]
  cases hraise : raise key rank x kept with
  | none => exact h.pushed sort (raise_none hraise)
  | some l =>
    obtain ⟨a,y,b,rfl,hy,rfl⟩ := raise_some hraise
    exact h.raised hy

/-- Every list of a table has seen the entries offered to it and no others. -/
theorem keeps_foldl_keepAt {ι : Type*} [DecidableEq ι] (sort : SortFunc (descending rank)) (k : ℕ)
    (offers : List (ι × α)) (i : ι) :
    Keeps key rank k ((offers.filter fun o => o.1 = i).map Prod.snd)
      (offers.foldl (fun table o => keepAt key rank sort k table o.1 o.2) (fun _ => []) i) := by
  induction offers using List.reverseRecOn with
  | nil => exact .nil k
  | append_singleton offers o ih =>
    rw [List.foldl_append, List.filter_append, List.map_append, List.foldl_cons, List.foldl_nil,
      keepAt]
    by_cases ho : o.1 = i
    · subst ho
      simpa using ih.keep sort o.2
    · rw [Function.update_of_ne (Ne.symm ho)]
      simpa [ho] using ih

end Radar.TopKept
