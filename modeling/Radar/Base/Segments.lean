import Mathlib.Data.List.Infix

/-!
# Lists cut where neighbours do not fit

The segments of a list are its longest stretches in which every element fits the
one before. Each stretch of fitting neighbours lies within one of them.
-/

set_option autoImplicit false

namespace Radar.Segments

variable {α : Type*} (R : α → α → Prop) [DecidableRel R]

def segments : List α → List (List α)
  | [] => []
  | [a] => [[a]]
  | a::b::l => if R a b then (segments (b::l)).modifyHead (a::·) else [a]::segments (b::l)

theorem segments_cons (a : α) (l : List α) : ∃ s ss, segments R (a::l) = (a::s)::ss := by
  induction l generalizing a with
  | nil => exact ⟨[],[],rfl⟩
  | cons b l ih =>
    obtain ⟨s,ss,hs⟩ := ih b
    rw [segments, hs]
    split_ifs
    · exact ⟨b::s,ss,rfl⟩
    · exact ⟨[],(b::s)::ss,rfl⟩

@[simp] theorem segments_flatten (l : List α) : (segments R l).flatten = l := by
  induction l with
  | nil => rfl
  | cons a l ih =>
    cases l with
    | nil => rfl
    | cons b l =>
      obtain ⟨s,ss,hs⟩ := segments_cons R b l
      rw [hs] at ih
      rw [segments, hs]
      split_ifs
      · rw [List.modifyHead_cons, List.flatten_cons, List.cons_append, ← List.flatten_cons, ih]
      · rw [List.flatten_cons, ih, List.singleton_append]

variable {R}

theorem segments_chain {l s : List α} (h : s ∈ segments R l) : s ≠ [] ∧ s.IsChain R := by
  induction l generalizing s with
  | nil => cases h
  | cons a l ih =>
    cases l with
    | nil =>
      obtain rfl := List.mem_singleton.mp h
      exact ⟨List.cons_ne_nil a [],List.IsChain.singleton a⟩
    | cons b l =>
      obtain ⟨t,ss,hs⟩ := segments_cons R b l
      rw [segments, hs] at h
      rw [hs] at ih
      split_ifs at h with hab
      · rw [List.modifyHead_cons, List.mem_cons] at h
        rcases h with rfl | h
        · exact ⟨List.cons_ne_nil _ _,List.isChain_cons_cons.mpr ⟨hab,(ih List.mem_cons_self).2⟩⟩
        · exact ih (List.mem_cons_of_mem _ h)
      · rcases List.mem_cons.mp h with rfl | h
        · exact ⟨List.cons_ne_nil a [],List.IsChain.singleton a⟩
        · exact ih h

/-- Fitting neighbours in front are in the first segment. -/
theorem chain_prefix_segment {l s t : List α} {ss : List (List α)} (h : segments R l = s::ss)
    (ht : t <+: l) (hchain : t.IsChain R) : t <+: s := by
  induction l generalizing s t ss with
  | nil => nomatch h
  | cons a l ih =>
    cases l with
    | nil =>
      rw [segments, List.cons.injEq] at h
      rwa [← h.1]
    | cons b l =>
      obtain ⟨u,us,hu⟩ := segments_cons R b l
      rw [segments, hu] at h
      cases t with
      | nil => exact List.nil_prefix
      | cons a' t =>
        obtain ⟨rfl,htail⟩ := List.cons_prefix_cons.mp ht
        split_ifs at h with hab
        · rw [List.modifyHead_cons, List.cons.injEq] at h
          rw [← h.1]
          exact List.cons_prefix_cons.mpr ⟨rfl,ih hu htail hchain.of_cons⟩
        · rw [List.cons.injEq] at h
          rw [← h.1]
          cases t with
          | nil => exact List.prefix_refl _
          | cons b' t =>
            obtain ⟨rfl,-⟩ := List.cons_prefix_cons.mp htail
            exact absurd (List.isChain_cons_cons.mp hchain).1 hab

/-- Fitting neighbours are in one segment. -/
theorem chain_infix_segment {l t : List α} (hne : t ≠ []) (ht : t <:+: l) (hchain : t.IsChain R) :
    ∃ s ∈ segments R l, t <:+: s := by
  induction l with
  | nil => exact absurd (List.infix_nil.mp ht) hne
  | cons a l ih =>
    rcases List.infix_cons_iff.mp ht with hfront | hrest
    · obtain ⟨s,ss,hs⟩ := segments_cons R a l
      exact ⟨a::s,hs ▸ List.mem_cons_self,(chain_prefix_segment hs hfront hchain).isInfix⟩
    · obtain ⟨s,hs,hin⟩ := ih hrest
      cases l with
      | nil => cases hs
      | cons b l =>
        obtain ⟨u,us,hu⟩ := segments_cons R b l
        rw [hu] at hs
        rw [segments, hu]
        split_ifs
        · rcases List.mem_cons.mp hs with rfl | hs
          · exact ⟨a::b::u,List.mem_cons_self,List.infix_cons hin⟩
          · exact ⟨s,List.mem_cons_of_mem _ hs,hin⟩
        · exact ⟨s,List.mem_cons_of_mem _ hs,hin⟩

end Radar.Segments
