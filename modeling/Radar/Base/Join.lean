import Mathlib.Data.List.Basic

/-!
# Texts joined by a separator

A joined text can be taken apart again when no part holds the separator. The
empty list and the list of one empty part are the one pair that a join
confuses.
-/

set_option autoImplicit false

namespace Radar.Join

section Lists

variable {α : Type*} {sep : α}

theorem append_sep_inj {a b r t : List α} (ha : sep ∉ a) (hb : sep ∉ b)
    (h : a ++ sep::r = b ++ sep::t) : a = b ∧ r = t := by
  induction a generalizing b with
  | nil =>
    cases b with
    | nil => simpa using h
    | cons y b => exact absurd (List.cons.inj h).1 (fun hy => hb (by simp [hy]))
  | cons x a ih =>
    cases b with
    | nil => exact absurd (List.cons.inj h).1 (fun hx => ha (by simp [hx]))
    | cons y b =>
      have hcons := List.cons.inj h
      have htail := ih (fun hm => ha (List.mem_cons_of_mem x hm))
        (fun hm => hb (List.mem_cons_of_mem y hm)) hcons.2
      rw [hcons.1, htail.1]
      exact ⟨rfl,htail.2⟩

theorem append_sep_last_inj {a b r t : List α} (hr : sep ∉ r) (ht : sep ∉ t)
    (h : a ++ sep::r = b ++ sep::t) : a = b ∧ r = t := by
  have hrev := congrArg List.reverse h
  simp only [List.reverse_append, List.reverse_cons, List.append_assoc, List.singleton_append]
    at hrev
  have hparts := append_sep_inj (by rwa [List.mem_reverse]) (by rwa [List.mem_reverse]) hrev
  exact ⟨List.reverse_injective hparts.2,List.reverse_injective hparts.1⟩

theorem sep_mem_intercalate (tail p q : List α) (ps : List (List α)) :
    sep ∈ (sep::tail).intercalate (p::q::ps) := by
  rw [List.intercalate_cons_cons]
  simp

/-- The first element of the separator is not in the parts. -/
theorem intercalate_inj {tail : List α} {ps qs : List (List α)} (hps : ps ≠ []) (hqs : qs ≠ [])
    (hp : ∀ p ∈ ps, sep ∉ p) (hq : ∀ q ∈ qs, sep ∉ q)
    (h : (sep::tail).intercalate ps = (sep::tail).intercalate qs) : ps = qs := by
  induction ps generalizing qs with
  | nil => exact absurd rfl hps
  | cons p ps ih =>
    cases qs with
    | nil => exact absurd rfl hqs
    | cons q qs =>
      have hp₀ := hp p List.mem_cons_self
      have hq₀ := hq q List.mem_cons_self
      cases ps with
      | nil =>
        cases qs with
        | nil => simpa using h
        | cons q' qs =>
          rw [List.intercalate_singleton] at h
          exact absurd (h ▸ sep_mem_intercalate tail q q' qs) hp₀
      | cons p' ps =>
        cases qs with
        | nil =>
          rw [List.intercalate_singleton] at h
          exact absurd (h ▸ sep_mem_intercalate tail p p' ps) hq₀
        | cons q' qs =>
          rw [List.intercalate_cons_cons, List.intercalate_cons_cons, List.append_assoc,
            List.append_assoc, List.cons_append, List.cons_append] at h
          have hparts := append_sep_inj hp₀ hq₀ h
          have htail := ih (List.cons_ne_nil p' ps) (List.cons_ne_nil q' qs)
            (fun x hx => hp x (List.mem_cons_of_mem p hx))
            (fun x hx => hq x (List.mem_cons_of_mem q hx)) (List.append_cancel_left hparts.2)
          rw [hparts.1, htail]

theorem terminated_inj {ps qs : List (List α)} (hp : ∀ p ∈ ps, sep ∉ p) (hq : ∀ q ∈ qs, sep ∉ q)
    (h : (ps.flatMap fun p => p++[sep]) = qs.flatMap fun q => q++[sep]) : ps = qs := by
  induction ps generalizing qs with
  | nil =>
    cases qs with
    | nil => rfl
    | cons q qs => simp at h
  | cons p ps ih =>
    cases qs with
    | nil => simp at h
    | cons q qs =>
      simp only [List.flatMap_cons, List.append_assoc, List.singleton_append] at h
      obtain ⟨rfl,hrest⟩ := append_sep_inj (hp p List.mem_cons_self) (hq q List.mem_cons_self) h
      rw [ih (fun r hr => hp r (List.mem_cons_of_mem p hr))
        (fun r hr => hq r (List.mem_cons_of_mem p hr)) hrest]

section Cut

variable [DecidableEq α]

/-- The parts before and after the first separator. -/
def cut (sep : α) : List α → Option (List α × List α)
  | [] => none
  | a::s => if a = sep then some ([],s) else (cut sep s).map fun p => (a::p.1,p.2)

theorem cut_append {a : List α} (ha : sep ∉ a) (s : List α) : cut sep (a++sep::s) = some (a,s) := by
  induction a with
  | nil => simp [cut]
  | cons b a ih =>
    have hb : b ≠ sep := fun h => ha (h ▸ List.mem_cons_self)
    rw [List.cons_append, cut, if_neg hb, ih fun h => ha (List.mem_cons_of_mem b h)]
    rfl

theorem cut_eq_some {s a rest : List α} (h : cut sep s = some (a,rest)) :
    s = a++sep::rest ∧ sep ∉ a := by
  induction s generalizing a with
  | nil => nomatch h
  | cons b s ih =>
    by_cases hb : b = sep
    · rw [cut, if_pos hb] at h
      obtain ⟨rfl,rfl⟩ := Prod.mk.inj (Option.some.inj h)
      exact ⟨congrArg (·::s) hb,List.not_mem_nil⟩
    · rw [cut, if_neg hb] at h
      obtain ⟨⟨a',rest'⟩,hcut,heq⟩ := Option.map_eq_some_iff.mp h
      obtain ⟨rfl,rfl⟩ := Prod.mk.inj heq
      obtain ⟨rfl,hfree⟩ := ih hcut
      exact ⟨rfl,fun hin => (List.mem_cons.mp hin).elim (fun h => hb h.symm) hfree⟩

theorem cut_eq_none {s : List α} : cut sep s = none ↔ sep ∉ s := by
  constructor
  · intro h hin
    obtain ⟨a,rest,rfl,hfree⟩ := List.eq_append_cons_of_mem hin
    rw [cut_append hfree] at h
    nomatch h
  · intro h
    cases hcut : cut sep s with
    | none => rfl
    | some p =>
      obtain ⟨rfl,-⟩ := cut_eq_some hcut
      exact absurd (List.mem_append_right p.1 List.mem_cons_self) h

end Cut

theorem intercalate_append {s : List α} {ps qs : List (List α)} (hps : ps ≠ []) (hqs : qs ≠ []) :
    s.intercalate (ps++qs) = s.intercalate ps++s++s.intercalate qs := by
  induction ps with
  | nil => exact absurd rfl hps
  | cons p ps ih =>
    by_cases hrest : ps = []
    · rw [hrest, List.singleton_append, List.intercalate_cons_of_ne_nil hqs,
        List.intercalate_singleton]
    · rw [List.cons_append, List.intercalate_cons_of_ne_nil (List.append_ne_nil_of_left_ne_nil hrest qs),
        List.intercalate_cons_of_ne_nil hrest, ih hrest]
      simp only [List.append_assoc]

/-- A text begins with the parts of another when it is that text or goes on with the separator. -/
theorem splitOn_prefix_iff [DecidableEq α] {c : α} {a s : List α} :
    a.splitOn c <+: s.splitOn c ↔ s = a ∨ ∃ r, s = a++c::r := by
  constructor
  · rintro ⟨rest,hrest⟩
    have hs : [c].intercalate (s.splitOn c) = s := List.intercalate_splitOn c
    by_cases hnil : rest = []
    · left
      rw [← hs, ← hrest, hnil, List.append_nil, List.intercalate_splitOn]
    · right
      refine ⟨[c].intercalate rest,?_⟩
      rw [← hs, ← hrest, intercalate_append (List.splitOn_ne_nil c a) hnil, List.intercalate_splitOn,
        List.append_assoc, List.singleton_append]
  · rintro (rfl | ⟨r,rfl⟩)
    · exact List.prefix_refl _
    · rw [List.splitOn_append_cons_self]
      exact List.prefix_append _ _

end Lists

/-- No part of the list holds the separator. -/
def Free (sep : Char) (l : List String) : Prop := ∀ s ∈ l, sep ∉ s.toList

instance (sep : Char) (l : List String) : Decidable (Free sep l) :=
  inferInstanceAs (Decidable (∀ s ∈ l, sep ∉ s.toList))

theorem joined_by_inj {sep : Char} {tail : List Char} {separator : String}
    (hsep : separator.toList = sep::tail) {ps qs : List String} (hps : ps ≠ []) (hqs : qs ≠ []) (hp : Free sep ps) (hq : Free sep qs)
    (h : separator.intercalate ps = separator.intercalate qs) : ps = qs := by
  have hlists := congrArg String.toList h
  rw [String.toList_intercalate, String.toList_intercalate, hsep] at hlists
  have hmaps : ps.map String.toList = qs.map String.toList := by
    apply intercalate_inj (by simpa using hps) (by simpa using hqs) _ _ hlists
    · simpa [Free] using hp
    · simpa [Free] using hq
  exact List.map_injective_iff.mpr (fun _ _ => String.ext) hmaps

theorem joined_inj {sep : Char} {ps qs : List String} (hps : ps ≠ []) (hqs : qs ≠ [])
    (hp : Free sep ps) (hq : Free sep qs)
    (h : (String.singleton sep).intercalate ps = (String.singleton sep).intercalate qs) :
    ps = qs :=
  joined_by_inj (String.toList_singleton sep) hps hqs hp hq h

theorem mem_joined {sep c : Char} {l : List String}
    (h : c ∈ ((String.singleton sep).intercalate l).toList) : c = sep ∨ ∃ s ∈ l, c ∈ s.toList := by
  rw [String.toList_intercalate, String.toList_singleton] at h
  induction l with
  | nil => simp at h
  | cons s l ih =>
    cases l with
    | nil => exact .inr ⟨s,List.mem_cons_self,by simpa using h⟩
    | cons t l =>
      rw [List.map_cons, List.map_cons, List.intercalate_cons_cons, List.mem_append,
        List.mem_append, List.mem_singleton] at h
      rcases h with (h | h) | h
      · exact .inr ⟨s,List.mem_cons_self,h⟩
      · exact .inl h
      · obtain hsep | ⟨u,hu,hc⟩ := ih h
        · exact .inl hsep
        · exact .inr ⟨u,List.mem_cons_of_mem s hu,hc⟩

/-- Without empty parts the empty list is not confused either. -/
theorem joined_inj_of_ne_empty {sep : Char} {ps qs : List String} (hp : Free sep ps)
    (hq : Free sep qs) (hp₀ : "" ∉ ps) (hq₀ : "" ∉ qs)
    (h : (String.singleton sep).intercalate ps = (String.singleton sep).intercalate qs) :
    ps = qs := by
  have hnil : ∀ {l : List String}, Free sep l → "" ∉ l →
      (String.singleton sep).intercalate l = "" → l = [] := by
    intro l hl hl₀ hj
    by_contra hne
    have hone : l = [""] := by
      apply joined_inj hne (List.cons_ne_nil _ _) hl
      · simp [Free]
      · rw [hj, String.intercalate_singleton]
    exact hl₀ (by simp [hone])
  by_cases hps : ps = []
  · rw [hps, String.intercalate_nil] at h
    rw [hps, hnil hq hq₀ h.symm]
  · by_cases hqs : qs = []
    · rw [hqs, String.intercalate_nil] at h
      exact absurd (hnil hp hp₀ h) hps
    · exact joined_inj hps hqs hp hq h

/-- A part without the separator, the separator and a rest determine the part and the rest. -/
theorem part_inj {sep : Char} {a b r t : String} (ha : sep ∉ a.toList) (hb : sep ∉ b.toList)
    (h : a ++ String.singleton sep ++ r = b ++ String.singleton sep ++ t) : a = b ∧ r = t := by
  have hlists := congrArg String.toList h
  simp only [String.toList_append, String.toList_singleton, List.append_assoc,
    List.singleton_append] at hlists
  have hparts := append_sep_inj ha hb hlists
  exact ⟨String.ext hparts.1,String.ext hparts.2⟩

/-- So do a rest, the separator and a last part without the separator. -/
theorem last_part_inj {sep : Char} {a b r t : String} (hr : sep ∉ r.toList) (ht : sep ∉ t.toList)
    (h : a ++ String.singleton sep ++ r = b ++ String.singleton sep ++ t) : a = b ∧ r = t := by
  have hlists := congrArg String.toList h
  simp only [String.toList_append, String.toList_singleton, List.append_assoc,
    List.singleton_append] at hlists
  have hparts := append_sep_last_inj hr ht hlists
  exact ⟨String.ext hparts.1,String.ext hparts.2⟩

end Radar.Join
