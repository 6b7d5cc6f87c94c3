import Radar.Base.Runes
import Radar.Story.Markers

/-!
# Fenced blocks and markers of an answer

`jsonBlockRe` and `anyStoryMarkerRe` as readers of a text's head. A fenced block
is the shortest one: no brace inside it is followed by the closing fence.
-/

set_option autoImplicit false

namespace Radar.Investigation

open Radar.Scan Radar.Runes Radar.Story

def fence : Text := "```".toList

def jsonFence : Text := "```json".toList

/-- `\s*```` -/
def startsFence (s : Text) : Bool := fence <+: s.dropWhile isBlank

/-- Some brace of the text is followed by a fence. -/
def closesFence : Text → Bool
  | [] => false
  | c::s => (c = '}' && startsFence s) || closesFence s

/-- ```` ```json\s*(\{.*?\})\s*``` ````, with the text between the braces. -/
structure Fenced where
  opened : Text
  body : Text
  closed : Text
  opened_blank : opened.all isBlank = true
  closed_blank : closed.all isBlank = true
  shortest : closesFence body = false
  deriving DecidableEq

/-- The capture: the object between the fences. -/
def Fenced.block (f : Fenced) : Text := '{'::(f.body++['}'])

def Fenced.text (f : Fenced) : Text :=
  jsonFence++(f.opened++ '{'::(f.body++ '}'::(f.closed++fence)))

/-- What comes before the first brace that a fence follows. -/
def readBody : Text → Option Text
  | [] => none
  | c::s => if c = '}' ∧ startsFence s then some [] else (readBody s).map (c::·)

/-- `jsonBlockRe` at the head of a text. -/
def readFenced (s : Text) : Option Fenced :=
  match after jsonFence s with
  | none => none
  | some s =>
    match after ['{'] (s.dropWhile isBlank) with
    | none => none
    | some t =>
      match readBody t with
      | none => none
      | some body =>
        if h : closesFence body = false then
          some ⟨s.takeWhile isBlank,body,(t.drop (body.length+1)).takeWhile isBlank,
            by simp [List.all_takeWhile],by simp [List.all_takeWhile],h⟩
        else none

section Blocks

/-- A character that a text does not hold bounds it as a prefix. -/
theorem prefix_of_bounded {x : Char} {p s t : Text} (hx : x ∉ p) (h : p <+: s++x::t) : p <+: s := by
  have hbound : s++[x] <+: s++x::t := (List.prefix_append_right_inj s).mpr ⟨t,rfl⟩
  rcases List.prefix_or_prefix_of_prefix h hbound with hshort | hlong
  · rcases List.prefix_concat_iff.mp hshort with rfl | hin
    · exact absurd (by simp) hx
    · exact hin
  · exact absurd (hlong.subset (by simp)) hx

theorem startsFence_brace (s t : Text) : startsFence (s++ '}'::t) = startsFence s := by
  unfold startsFence
  induction s with
  | nil => simp [fence, isBlank]
  | cons c s ih =>
    by_cases hc : isBlank c = true
    · rw [List.cons_append, List.dropWhile_cons_of_pos hc, List.dropWhile_cons_of_pos hc, ih]
    · rw [List.cons_append, List.dropWhile_cons_of_neg hc, List.dropWhile_cons_of_neg hc,
        decide_eq_decide, ← List.cons_append]
      constructor
      · exact prefix_of_bounded (by decide)
      · exact fun h => h.trans (List.prefix_append _ _)

theorem readBody_iff {s body : Text} : readBody s = some body ↔
    closesFence body = false ∧ ∃ t, startsFence t = true ∧ s = body++ '}'::t := by
  induction s generalizing body with
  | nil => simp [readBody]
  | cons c s ih =>
    by_cases hclose : c = '}' ∧ startsFence s = true
    · rw [readBody, if_pos hclose]
      constructor
      · intro h
        obtain rfl := Option.some.inj h
        exact ⟨rfl,s,hclose.2,by rw [hclose.1, List.nil_append]⟩
      · rintro ⟨hfree,t,ht,heq⟩
        cases body with
        | nil => rfl
        | cons d body =>
          obtain ⟨rfl,hs⟩ := List.cons.inj heq
          obtain rfl : s = body++ '}'::t := hs
          rw [startsFence_brace] at hclose
          simp [closesFence, hclose] at hfree
    · rw [readBody, if_neg hclose, Option.map_eq_some_iff]
      constructor
      · rintro ⟨rest,hrest,rfl⟩
        obtain ⟨hfree,t,ht,rfl⟩ := ih.mp hrest
        rw [startsFence_brace] at hclose
        refine ⟨?_,t,ht,rfl⟩
        rw [closesFence, hfree, Bool.or_false]
        simpa using hclose
      · rintro ⟨hfree,t,ht,heq⟩
        cases body with
        | nil =>
          obtain ⟨rfl,rfl⟩ := List.cons.inj heq
          exact absurd ⟨rfl,ht⟩ hclose
        | cons d body =>
          obtain ⟨rfl,rfl⟩ := List.cons.inj heq
          rw [closesFence, Bool.or_eq_false_iff] at hfree
          exact ⟨body,ih.mpr ⟨hfree.2,t,ht,rfl⟩,rfl⟩

/-- A text after a repetition that stops before it. -/
theorem dropWhile_stop {p : Char → Bool} {s t : Text} (hs : s.all p = true)
    (ht : ∀ c, t.head? = some c → p c = false) : (s++t).dropWhile p = t := by
  have hsplit := List.takeWhile_append_dropWhile (p := p) (l := s++t)
  rw [takeWhile_stop hs ht] at hsplit
  exact List.append_cancel_left hsplit

theorem readFenced_iff (s : Text) (f : Fenced) : readFenced s = some f ↔ f.text <+: s := by
  constructor
  · intro h
    unfold readFenced at h
    split at h
    · nomatch h
    · rename_i s hs
      split at h
      · nomatch h
      · rename_i t ht
        split at h
        · nomatch h
        · rename_i body hbody
          split_ifs at h with hfree
          obtain rfl := Option.some.inj h
          obtain ⟨_,u,hu,rfl⟩ := readBody_iff.mp hbody
          have hdrop : (body++ '}'::u).drop (body.length+1) = u := by
            rw [List.append_cons, List.drop_left' (by simp)]
          have hclosed : u.takeWhile isBlank++fence <+: u := by
            have hrest := (List.prefix_append_right_inj (u.takeWhile isBlank)).mpr
              (of_decide_eq_true hu)
            rwa [List.takeWhile_append_dropWhile] at hrest
          have hopened : s.takeWhile isBlank++ '{'::(body++ '}'::u) = s := by
            have hsplit := List.takeWhile_append_dropWhile (p := isBlank) (l := s)
            rwa [after_iff.mp ht] at hsplit
          rw [after_iff.mp hs, Fenced.text, List.prefix_append_right_inj]
          simp only [hdrop]
          nth_rewrite 2 [← hopened]
          rw [List.prefix_append_right_inj, List.prefix_cons_inj, List.prefix_append_right_inj,
            List.prefix_cons_inj]
          exact hclosed
  · rintro ⟨r,rfl⟩
    obtain ⟨opened,body,closed,hopened,hclosed,hfree⟩ := f
    have hafter : after jsonFence (Fenced.text ⟨opened,body,closed,hopened,hclosed,hfree⟩++r) =
        some (opened++ '{'::(body++ '}'::(closed++(fence++r)))) :=
      after_iff.mpr (by simp [Fenced.text])
    have hbrace : ∀ c, ('{'::(body++ '}'::(closed++(fence++r)))).head? = some c →
        isBlank c = false := by
      intro c hc
      obtain rfl := Option.some.inj hc
      rfl
    have htick : ∀ c, (fence++r).head? = some c → isBlank c = false := by
      intro c hc
      obtain rfl := Option.some.inj hc
      rfl
    have hcapture : after ['{'] ('{'::(body++ '}'::(closed++(fence++r)))) =
        some (body++ '}'::(closed++(fence++r))) := after_iff.mpr rfl
    have hfence : startsFence (closed++(fence++r)) = true := by
      rw [startsFence, dropWhile_stop hclosed htick]
      exact decide_eq_true (List.prefix_append _ _)
    have hbody : readBody (body++ '}'::(closed++(fence++r))) = some body :=
      readBody_iff.mpr ⟨hfree,_,hfence,rfl⟩
    have hdrop : (body++ '}'::(closed++(fence++r))).drop (body.length+1) =
        closed++(fence++r) := by
      rw [List.append_cons, List.drop_left' (by simp)]
    simp only [readFenced, hafter, dropWhile_stop hopened hbrace, takeWhile_stop hopened hbrace,
      hcapture, hbody, hdrop, takeWhile_stop hclosed htick]
    exact dif_pos hfree

end Blocks

def jsonBlockRe : Pattern Char Fenced where
  read := readFenced
  text := Fenced.text
  read_iff := readFenced_iff
  text_ne_nil _ := nofun

/-- ` ?\[\[radar:[^\]]*\]\]` -/
structure AnyMarker where
  spaced : Bool
  body : Text
  free : body.all (· ≠ ']') = true
  deriving DecidableEq

def anyOpening (spaced : Bool) : Text := (if spaced then " [[radar:" else "[[radar:").toList

def AnyMarker.text (m : AnyMarker) : Text := anyOpening m.spaced++(m.body++"]]".toList)

def readAnyBody (spaced : Bool) (s : Text) : Option AnyMarker :=
  if "]]".toList <+: s.dropWhile (· ≠ ']') then
    some ⟨spaced,s.takeWhile (· ≠ ']'),by simp [List.all_takeWhile]⟩
  else none

/-- `anyStoryMarkerRe` at the head of a text. -/
def readAnyMarker (s : Text) : Option AnyMarker :=
  match after (anyOpening true) s with
  | some s => readAnyBody true s
  | none =>
    match after (anyOpening false) s with
    | some s => readAnyBody false s
    | none => none

section AnyMarkers

theorem readAnyBody_iff {spaced : Bool} {s : Text} {m : AnyMarker} :
    readAnyBody spaced s = some m ↔ m.spaced = spaced ∧ m.body++"]]".toList <+: s := by
  unfold readAnyBody
  constructor
  · intro h
    split_ifs at h with hclose
    obtain rfl := Option.some.inj h
    have hrest := (List.prefix_append_right_inj (s.takeWhile (· ≠ ']'))).mpr hclose
    rw [List.takeWhile_append_dropWhile] at hrest
    exact ⟨rfl,hrest⟩
  · rintro ⟨rfl,r,rfl⟩
    have hstop : ∀ c, ("]]".toList++r).head? = some c → decide (c ≠ ']') = false := by
      intro c hc
      obtain rfl := Option.some.inj hc
      rfl
    rw [List.append_assoc]
    simp only [dropWhile_stop m.free hstop, takeWhile_stop m.free hstop]
    exact if_pos (List.prefix_append _ _)

theorem readAnyMarker_iff (s : Text) (m : AnyMarker) :
    readAnyMarker s = some m ↔ m.text <+: s := by
  have hother (b : Bool) (t : Text) : after (anyOpening !b) (anyOpening b++t) = none := by
    rw [Option.eq_none_iff_forall_ne_some]
    intro u hu
    cases b with
    | true => exact nomatch (after_iff.mp hu)
    | false => exact nomatch (after_iff.mp hu)
  constructor
  · intro h
    unfold readAnyMarker at h
    split at h
    · rename_i t ht
      obtain ⟨hspaced,hbody⟩ := readAnyBody_iff.mp h
      rw [after_iff.mp ht, AnyMarker.text, hspaced, List.prefix_append_right_inj]
      exact hbody
    · split at h
      · rename_i t ht
        obtain ⟨hspaced,hbody⟩ := readAnyBody_iff.mp h
        rw [after_iff.mp ht, AnyMarker.text, hspaced, List.prefix_append_right_inj]
        exact hbody
      · nomatch h
  · rintro ⟨r,rfl⟩
    obtain ⟨spaced,body,hfree⟩ := m
    have hbody : readAnyBody spaced (body++("]]".toList++r)) = some ⟨spaced,body,hfree⟩ :=
      readAnyBody_iff.mpr ⟨rfl,r,List.append_assoc _ _ _⟩
    have htext : AnyMarker.text ⟨spaced,body,hfree⟩++r =
        anyOpening spaced++(body++("]]".toList++r)) := by simp [AnyMarker.text]
    have hmine : after (anyOpening spaced) (anyOpening spaced++(body++("]]".toList++r))) =
        some (body++("]]".toList++r)) := after_iff.mpr rfl
    rw [htext]
    cases spaced with
    | true => simp only [readAnyMarker, hmine, hbody]
    | false =>
      have hnone := hother false (body++("]]".toList++r))
      rw [Bool.not_false] at hnone
      simp only [readAnyMarker, hnone, hmine, hbody]

end AnyMarkers

def anyStoryMarkerRe : Pattern Char AnyMarker where
  read := readAnyMarker
  text := AnyMarker.text
  read_iff := readAnyMarker_iff
  text_ne_nil m := by
    refine List.append_ne_nil_of_left_ne_nil ?_ _
    cases m.spaced <;> decide

end Radar.Investigation
