import Radar.Drift.DottedPaths

/-!
# Drift entries as an exact patch

The entries name the places where the trees first differ and turn the desired
tree into the live one. Ignoring is exact when keys and reference tokens are
plain, and in general as long as the dotted names are not ambiguous.
-/

set_option autoImplicit false

namespace Radar.Drift
open Radar.JsonTree Radar.JsonTree.Value Radar.Runes

section Decode

theorem replaceTilde_ne {digit new c : Char} (h : c ≠ '~') (s : Text) :
    replaceTilde digit new (c::s) = c::replaceTilde digit new s := by
  rw [replaceTilde]
  exact fun _ _ heq _ => h heq

/-- Reading the escapes of slashes leaves those of tildes. -/
theorem replaceTilde_slash (s : Text) : replaceTilde '1' '/' (s.flatMap escapeToken) =
    s.flatMap fun c => if c = '~' then "~0".toList else [c] := by
  induction s with
  | nil => rfl
  | cons c s ih =>
    rw [List.flatMap_cons, List.flatMap_cons]
    by_cases htilde : c = '~'
    · subst htilde
      show replaceTilde '1' '/' ('~':: '0'::s.flatMap escapeToken) = _
      rw [replaceTilde, if_neg (by decide), replaceTilde_ne (by decide), ih]
      rfl
    · by_cases hslash : c = '/'
      · subst hslash
        show replaceTilde '1' '/' ('~':: '1'::s.flatMap escapeToken) = _
        rw [replaceTilde, if_pos rfl, ih]
        rfl
      · rw [escapeToken, if_neg htilde, if_neg hslash, if_neg htilde, List.singleton_append,
          List.singleton_append, replaceTilde_ne htilde, ih]

theorem decode_escaped (s : Text) : decodeJSONPointerSegment (s.flatMap escapeToken) = s := by
  rw [decodeJSONPointerSegment, replaceTilde_slash]
  induction s with
  | nil => rfl
  | cons c s ih =>
    rw [List.flatMap_cons]
    by_cases htilde : c = '~'
    · subst htilde
      show replaceTilde '0' '~' ('~':: '0'::s.flatMap _) = _
      rw [replaceTilde, if_pos rfl, ih]
    · rw [if_neg htilde, List.singleton_append, replaceTilde_ne htilde, ih]

theorem slash_not_mem_escaped (s : Text) : '/' ∉ s.flatMap escapeToken := by
  intro h
  obtain ⟨c,-,hc⟩ := List.mem_flatMap.mp h
  unfold escapeToken at hc
  split_ifs at hc with htilde hslash
  · simp at hc
  · simp at hc
  · exact hslash (List.mem_singleton.mp hc).symm

theorem pointerSegments_text {tokens : List Text} (h : tokens ≠ []) :
    pointerSegments (pointerText tokens) = tokens := by
  have hjoin : ∀ t ts, pointerText (t::ts) =
      '/'::[ '/'].intercalate ((t::ts).map fun t => t.flatMap escapeToken) := by
    intro t ts
    induction ts generalizing t with
    | nil => simp [pointerText]
    | cons u ts ih =>
      rw [List.map_cons, List.map_cons, List.intercalate_cons_cons, ← List.map_cons, pointerText,
        List.flatMap_cons, ← pointerText, ih]
      simp
  cases tokens with
  | nil => exact absurd rfl h
  | cons t ts =>
    rw [pointerSegments, hjoin, trimPrefix, if_pos rfl, List.splitOn_intercalate, List.map_map]
    · conv_rhs => rw [← List.map_id (t::ts)]
      exact List.map_congr_left fun s _ => decode_escaped s
    · intro l hl
      obtain ⟨s,-,rfl⟩ := List.mem_map.mp hl
      exact slash_not_mem_escaped s
    · simp

end Decode

section Plain

/-- No dot, and no number in brackets. -/
def Plain (s : Text) : Prop := '.' ∉ s ∧ ∀ ds, isAllDigits ds = true → s ≠ '['::(ds++[']'])

theorem digits_no_dot {s : Text} (h : isAllDigits s = true) : '.' ∉ s := by
  intro hdot
  rw [isAllDigits, Bool.and_eq_true, List.all_eq_true] at h
  exact absurd (h.2 '.' hdot) (by decide)

theorem segmentNames_plain {s : Text} (h : '.' ∉ s) : segmentNames s = [segmentText s] := by
  rw [segmentNames, segmentText]
  split_ifs with hdigits
  · apply List.splitOn_eq_singleton
    simp [h]
  · exact List.splitOn_eq_singleton h

theorem flatMap_names {ss : List Text} (h : ∀ s ∈ ss, Plain s) :
    ss.flatMap segmentNames = ss.map segmentText := by
  induction ss with
  | nil => rfl
  | cons s ss ih =>
    rw [List.flatMap_cons, segmentNames_plain (h s List.mem_cons_self).1,
      ih fun t ht => h t (List.mem_cons_of_mem s ht)]
    rfl

theorem segmentText_inj {s t : Text} (hs : Plain s) (ht : Plain t)
    (h : segmentText s = segmentText t) : s = t := by
  unfold segmentText at h
  split_ifs at h with hds hdt hdt
  · exact List.append_cancel_right (List.cons.inj h).2
  · exact absurd h.symm (ht.2 s hds)
  · exact absurd h (hs.2 t hdt)
  · exact h

theorem names_prefix_iff {ss ts : List Text} (hs : ∀ s ∈ ss, Plain s) (ht : ∀ t ∈ ts, Plain t) :
    ss.map segmentText <+: ts.map segmentText ↔ ss <+: ts := by
  induction ss generalizing ts with
  | nil => simp
  | cons s ss ih =>
    cases ts with
    | nil => simp
    | cons t ts =>
      rw [List.map_cons, List.map_cons, List.cons_prefix_cons, List.cons_prefix_cons,
        ih (fun s hs' => hs s (List.mem_cons_of_mem _ hs')) fun t ht' => ht t (List.mem_cons_of_mem _ ht')]
      apply and_congr_left
      intro _
      constructor
      · exact segmentText_inj (hs s List.mem_cons_self) (ht t List.mem_cons_self)
      · exact congrArg segmentText

theorem isAllDigits_index (i : ℕ) : isAllDigits (indexText i) = true := by
  rw [isAllDigits, Bool.and_eq_true, Bool.not_eq_true', List.isEmpty_eq_false_iff, List.all_eq_true]
  refine ⟨Decimal.nat_text_ne_nil i,fun c hc => ?_⟩
  have hdigit := Decimal.nat_text_digit hc
  rw [Char.isDigit, Bool.and_eq_true, decide_eq_true_iff, decide_eq_true_iff] at hdigit
  rw [Bool.not_eq_true', Bool.or_eq_false_iff, decide_eq_false_iff_not, decide_eq_false_iff_not]
  exact ⟨not_lt.mpr hdigit.1,not_lt.mpr hdigit.2⟩

theorem plain_of_digits {s : Text} (h : isAllDigits s = true) : Plain s := by
  refine ⟨digits_no_dot h,fun ds _ hs => ?_⟩
  rw [hs, isAllDigits, Bool.and_eq_true, List.all_eq_true] at h
  exact absurd (h.2 '[' List.mem_cons_self) (by decide)

end Plain

section Places

variable {desired live : Value}

theorem fits_of_differ {t : Token} {p : Place} (h : FirstDiffer desired live (t::p)) :
    desired.Fits t := by
  obtain ⟨hroot,hchild⟩ := firstDiffer_cons.mp h
  rcases not_clash_cases hroot with ⟨hd,hl⟩ | ⟨-,-,hkind | rfl⟩
  · exact absurd h (not_differ_nilish hd hl (t::p))
  · exact Clash.fits hkind h.1
  · exact absurd hchild (not_differ_self (desired.child t) p)

/-- A key and an index are not met at one place. -/
theorem places_inj {p q : Place} (hp : FirstDiffer desired live p) (hq : FirstDiffer desired live q)
    (h : p.map tokenText = q.map tokenText) : p = q := by
  induction p generalizing q desired live with
  | nil =>
    cases q with
    | nil => rfl
    | cons s q => nomatch h
  | cons t p ih =>
    cases q with
    | nil => nomatch h
    | cons s q =>
      obtain ⟨htext,htail⟩ := List.cons.inj h
      have htok : t = s := by
        have ht := fits_of_differ hp
        have hs := fits_of_differ hq
        cases desired <;> cases t <;> first | exact ht.elim | (cases s <;> first | exact hs.elim | skip)
        case obj.key.key => exact congrArg Token.key htext
        case arr.index.index i j =>
          exact congrArg Token.index (Decimal.nat_text_inj (String.ext htext))
      subst htok
      rw [ih (firstDiffer_cons.mp hp).2 (firstDiffer_cons.mp hq).2 htail]

/-- The keys on the way to a difference and the reference tokens are plain; a pointer does not
start with an empty token and has no white space around it. -/
structure PlainTokens (desired live : Value) (pointers : List (List Text)) : Prop where
  keys : ∀ p, FirstDiffer desired live p → ∀ k, Token.key k ∈ p → Plain k
  tokens : ∀ tokens ∈ pointers, (∃ t ∈ tokens.head?, t ≠ []) ∧ (∀ t ∈ tokens, Plain t) ∧
    trimSpace (pointerText tokens) = pointerText tokens

theorem PlainTokens.unambiguous {pointers : List (List Text)}
    (h : PlainTokens desired live pointers) : Unambiguous desired live pointers := by
  have hplain : ∀ p, FirstDiffer desired live p → ∀ s ∈ p.map tokenText, Plain s := by
    intro p hp s hs
    obtain ⟨t,ht,rfl⟩ := List.mem_map.mp hs
    cases t with
    | key k => exact h.keys p hp k ht
    | index i => exact plain_of_digits (isAllDigits_index i)
  have hnames : ∀ p, FirstDiffer desired live p →
      placeNames p = root::(p.map tokenText).map segmentText := by
    intro p hp
    rw [placeNames, flatMap_names (hplain p hp)]
  constructor
  · intro p q hp hq heq
    rw [hnames p hp, hnames q hq, List.cons.injEq] at heq
    apply places_inj hp hq
    have hle := (names_prefix_iff (hplain p hp) (hplain q hq)).mp (heq.2 ▸ List.prefix_refl _)
    exact hle.eq_of_length (by simpa using congrArg List.length heq.2)
  · intro p hp
    apply exists_congr
    intro tokens
    apply and_congr_right
    intro hmem
    obtain ⟨⟨t,hhead,ht⟩,hall,htrim⟩ := h.tokens tokens hmem
    cases tokens with
    | nil => nomatch hhead
    | cons u us =>
      obtain rfl : u = t := Option.some.inj hhead
      have hempty : u.isEmpty = false := by simpa using ht
      have hspell : spelledNames (u::us) = u::us.map segmentText := by
        rw [spelledNames, List.dropWhile_cons_of_neg (by simp [hempty])]
        show u.splitOn '.'++us.flatMap segmentNames = u::us.map segmentText
        rw [List.splitOn_eq_singleton (hall u List.mem_cons_self).1,
          flatMap_names fun s hs => hall s (List.mem_cons_of_mem u hs)]
        rfl
      have hne : pointerText (u::us) ≠ [] := by simp [pointerText]
      rw [Hides, htrim, pointerSegments_text (List.cons_ne_nil u us), hspell, hnames p hp, placeTokens,
        List.cons_prefix_cons, List.cons_prefix_cons,
        names_prefix_iff (fun s hs => hall s (List.mem_cons_of_mem u hs)) (hplain p hp)]
      exact ⟨fun h => h.2,fun h => ⟨hne,h⟩⟩

end Places

section Main

variable {range : Ranging}

/-- The entries are those of the incomparable places outside of which the trees agree, they
say which side holds a value there, and putting the live values there gives the live tree. The
paths are distinct and ignoring is exact just as long as the dotted names are not ambiguous, as
when keys and reference tokens are plain. -/
theorem drift_patch (hrange : range.Fair) (desired live : Value) (pointers : List (List Text)) :
    ∃ places entries, entries = diffValues range root desired live ∧
      List.Forall₂ (Tells root desired live) places entries ∧
      (places.Pairwise fun p q => ¬p <+: q ∧ ¬q <+: p) ∧
      (∀ q, (∀ p ∈ places, ¬p <+: q ∧ ¬q <+: p) → Same (desired.get q) (live.get q)) ∧
      Same (desired.patch (List.zipWith (driftEdit live) places entries)) live ∧
      (IgnoresExactly pointers places entries ↔ Unambiguous desired live pointers) ∧
      (PlainTokens desired live pointers → Unambiguous desired live pointers) := by
  obtain ⟨places,hlists,heq⟩ := diffValues_lists hrange root desired live
  refine ⟨places,places.map (entryAt root desired live),heq.symm,?_,?_,?_,?_,?_,?_⟩
  · rw [List.forall₂_map_right_iff, List.forall₂_same]
    exact fun p hp => entryAt_tells root ((hlists.2 p).mp hp)
  · apply hlists.1.imp_of_mem
    intro p q hp hq hne
    have hfp := (hlists.2 p).mp hp
    have hfq := (hlists.2 q).mp hq
    exact ⟨fun h => hne (hfp.eq_of_above hfq h),fun h => hne (hfq.eq_of_above hfp h).symm⟩
  · exact fun q hq => same_get_of_away fun p hp => hq p ((hlists.2 p).mpr hp)
  · rw [List.zipWith_map_right, List.zipWith_self]
    exact patch_entries hlists
  · exact ignoresExactly_iff hlists
  · exact PlainTokens.unambiguous

theorem drift_patch_label : ∃ places entries, entries = diffValues (fun _ keys => keys) root
      (.obj [("app".toList,.str "web".toList)]) (.obj [("app".toList,.str "api".toList)]) ∧
    (IgnoresExactly [["spec".toList,"app".toList]] places entries ↔
      Unambiguous (.obj [("app".toList,.str "web".toList)]) (.obj [("app".toList,.str "api".toList)])
        [["spec".toList,"app".toList]]) := by
  obtain ⟨places,entries,heq,-,-,-,-,hiff,-⟩ := @drift_patch (fun _ keys => keys)
    (fun _ keys => List.Perm.refl keys) (.obj [("app".toList,.str "web".toList)])
    (.obj [("app".toList,.str "api".toList)]) [["spec".toList,"app".toList]]
  exact ⟨places,entries,heq,hiff⟩

/-- Ignoring the key `a` hides the drift of the key `a.b`. -/
theorem ignoring_hides_other_key :
    let desired := Value.obj [("a.b".toList,.str "x".toList)]
    let live := Value.obj [("a.b".toList,.str "y".toList)]
    let place := [Token.key "a.b".toList]
    let entries := diffValues (fun _ keys => keys) root desired live
    entries = [entryAt root desired live place] ∧
      Tells root desired live place (entryAt root desired live place) ∧
      ¬Addressed [["spec".toList,"a".toList]] place ∧
      filterIgnoredPaths entries [pointerText ["spec".toList,"a".toList]] = [] := by
  intro desired live place entries
  have hfirst : FirstDiffer desired live place := by
    refine firstDiffer_cons.mpr ⟨?_,firstDiffer_nil.mpr (.inr ⟨rfl,rfl,id,?_⟩)⟩
    · exact not_clash_of_sameKind rfl rfl trivial
    · exact fun h => absurd (Value.str.inj h) (by decide)
  have hentries : entries = [entryAt root desired live place] := by
    have hne : jsonString (.str "x".toList) ≠ jsonString (.str "y".toList) := fun h =>
      absurd (Value.str.inj (jsonString_inj id h)) (by decide)
    have hkeys : unionKeys [("a.b".toList,.str "x".toList)] [("a.b".toList,.str "y".toList)] =
        ["a.b".toList] := by
      rw [unionKeys, List.map_singleton, List.map_singleton]
      decide
    have hleaf : diffValues (Ranging.below (fun _ keys => keys) (.key "a.b".toList))
        (joinPath root "a.b".toList) (.str "x".toList) (.str "y".toList) =
          [entryAt root desired live place] := by
      unfold diffValues
      rw [if_neg (by decide), if_neg (by decide), if_neg (by decide)]
      exact if_neg hne
    show diffValues (fun _ keys => keys) root desired live = [entryAt root desired live place]
    unfold diffValues
    rw [if_neg (by decide), if_neg (by decide), if_neg (by decide)]
    show (unionKeys [("a.b".toList,.str "x".toList)] [("a.b".toList,.str "y".toList)]).flatMap _ = _
    rw [hkeys, List.flatMap_singleton]
    exact hleaf
  refine ⟨hentries,entryAt_tells root hfirst,by decide,?_⟩
  rw [hentries]
  have hfilter := filterIgnoredPaths_eq (entryAt_path desired live root)
    [place] [pointerText ["spec".toList,"a".toList]]
  have hnone : ([place].filter fun p => ¬∃ pointer ∈ [pointerText ["spec".toList,"a".toList]],
      Hides pointer p) = [] := by decide
  rw [hnone] at hfilter
  exact hfilter

end Main

end Radar.Drift
