import Mathlib.Data.List.DropRight
import Mathlib.Data.List.Infix
import Mathlib.Data.List.TakeWhile
import Mathlib.Data.Nat.Notation
import Mathlib.Data.Sum.Basic

/-!
# Scanning a text for a pattern

A pattern reads a match at the head of a text. A scan finds the matches from
left to right, none inside another. A text can be cut where no match can hold
the cut, and where no match starts inside another, replacing matches by matches
is seen by the next scan.
-/

set_option autoImplicit false

namespace Radar.Scan

variable {α μ ν : Type*}

/-- What is read is a prefix, and is read whatever follows it. -/
structure Pattern (α μ : Type*) where
  read : List α → Option μ
  text : μ → List α
  read_iff : ∀ s m, read s = some m ↔ text m <+: s
  text_ne_nil : ∀ m, text m ≠ []

namespace Pattern

variable (P : Pattern α μ)

/-- The scan after the next `n` characters, which belong to the last match. -/
def scanFrom : ℕ → List α → List (α ⊕ μ)
  | _, [] => []
  | n+1, _::s => scanFrom n s
  | 0, a::s =>
    match P.read (a::s) with
    | some m => .inr m::scanFrom ((P.text m).length-1) s
    | none => .inl a::scanFrom 0 s

def scan (s : List α) : List (α ⊕ μ) := P.scanFrom 0 s

/-- A scanned text with something else in the place of the matches. -/
def render (f : μ → List α) (ts : List (α ⊕ μ)) : List α :=
  ts.flatMap (Sum.elim (fun a => [a]) f)

def replaceAll (f : μ → List α) (s : List α) : List α := render f (P.scan s)

section Render

variable (f g : μ → List α)

@[simp] theorem render_nil : render f [] = [] := rfl

@[simp] theorem render_char (a : α) (ts : List (α ⊕ μ)) :
    render f (.inl a::ts) = a::render f ts := rfl

@[simp] theorem render_match (m : μ) (ts : List (α ⊕ μ)) :
    render f (.inr m::ts) = f m ++ render f ts := rfl

@[simp] theorem render_append (ts us : List (α ⊕ μ)) :
    render f (ts++us) = render f ts ++ render f us := List.flatMap_append

@[simp] theorem render_chars (s : List α) : render f (s.map .inl) = s := by
  induction s with
  | nil => rfl
  | cons a s ih => rw [List.map_cons, render_char, ih]

theorem render_map (h : μ → μ) (ts : List (α ⊕ μ)) :
    render f (ts.map (Sum.map id h)) = render (fun m => f (h m)) ts := by
  induction ts with
  | nil => rfl
  | cons t ts ih =>
    cases t with
    | inl a => rw [List.map_cons, Sum.map_inl, render_char, render_char, ih]; rfl
    | inr m => rw [List.map_cons, Sum.map_inr, render_match, render_match, ih]

variable {f g} in
theorem render_congr {ts : List (α ⊕ μ)} (h : ∀ m, .inr m ∈ ts → f m = g m) :
    render f ts = render g ts := by
  induction ts with
  | nil => rfl
  | cons t ts ih =>
    have hrest := ih fun m hm => h m (List.mem_cons_of_mem t hm)
    cases t with
    | inl a => rw [render_char, render_char, hrest]
    | inr m => rw [render_match, render_match, hrest, h m List.mem_cons_self]

end Render

section Edges

/-- Where the characters pass; a match does not. -/
def passes (p : α → Bool) : α ⊕ μ → Bool := Sum.elim p fun _ => false

/-- What is written for a match starts with a character that does not pass. -/
def Stops (p : α → Bool) (f : μ → List α) : Prop := ∀ m, ∃ a rest, f m = a::rest ∧ p a = false

variable {p : α → Bool} {f g : μ → List α}

theorem render_takeWhile (hf : Stops p f) (ts : List (α ⊕ μ)) :
    (render f ts).takeWhile p = render f (ts.takeWhile (passes p)) := by
  induction ts with
  | nil => rfl
  | cons t ts ih =>
    cases t with
    | inl a =>
      rw [render_char, List.takeWhile_cons, List.takeWhile_cons, ih]
      show _ = render f (if p a = true then _ else _)
      split_ifs <;> simp
    | inr m =>
      obtain ⟨a,rest,hm,ha⟩ := hf m
      rw [render_match, hm, List.cons_append, List.takeWhile_cons, ha]
      rfl

theorem render_dropWhile (hf : Stops p f) (ts : List (α ⊕ μ)) :
    (render f ts).dropWhile p = render f (ts.dropWhile (passes p)) := by
  induction ts with
  | nil => rfl
  | cons t ts ih =>
    cases t with
    | inl a =>
      rw [render_char, List.dropWhile_cons, List.dropWhile_cons, ih]
      show _ = render f (if p a = true then _ else _)
      split_ifs <;> simp
    | inr m =>
      obtain ⟨a,rest,hm,ha⟩ := hf m
      rw [render_match, hm, List.cons_append, List.dropWhile_cons, ha]
      exact congrArg (· ++ render f ts) hm.symm

/-- The characters before the first match do not depend on what is written for the matches. -/
theorem render_passing (ts : List (α ⊕ μ)) :
    render f (ts.takeWhile (passes p)) = render g (ts.takeWhile (passes p)) := by
  refine render_congr fun m hm => ?_
  have hpass : passes p (.inr m : α ⊕ μ) = true := List.mem_takeWhile_imp hm
  exact Bool.noConfusion hpass

theorem render_all (hf : Stops p f) (ts : List (α ⊕ μ)) :
    (render f ts).all p = ts.all (passes p) := by
  induction ts with
  | nil => rfl
  | cons t ts ih =>
    cases t with
    | inl a =>
      rw [render_char, List.all_cons, List.all_cons, ih]
      rfl
    | inr m =>
      obtain ⟨a,rest,hm,ha⟩ := hf m
      rw [render_match, hm, List.cons_append, List.all_cons, List.all_cons, ha]
      rfl

theorem render_reverse (f : μ → List α) (ts : List (α ⊕ μ)) :
    (render f ts).reverse = render (fun m => (f m).reverse) ts.reverse := by
  induction ts with
  | nil => rfl
  | cons t ts ih =>
    cases t with
    | inl a => simp [ih]
    | inr m => simp [ih]

theorem render_rdropWhile (hf : Stops p fun m => (f m).reverse) (ts : List (α ⊕ μ)) :
    (render f ts).rdropWhile p = render f (ts.rdropWhile (passes p)) := by
  rw [List.rdropWhile, List.rdropWhile, render_reverse, render_dropWhile hf, render_reverse]
  simp

end Edges

variable {P}

theorem scanFrom_drop (n : ℕ) (s : List α) : P.scanFrom n s = P.scan (s.drop n) := by
  induction s generalizing n with
  | nil =>
    rw [List.drop_nil]
    cases n <;> rfl
  | cons a s ih =>
    cases n with
    | zero => rfl
    | succ n => exact ih n

theorem scan_cons {a : α} {s : List α} (h : P.read (a::s) = none) :
    P.scan (a::s) = .inl a::P.scan s := by
  simp only [scan, scanFrom, h]

theorem scan_match (m : μ) (s : List α) : P.scan (P.text m ++ s) = .inr m::P.scan s := by
  have hread : P.read (P.text m ++ s) = some m := (P.read_iff _ _).mpr (List.prefix_append _ _)
  cases htext : P.text m with
  | nil => exact absurd htext (P.text_ne_nil m)
  | cons a t =>
    rw [htext, List.cons_append] at hread
    rw [List.cons_append]
    simp only [scan, scanFrom, hread]
    rw [scanFrom_drop, htext, List.length_cons, Nat.add_sub_cancel, List.drop_left]
    rfl

/-- A text is a match and a text, or a character at which none starts and a text. -/
theorem scan_induction {motive : List α → Prop} (nil : motive [])
    (hmatch : ∀ m s, motive s → motive (P.text m ++ s))
    (char : ∀ a s, P.read (a::s) = none → motive s → motive (a::s)) (s : List α) : motive s := by
  induction hn : s.length using Nat.strong_induction_on generalizing s with
  | _ n ih =>
    cases s with
    | nil => exact nil
    | cons a s =>
      cases hread : P.read (a::s) with
      | none =>
        refine char a s hread (ih s.length ?_ s rfl)
        rw [← hn, List.length_cons]
        omega
      | some m =>
        obtain ⟨t,ht⟩ := (P.read_iff _ _).mp hread
        rw [← ht]
        refine hmatch m t (ih t.length ?_ t rfl)
        have hpos := List.length_pos_iff.mpr (P.text_ne_nil m)
        rw [← hn, ← ht, List.length_append]
        omega

theorem render_scan (s : List α) : render P.text (P.scan s) = s := by
  induction s using P.scan_induction with
  | nil => rfl
  | hmatch m s ih => rw [scan_match, render_match, ih]
  | char a s hread ih => rw [scan_cons hread, render_char, ih]

/-- A character that is in no match cuts the scan. -/
theorem scan_cut {c : α} (hc : ∀ m, c ∉ P.text m) (s t : List α) :
    P.scan (s ++ c::t) = P.scan s ++ .inl c::P.scan t := by
  have hwithin {m : μ} {s : List α} (h : P.text m <+: s ++ c::t) : P.text m <+: s := by
    rcases List.prefix_or_prefix_of_prefix h (List.prefix_append s (c::t)) with hin | ⟨u,hu⟩
    · exact hin
    · rw [← hu, List.prefix_append_right_inj] at h
      cases u with
      | nil => rw [← hu, List.append_nil]
      | cons b u =>
        obtain rfl := (List.cons_prefix_cons.mp h).1
        exact absurd (hu ▸ List.mem_append_right s List.mem_cons_self) (hc m)
  induction s using P.scan_induction with
  | nil =>
    refine scan_cons ?_
    rw [Option.eq_none_iff_forall_ne_some]
    intro m hm
    exact P.text_ne_nil m (List.prefix_nil.mp (hwithin ((P.read_iff _ _).mp hm)))
  | hmatch m s ih => rw [List.append_assoc, scan_match, ih, scan_match, List.cons_append]
  | char a s hread ih =>
    have hnone : P.read (a::s ++ c::t) = none := by
      rw [Option.eq_none_iff_forall_ne_some]
      intro m hm
      have hin := (P.read_iff _ m).mpr (hwithin ((P.read_iff _ _).mp hm))
      cases hread.symm.trans hin
    rw [List.cons_append] at hnone ⊢
    rw [scan_cons hnone, ih, scan_cons hread, List.cons_append]

theorem scan_cuts {c : α} (hc : ∀ m, c ∉ P.text m) (n : ℕ) (s t : List α) :
    P.scan (s ++ (List.replicate (n+1) c ++ t)) =
      P.scan s ++ (List.replicate (n+1) (.inl c) ++ P.scan t) := by
  have hrest : ∀ n, P.scan (List.replicate n c ++ t) =
      List.replicate n (.inl c) ++ P.scan t := by
    intro n
    induction n with
    | zero => rfl
    | succ n ih =>
      rw [List.replicate_succ, List.replicate_succ, List.cons_append, List.cons_append, ← ih]
      exact scan_cut hc [] _
  rw [List.replicate_succ, List.cons_append, scan_cut hc, hrest, List.replicate_succ,
    List.cons_append]

/-- Nor does any character of a text before, if none of them is in a match. -/
theorem scan_outside {s : List α} (hs : ∀ c ∈ s, ∀ m, c ∉ P.text m) (t : List α) :
    P.scan (s++t) = s.map .inl ++ P.scan t := by
  induction s with
  | nil => rfl
  | cons a s ih =>
    have hcut := scan_cut (hs a List.mem_cons_self) [] (s++t)
    rw [List.cons_append, List.map_cons, List.cons_append,
      ← ih fun c hc => hs c (List.mem_cons_of_mem a hc)]
    exact hcut

/-- A text without a character that every match holds is scanned as it is. -/
theorem scan_free {c : α} (hc : ∀ m, c ∈ P.text m) {s : List α} (hs : c ∉ s) :
    P.scan s = s.map .inl := by
  induction s with
  | nil => rfl
  | cons a s ih =>
    rw [scan_cons, ih (fun h => hs (List.mem_cons_of_mem a h)), List.map_cons]
    rw [Option.eq_none_iff_forall_ne_some]
    exact fun m hm => hs (((P.read_iff _ _).mp hm).subset (hc m))

/-- No match starts inside another. -/
def Separate (P : Pattern α μ) : Prop :=
  ∀ m x y, P.text m = x++y → x ≠ [] → y ≠ [] → ∀ k, ¬y <+: P.text k ∧ ¬P.text k <+: y

/-- Replacing the later matches does not make an earlier one. -/
theorem prefix_of_replaced (hP : P.Separate) (f : μ → μ) {m : μ} (s : List α) {x : List α}
    (hx : x ≠ []) (h : P.text m <+: x ++ render (fun k => P.text (f k)) (P.scan s)) :
    P.text m <+: x ++ s := by
  induction s using P.scan_induction generalizing x with
  | nil => exact h
  | char a s hread ih =>
    rw [scan_cons hread, render_char, List.append_cons] at h
    rw [List.append_cons]
    exact ih (by simp) h
  | hmatch k s ih =>
    rw [scan_match, render_match] at h
    rcases List.prefix_or_prefix_of_prefix h (List.prefix_append x _) with hin | ⟨y,hy⟩
    · exact hin.trans (List.prefix_append x _)
    · by_cases hnil : y = []
      · rw [← hy, hnil, List.append_nil]
        exact List.prefix_append x _
      · rw [← hy, List.prefix_append_right_inj] at h
        have hseparate := hP m x y hy.symm hx hnil (f k)
        rcases List.prefix_or_prefix_of_prefix h (List.prefix_append (P.text (f k)) _) with hy | hy
        · exact absurd hy hseparate.1
        · exact absurd hy hseparate.2

/-- The next scan sees the matches that the matches were replaced by. -/
theorem scan_replaced (hP : P.Separate) (f : μ → μ) (s : List α) :
    P.scan (render (fun m => P.text (f m)) (P.scan s)) = (P.scan s).map (Sum.map id f) := by
  induction s using P.scan_induction with
  | nil => rfl
  | hmatch m s ih => rw [scan_match, render_match, scan_match, ih, List.map_cons, Sum.map_inr]
  | char a s hread ih =>
    have hnone : P.read (a::render (fun m => P.text (f m)) (P.scan s)) = none := by
      rw [Option.eq_none_iff_forall_ne_some]
      intro m hm
      have hin : P.text m <+: [a] ++ s :=
        prefix_of_replaced hP f s (by simp) ((P.read_iff _ _).mp hm)
      cases hread.symm.trans ((P.read_iff _ m).mpr hin)
    rw [scan_cons hread, render_char, scan_cons hnone, ih, List.map_cons, Sum.map_inl]
    rfl

/-- Replacing the matches of a narrower pattern is replacing those of the wider one, and leaving
the others as they are. -/
theorem replaceAll_narrow (hP : P.Separate) {Q : Pattern α ν} {wide : ν → μ}
    (hwide : ∀ k, Q.text k = P.text (wide k)) {f : ν → List α} {g : μ → List α}
    (hf : ∀ k, g (wide k) = f k) (hg : ∀ m, (∀ k, wide k ≠ m) → g m = P.text m) (s : List α) :
    Q.replaceAll f s = P.replaceAll g s := by
  induction s using P.scan_induction with
  | nil => rfl
  | char a s hread ih =>
    have hnone : Q.read (a::s) = none := by
      rw [Option.eq_none_iff_forall_ne_some]
      intro k hk
      have hin := (Q.read_iff _ _).mp hk
      rw [hwide] at hin
      exact nomatch hread.symm.trans ((P.read_iff _ _).mpr hin)
    rw [replaceAll, replaceAll, scan_cons hread, scan_cons hnone, render_char, render_char]
    exact congrArg (a::·) ih
  | hmatch m s ih =>
    by_cases hm : ∃ k, wide k = m
    · obtain ⟨k,rfl⟩ := hm
      rw [replaceAll, replaceAll, scan_match, ← hwide, scan_match, render_match, render_match, hf]
      exact congrArg (f k ++ ·) ih
    · have hother : ∀ k, wide k ≠ m := fun k hk => hm ⟨k,hk⟩
      -- No match of the narrower pattern starts in the one that is left.
      have hskip : ∀ y x, P.text m = x++y → Q.replaceAll f (y++s) = y ++ Q.replaceAll f s := by
        intro y
        induction y with
        | nil => exact fun _ _ => rfl
        | cons c y ihy =>
          intro x hx
          have hnone : Q.read (c::(y++s)) = none := by
            rw [Option.eq_none_iff_forall_ne_some]
            intro k hk
            have hin := (Q.read_iff _ _).mp hk
            rw [hwide, ← List.cons_append] at hin
            cases x with
            | nil =>
              have hmine : P.text m <+: c::y ++ s := by
                rw [hx]
                exact List.prefix_append _ _
              rw [← P.read_iff] at hin hmine
              exact hother k (Option.some.inj (hin.symm.trans hmine))
            | cons b x =>
              have hseparate := hP m (b::x) (c::y) hx (by simp) (by simp) (wide k)
              rcases List.prefix_or_prefix_of_prefix hin (List.prefix_append (c::y) s) with h | h
              · exact hseparate.2 h
              · exact hseparate.1 h
          rw [List.cons_append, replaceAll, scan_cons hnone, render_char, List.cons_append]
          exact congrArg (c::·) (ihy (x++[c]) (by rw [hx, List.append_assoc]; rfl))
      rw [hskip (P.text m) [] rfl, ih, replaceAll, replaceAll, scan_match, render_match,
        hg m hother]

end Pattern

end Radar.Scan
