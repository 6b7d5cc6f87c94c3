import Mathlib.Data.List.Basic
import Mathlib.Data.List.Lex
import Mathlib.Data.List.Nodup

/-!
# Trees of JSON

Values with the places in them. A place is a list of keys and indexes; what is
missing is read as null. Trees are compared with null, the empty text, the empty
list and the empty object taken for one another, and they can be edited at a
place.
-/

set_option autoImplicit false

namespace Radar.JsonTree

abbrev Text := List Char

def numberStarts : List Char := [ '-', '0', '1', '2', '3', '4', '5', '6', '7', '8', '9']

/-- A number is its text. -/
structure Number where
  text : Text
  head : ∃ c ∈ numberStarts, text.head? = some c

/-- The fields of an object are looked up by the first of a key. -/
inductive Value where
  | null
  | bool (b : Bool)
  | num (n : Number)
  | str (s : Text)
  | arr (vs : List Value)
  | obj (fs : List (Text × Value))

inductive Token where
  | key (k : Text)
  | index (i : ℕ)
  deriving DecidableEq

abbrev Place := List Token

namespace Value

def isNilish : Value → Bool
  | .null => true
  | .str s => s.isEmpty
  | .arr vs => vs.isEmpty
  | .obj fs => fs.isEmpty
  | _ => false

def child : Value → Token → Value
  | .obj fs,.key k => (fs.lookup k).getD .null
  | .arr vs,.index i => (vs[i]?).getD .null
  | _,_ => .null

def get : Value → Place → Value
  | v,[] => v
  | v,t::p => (v.child t).get p

/-- A token of the kind that the value's places start with. -/
def Fits : Value → Token → Prop
  | .obj _,.key _ => True
  | .arr _,.index _ => True
  | _,_ => False

def SameKind : Value → Value → Prop
  | .obj _,.obj _ => True
  | .arr _,.arr _ => True
  | _,_ => False

/-- Writes a child, or erases it; a list keeps the places of its elements. -/
def write : Value → Token → Option Value → Value
  | .obj fs,.key k,w =>
    .obj ((w.map fun w => (k,w)).toList++fs.filter fun f => f.1 ≠ k)
  | .arr vs,.index i,w =>
    .arr ((vs++List.replicate (i+1-vs.length) Value.null).set i (w.getD .null))
  | v,_,_ => v

def edit (v : Value) : Place → Option Value → Option Value
  | [],w => w
  | t::p,w => some (v.write t ((v.child t).edit p w))

/-- The tree with a value, or nothing, at a place. -/
def replaceAt (v : Value) (p : Place) (w : Option Value) : Value := (v.edit p w).getD .null

@[simp] theorem get_nil (v : Value) : v.get [] = v := rfl

@[simp] theorem get_cons (v : Value) (t : Token) (p : Place) : v.get (t::p) = (v.child t).get p := rfl

theorem child_obj (fs : List (Text × Value)) (k : Text) :
    (obj fs).child (.key k) = (fs.lookup k).getD .null := rfl

theorem child_arr (vs : List Value) (i : ℕ) : (arr vs).child (.index i) = (vs[i]?).getD .null := rfl

theorem write_obj (fs : List (Text × Value)) (k : Text) (w : Option Value) :
    (obj fs).write (.key k) w = .obj ((w.map fun w => (k,w)).toList++fs.filter fun f => f.1 ≠ k) := rfl

theorem write_arr (vs : List Value) (i : ℕ) (w : Option Value) : (arr vs).write (.index i) w =
    .arr ((vs++List.replicate (i+1-vs.length) Value.null).set i (w.getD .null)) := rfl

@[simp] theorem child_null (t : Token) : child .null t = .null := by
  cases t <;> rfl

@[simp] theorem get_null (p : Place) : get .null p = .null := by
  induction p with
  | nil => rfl
  | cons t p ih => rw [get_cons, child_null, ih]

theorem get_append (v : Value) (p q : Place) : v.get (p++q) = (v.get p).get q := by
  induction p generalizing v with
  | nil => rfl
  | cons t p ih => exact ih (v.child t)

theorem child_of_not_fits {v : Value} {t : Token} (h : ¬v.Fits t) : v.child t = .null := by
  cases v <;> cases t <;> first | rfl | exact absurd trivial h

theorem child_of_nilish {v : Value} (h : v.isNilish = true) (t : Token) : v.child t = .null := by
  cases v with
  | arr vs =>
    obtain rfl : vs = [] := by simpa [isNilish] using h
    cases t <;> rfl
  | obj fs =>
    obtain rfl : fs = [] := by simpa [isNilish] using h
    cases t <;> rfl
  | _ => exact child_of_not_fits (by cases t <;> exact id)

theorem SameKind.symm {v w : Value} (h : v.SameKind w) : w.SameKind v := by
  cases v <;> cases w <;> trivial

theorem SameKind.fits_iff {v w : Value} (h : v.SameKind w) (t : Token) : v.Fits t ↔ w.Fits t := by
  cases v <;> cases w <;> first | exact h.elim | (cases t <;> rfl)

theorem SameKind.trans {u v w : Value} (h : u.SameKind v) (h' : v.SameKind w) : u.SameKind w := by
  cases u <;> cases v <;> first | exact h.elim | (cases w <;> first | exact h'.elim | trivial)

theorem Fits.sameKind_self {v : Value} {t : Token} (h : v.Fits t) : v.SameKind v := by
  cases v <;> cases t <;> trivial

theorem write_sameKind {v : Value} {t : Token} (h : v.Fits t) (w : Option Value) :
    (v.write t w).SameKind v := by
  cases v <;> cases t <;> trivial

theorem lookup_filter_ne {fs : List (Text × Value)} {k k' : Text} (h : k' ≠ k) :
    (fs.filter fun f => f.1 ≠ k).lookup k' = fs.lookup k' := by
  induction fs with
  | nil => rfl
  | cons f fs ih =>
    obtain ⟨j,v⟩ := f
    by_cases hj : j = k
    · have hne : (k' == j) = false := by simpa [hj] using h
      rw [List.filter_cons_of_neg (by simpa using hj), ih, List.lookup_cons, hne]
    · rw [List.filter_cons_of_pos (by simpa using hj), List.lookup_cons, List.lookup_cons, ih]

theorem lookup_filter_self {fs : List (Text × Value)} {k : Text} :
    (fs.filter fun f => f.1 ≠ k).lookup k = none := by
  rw [List.lookup_eq_none_iff]
  intro f hf
  have hne : f.1 ≠ k := by simpa using (List.mem_filter.mp hf).2
  simpa using Ne.symm hne

theorem child_write_self {v : Value} {t : Token} (h : v.Fits t) (w : Option Value) :
    (v.write t w).child t = w.getD .null := by
  cases v with
  | obj fs =>
    cases t with
    | index i => exact h.elim
    | key k =>
      cases w with
      | none =>
        simp only [write_obj, child_obj]
        rw [Option.map_none, Option.toList_none, List.nil_append, lookup_filter_self]
      | some w => simp [write_obj, child_obj]
  | arr vs =>
    cases t with
    | key k => exact h.elim
    | index i =>
      have hlt : i < (vs++List.replicate (i+1-vs.length) Value.null).length := by
        rw [List.length_append, List.length_replicate]
        omega
      simp only [write_arr, child_arr]
      rw [List.getElem?_set_self hlt]
      rfl
  | _ => exact absurd h (by cases t <;> exact id)

theorem child_write_ne {v : Value} {t s : Token} (h : s ≠ t) (w : Option Value) :
    (v.write t w).child s = v.child s := by
  cases v with
  | obj fs =>
    cases t with
    | index i => rfl
    | key k =>
      cases s with
      | index j => rfl
      | key k' =>
        have hk : k' ≠ k := fun heq => h (congrArg Token.key heq)
        have hne : (k' == k) = false := by simpa using hk
        simp only [write_obj, child_obj]
        cases w with
        | none => rw [Option.map_none, Option.toList_none, List.nil_append, lookup_filter_ne hk]
        | some w =>
          rw [Option.map_some, Option.toList_some, List.singleton_append, List.lookup_cons, hne]
          exact congrArg (·.getD Value.null) (lookup_filter_ne hk)
  | arr vs =>
    cases t with
    | key k => rfl
    | index i =>
      cases s with
      | key k' => rfl
      | index j =>
        have hij : i ≠ j := fun heq => h (congrArg Token.index heq.symm)
        simp only [write_arr, child_arr]
        rw [List.getElem?_set_ne hij]
        rcases Nat.lt_or_ge j vs.length with hlt | hge
        · rw [List.getElem?_append_left hlt]
        · rw [List.getElem?_append_right hge, List.getElem?_eq_none hge, List.getElem?_replicate]
          split_ifs <;> rfl
  | _ => cases t <;> rfl

section Sizes

theorem sizeOf_child (v : Value) {t : Token} (h : v.Fits t) : sizeOf (v.child t) < sizeOf v := by
  cases v with
  | obj fs =>
    cases t with
    | index i => exact h.elim
    | key k =>
      rw [child_obj]
      induction fs with
      | nil => simp
      | cons f fs ih =>
        obtain ⟨j,v⟩ := f
        rw [List.lookup_cons]
        cases hj : k == j with
        | true =>
          simp
          omega
        | false =>
          have hlt := ih trivial
          simp at hlt ⊢
          omega
  | arr vs =>
    cases t with
    | key k => exact h.elim
    | index i =>
      rw [child_arr]
      induction vs generalizing i with
      | nil => simp
      | cons v vs ih =>
        cases i with
        | zero =>
          simp
          omega
        | succ i =>
          have hlt := ih i trivial
          simp at hlt ⊢
          omega
  | _ => exact absurd h (by cases t <;> exact id)

end Sizes

/-- Equal, with the values that hold nothing taken for one another. -/
inductive Same : Value → Value → Prop where
  | refl (v : Value) : Same v v
  | nilish {v w : Value} (hv : v.isNilish = true) (hw : w.isNilish = true) : Same v w
  | node {v w : Value} (hkind : v.SameKind w) (h : ∀ t, Same (v.child t) (w.child t)) : Same v w

/-- Two values that differ at their roots. -/
def Clash (v w : Value) : Prop :=
  v.isNilish ≠ w.isNilish ∨
    (v.isNilish = false ∧ w.isNilish = false ∧ ¬v.SameKind w ∧ v ≠ w)

/-- The trees differ at the place and at no place above it. -/
def FirstDiffer (v w : Value) (p : Place) : Prop :=
  Clash (v.get p) (w.get p) ∧ ∀ q, q <+: p → q ≠ p → ¬Clash (v.get q) (w.get q)

theorem not_clash_null : ¬Clash .null .null := by
  rintro (h | ⟨h,-⟩)
  · exact h rfl
  · nomatch h

theorem Clash.fits {v w : Value} {t : Token} {p : Place} (hkind : v.SameKind w)
    (h : Clash (v.get (t::p)) (w.get (t::p))) : v.Fits t := by
  by_contra hv
  have hw : ¬w.Fits t := fun hw => hv ((hkind.fits_iff t).mpr hw)
  rw [get_cons, get_cons, child_of_not_fits hv, child_of_not_fits hw, get_null] at h
  exact not_clash_null h

theorem firstDiffer_nil {v w : Value} : FirstDiffer v w [] ↔ Clash v w := by
  constructor
  · exact fun h => h.1
  · intro h
    exact ⟨h,fun q hq hne => absurd (List.prefix_nil.mp hq) hne⟩

theorem firstDiffer_cons {v w : Value} {t : Token} {p : Place} :
    FirstDiffer v w (t::p) ↔ ¬Clash v w ∧ FirstDiffer (v.child t) (w.child t) p := by
  constructor
  · rintro ⟨hclash,habove⟩
    refine ⟨habove [] List.nil_prefix (by simp),hclash,fun q hq hne => ?_⟩
    exact habove (t::q) (List.cons_prefix_cons.mpr ⟨rfl,hq⟩) (by simpa using hne)
  · rintro ⟨hroot,hclash,habove⟩
    refine ⟨hclash,fun q hq hne => ?_⟩
    cases q with
    | nil => exact hroot
    | cons s q =>
      obtain ⟨rfl,hq'⟩ := List.cons_prefix_cons.mp hq
      exact habove q hq' (fun h => hne (by rw [h]))

/-- Places of first difference do not lie above one another. -/
theorem FirstDiffer.eq_of_above {v w : Value} {p q : Place} (hp : FirstDiffer v w p)
    (hq : FirstDiffer v w q) (h : p <+: q) : p = q := by
  by_contra hne
  exact hq.2 p h hne hp.1

/-- Roots that do not clash hold nothing, are nodes of one kind, or are equal. -/
theorem not_clash_cases {v w : Value} (h : ¬Clash v w) :
    (v.isNilish = true ∧ w.isNilish = true) ∨
      (v.isNilish = false ∧ w.isNilish = false ∧ (v.SameKind w ∨ v = w)) := by
  rw [Clash, not_or, not_not] at h
  obtain ⟨hboth,hnot⟩ := h
  cases hv : v.isNilish with
  | true => exact .inl ⟨rfl,by rw [← hboth, hv]⟩
  | false =>
    have hw : w.isNilish = false := by rw [← hboth, hv]
    refine .inr ⟨rfl,hw,?_⟩
    by_contra hneither
    rw [not_or] at hneither
    exact hnot ⟨hv,hw,hneither.1,hneither.2⟩

theorem clash_above {v w : Value} {p : Place} (h : Clash (v.get p) (w.get p)) :
    ∃ q, q <+: p ∧ FirstDiffer v w q := by
  induction p generalizing v w with
  | nil => exact ⟨[],List.nil_prefix,firstDiffer_nil.mpr h⟩
  | cons t p ih =>
    by_cases hroot : Clash v w
    · exact ⟨[],List.nil_prefix,firstDiffer_nil.mpr hroot⟩
    · obtain ⟨q,hq,hfirst⟩ := ih h
      exact ⟨t::q,List.cons_prefix_cons.mpr ⟨rfl,hq⟩,firstDiffer_cons.mpr ⟨hroot,hfirst⟩⟩

/-- Trees that first differ nowhere are the same. -/
theorem same_of_no_differ {v w : Value} (h : ∀ p, ¬FirstDiffer v w p) : Same v w := by
  have hroot : ¬Clash v w := fun hc => h [] (firstDiffer_nil.mpr hc)
  rcases not_clash_cases hroot with ⟨hv,hw⟩ | ⟨-,-,hkind | rfl⟩
  · exact .nilish hv hw
  · refine .node hkind fun t => ?_
    by_cases hfits : v.Fits t
    · have := sizeOf_child v hfits
      exact same_of_no_differ fun p hp => h (t::p) (firstDiffer_cons.mpr ⟨hroot,hp⟩)
    · rw [child_of_not_fits hfits, child_of_not_fits fun hw => hfits ((hkind.fits_iff t).mpr hw)]
      exact .refl _
  · exact .refl _
termination_by sizeOf v

/-- Away from the places of first difference the trees agree. -/
theorem same_get_of_away {v w : Value} {q : Place}
    (h : ∀ p, FirstDiffer v w p → ¬p <+: q ∧ ¬q <+: p) : Same (v.get q) (w.get q) := by
  apply same_of_no_differ
  intro r hr
  have hclash : Clash (v.get (q++r)) (w.get (q++r)) := by
    rw [get_append, get_append]
    exact hr.1
  obtain ⟨p,hp,hfirst⟩ := clash_above hclash
  obtain ⟨habove,hbelow⟩ := h p hfirst
  rcases List.prefix_or_prefix_of_prefix hp (List.prefix_append q r) with hpq | hqp
  · exact habove hpq
  · exact hbelow hqp

section Patch

/-- What a patch puts at a place, or nothing. -/
abbrev Edit := Place × Option Value

def patch (v : Value) (es : List Edit) : Value := es.foldl (fun v e => v.replaceAt e.1 e.2) v

/-- The part of an edit below a child. -/
def Edit.below (t : Token) (e : Edit) : Option Edit :=
  match e.1 with
  | [] => none
  | s::p => if s = t then some (p,e.2) else none

theorem Edit.below_eq_some {t : Token} {e e' : Edit} :
    e.below t = some e' ↔ e.1 = t::e'.1 ∧ e.2 = e'.2 := by
  obtain ⟨p,w⟩ := e
  obtain ⟨p',w'⟩ := e'
  cases p with
  | nil => simp [below]
  | cons s p =>
    by_cases hs : s = t
    · simp [below, hs]
    · simp [below, hs]

/-- A patch below the root works on each child by itself. -/
theorem patch_children {v : Value} {es : List Edit} (hv : v.SameKind v)
    (hes : ∀ e ∈ es, ∃ t p, e.1 = t::p ∧ v.Fits t) :
    (v.patch es).SameKind v ∧ ∀ t, (v.patch es).child t = (v.child t).patch (es.filterMap (·.below t)) := by
  induction es generalizing v with
  | nil => exact ⟨hv,fun _ => rfl⟩
  | cons e es ih =>
    obtain ⟨s,p,hplace,hfits⟩ := hes e List.mem_cons_self
    have hstep : v.replaceAt e.1 e.2 = v.write s ((v.child s).edit p e.2) := by
      rw [replaceAt, hplace]
      rfl
    have hkind := write_sameKind hfits ((v.child s).edit p e.2)
    have hrest := ih (v := v.write s ((v.child s).edit p e.2)) (hkind.trans hkind.symm) fun e' he' => by
      obtain ⟨t,q,hq,ht⟩ := hes e' (List.mem_cons_of_mem e he')
      exact ⟨t,q,hq,(hkind.fits_iff t).mpr ht⟩
    have hpatch : v.patch (e::es) = (v.write s ((v.child s).edit p e.2)).patch es := by
      rw [← hstep]
      rfl
    rw [hpatch]
    refine ⟨hrest.1.trans hkind,fun t => ?_⟩
    rw [hrest.2 t, List.filterMap_cons]
    by_cases hst : t = s
    · subst hst
      have hbelow : e.below t = some (p,e.2) := Edit.below_eq_some.mpr ⟨hplace,rfl⟩
      rw [hbelow, child_write_self hfits]
      rfl
    · have hbelow : e.below t = none := by
        rw [Option.eq_none_iff_forall_ne_some]
        intro e' he'
        have hhead := (Edit.below_eq_some.mp he').1
        rw [hplace] at hhead
        exact hst (List.cons.inj hhead).1.symm
      rw [hbelow, child_write_ne hst]

/-- Putting at every place of first difference what the other tree holds there gives the
other tree. -/
theorem patch_same {v w : Value} {es : List Edit}
    (hes : ∀ e ∈ es, FirstDiffer v w e.1 ∧ Same (e.2.getD .null) (w.get e.1))
    (hall : ∀ p, FirstDiffer v w p → ∃ e ∈ es, e.1 = p) (hnodup : (es.map Prod.fst).Nodup) :
    Same (v.patch es) w := by
  by_cases hroot : Clash v w
  · -- the root differs, so it is the one place
    have hnil : ∀ e ∈ es, e.1 = [] := fun e he =>
      ((firstDiffer_nil.mpr hroot).eq_of_above (hes e he).1 List.nil_prefix).symm
    obtain ⟨e,he,hplace⟩ := hall [] (firstDiffer_nil.mpr hroot)
    have hone : es = [e] := by
      have hrep := List.eq_replicate_of_mem fun p hp => by
        obtain ⟨e',he',rfl⟩ := List.mem_map.mp hp
        exact hnil e' he'
      rw [hrep, List.nodup_replicate, List.length_map] at hnodup
      have hlen := List.length_pos_of_mem he
      obtain ⟨e',rfl⟩ := List.length_eq_one_iff.mp (by omega : es.length = 1)
      rw [List.mem_singleton.mp he]
    have hsame := (hes e he).2
    rw [hplace] at hsame
    rw [hone, patch, List.foldl_cons, List.foldl_nil, replaceAt, hplace]
    exact hsame
  · have hnone : v.SameKind w ∨ es = [] := by
      by_contra hcon
      rw [not_or] at hcon
      obtain ⟨e,he⟩ := List.exists_mem_of_ne_nil es hcon.2
      obtain ⟨hfirst,-⟩ := hes e he
      generalize e.1 = p at hfirst
      cases p with
      | nil => exact hroot hfirst.1
      | cons t p =>
        have hclash := hfirst.1
        rw [get_cons, get_cons] at hclash
        rcases not_clash_cases hroot with ⟨hv,hw⟩ | ⟨-,-,hkind | rfl⟩
        · rw [child_of_nilish hv, child_of_nilish hw, get_null] at hclash
          exact not_clash_null hclash
        · exact hcon.1 hkind
        · have hself : ¬Clash ((v.child t).get p) ((v.child t).get p) := by
            rintro (h | ⟨-,-,-,h⟩)
            · exact h rfl
            · exact h rfl
          exact hself hclash
    rcases hnone with hkind | rfl
    · have hfits : ∀ e ∈ es, ∃ t p, e.1 = t::p ∧ v.Fits t := by
        intro e he
        obtain ⟨hfirst,-⟩ := hes e he
        cases hplace : e.1 with
        | nil =>
          rw [hplace] at hfirst
          exact absurd hfirst.1 hroot
        | cons t p =>
          rw [hplace] at hfirst
          exact ⟨t,p,rfl,Clash.fits hkind hfirst.1⟩
      obtain ⟨hpatched,hchild⟩ := patch_children (hkind.trans hkind.symm) hfits
      refine .node (hpatched.trans hkind) fun t => ?_
      rw [hchild t]
      have hbelow : ∀ e ∈ es.filterMap (·.below t),
          FirstDiffer (v.child t) (w.child t) e.1 ∧ Same (e.2.getD .null) ((w.child t).get e.1) := by
        intro e' he'
        obtain ⟨e,he,heq⟩ := List.mem_filterMap.mp he'
        obtain ⟨hplace,hvalue⟩ := Edit.below_eq_some.mp heq
        obtain ⟨hfirst,hsame⟩ := hes e he
        rw [hplace] at hfirst hsame
        exact ⟨(firstDiffer_cons.mp hfirst).2,by rwa [← hvalue]⟩
      by_cases hfit : v.Fits t
      · have := sizeOf_child v hfit
        apply patch_same hbelow
        · intro p hp
          obtain ⟨e,he,hplace⟩ := hall (t::p) (firstDiffer_cons.mpr ⟨hroot,hp⟩)
          exact ⟨(p,e.2),List.mem_filterMap.mpr ⟨e,he,Edit.below_eq_some.mpr ⟨hplace,rfl⟩⟩,rfl⟩
        · have hsub : ((es.filterMap (·.below t)).map fun e => t::e.1).Sublist (es.map Prod.fst) := by
            clear hbelow hchild hpatched hfits hnodup hall hes
            induction es with
            | nil => exact List.Sublist.slnil
            | cons e es ih =>
              rw [List.filterMap_cons]
              cases hb : e.below t with
              | none => exact ih.cons e.1
              | some e' =>
                rw [List.map_cons, List.map_cons, (Edit.below_eq_some.mp hb).1]
                exact ih.cons_cons _
          have htails := hnodup.sublist hsub
          have hmap : ((es.filterMap (·.below t)).map fun e => t::e.1) =
              ((es.filterMap (·.below t)).map Prod.fst).map (t::·) := by
            rw [List.map_map]
            rfl
          rw [hmap] at htails
          exact List.Nodup.of_map _ htails
      · have hempty : es.filterMap (·.below t) = [] := by
          rw [List.filterMap_eq_nil_iff]
          intro e he
          rw [Option.eq_none_iff_forall_ne_some]
          intro e' he'
          obtain ⟨s,p,hplace,hs⟩ := hfits e he
          rw [(Edit.below_eq_some.mp he').1, List.cons.injEq] at hplace
          exact hfit (hplace.1 ▸ hs)
        have hfit' : ¬w.Fits t := fun h => hfit ((hkind.fits_iff t).mpr h)
        rw [hempty, child_of_not_fits hfit, child_of_not_fits hfit']
        exact .refl _
    · exact same_of_no_differ fun p hp => by
        obtain ⟨e,he,-⟩ := hall p hp
        nomatch he
termination_by sizeOf v

end Patch

end Value

end Radar.JsonTree
