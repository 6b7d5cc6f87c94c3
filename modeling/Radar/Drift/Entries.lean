import Mathlib.Data.List.Dedup
import Radar.Drift.DiffValues

/-!
# The entries as a patch

The entries are those of the places where the trees first differ, each once.
-/

set_option autoImplicit false

namespace Radar.Drift
open Radar.JsonTree Radar.JsonTree.Value

section Written

theorem readUnits_plain {c : Char} (hquote : c ≠ '"') (hslash : c ≠ '\\') (hsmall : ¬c.toNat < 32)
    (s : Text) : JsonText.readUnits (c::s) =
      (JsonText.readUnits s).map fun p => (.char c::p.1,p.2) := by
  rw [JsonText.readUnits, if_neg hsmall]
  · cases JsonText.readUnits s <;> rfl
  · exact hquote
  · exact fun _ _ _ _ _ h => absurd h hslash
  · exact fun _ _ h => absurd h hslash

theorem readUnits_escapeText (c : Char) (s : Text) : ∃ u, JsonText.readUnits (escapeText c++s) =
    (JsonText.readUnits s).map (fun p => (u::p.1,p.2)) ∧
      ∀ us, JsonText.runesOf (u::us) = c::JsonText.runesOf us := by
  by_cases hc : c = '<' ∨ c = '>' ∨ c = '&'
  · refine ⟨.char c,?_,fun us => by rw [JsonText.runesOf]⟩
    rw [escapeText, if_pos hc, List.singleton_append]
    rcases hc with rfl | rfl | rfl <;> exact readUnits_plain (by decide) (by decide) (by decide) s
  · refine ⟨JsonText.unitOf c,?_,JsonText.runesOf_unitOf c⟩
    rw [escapeText, if_neg hc]
    exact JsonText.readUnits_escape c s

theorem read_quoteText (s : Text) : ∃ us, JsonText.readUnits (s.flatMap escapeText++ ['"']) =
    some (us,[]) ∧ JsonText.runesOf us = s := by
  induction s with
  | nil => exact ⟨[],rfl,rfl⟩
  | cons c s ih =>
    obtain ⟨us,hread,hrunes⟩ := ih
    obtain ⟨u,hu,hrune⟩ := readUnits_escapeText c (s.flatMap escapeText++ ['"'])
    refine ⟨u::us,?_,by rw [hrune, hrunes]⟩
    rw [List.flatMap_cons, List.append_assoc, hu, hread]
    rfl

theorem quoteText_inj {s t : Text} (h : quoteText s = quoteText t) : s = t := by
  obtain ⟨us,hus,hs⟩ := read_quoteText s
  obtain ⟨ut,hut,ht⟩ := read_quoteText t
  rw [quoteText, quoteText, List.cons.injEq] at h
  rw [h.2, hut] at hus
  rw [← hs, ← ht, (Prod.mk.inj (Option.some.inj hus)).1]

def kindOf : Value → Fin 6
  | .null => 0
  | .bool _ => 1
  | .num _ => 2
  | .str _ => 3
  | .arr _ => 4
  | .obj _ => 5

/-- The kind of the values whose texts begin with the character. -/
def kindLed (c : Char) : Fin 6 :=
  if c = 'n' then 0
  else if c = 't' ∨ c = 'f' then 1
  else if c = '"' then 3
  else if c = '[' then 4
  else if c = '{' then 5
  else 2

theorem kindLed_number : ∀ c ∈ numberStarts, kindLed c = 2 := by
  simp [numberStarts, kindLed]

theorem leads_jsonString (v : Value) : ∃ c, (jsonString v).head? = some c ∧ kindLed c = kindOf v := by
  cases v with
  | num n =>
    obtain ⟨c,hc,hhead⟩ := n.head
    exact ⟨c,by rw [jsonString, hhead],kindLed_number c hc⟩
  | bool b =>
    cases b with
    | true => exact ⟨ 't',by rw [jsonString]; rfl,rfl⟩
    | false => exact ⟨ 'f',by rw [jsonString]; rfl,rfl⟩
  | _ => exact ⟨_,by rw [jsonString]; rfl,rfl⟩

/-- Values of which one at least is no map and no list are told apart by their texts. -/
theorem jsonString_inj {v w : Value} (hkind : ¬v.SameKind w) (h : jsonString v = jsonString w) :
    v = w := by
  have hkinds : kindOf v = kindOf w := by
    obtain ⟨c,hc,hv⟩ := leads_jsonString v
    obtain ⟨c',hc',hw⟩ := leads_jsonString w
    obtain rfl : c = c' := by rwa [h, hc', Option.some.injEq, eq_comm] at hc
    rw [← hv, hw]
  cases v <;> cases w
  case null.null => rfl
  case bool.bool b b' =>
    rw [jsonString, jsonString] at h
    cases b <;> cases b' <;> first | rfl | exact absurd h (by decide)
  case num.num n m =>
    rw [jsonString, jsonString] at h
    obtain ⟨n,hn⟩ := n
    obtain ⟨m,hm⟩ := m
    obtain rfl : n = m := h
    rfl
  case str.str s t =>
    rw [jsonString, jsonString] at h
    rw [quoteText_inj h]
  case arr.arr => exact absurd trivial hkind
  case obj.obj => exact absurd trivial hkind
  all_goals exact absurd hkinds (by simp [kindOf])

end Written

section Told

def tokenText : Token → Text
  | .key k => k
  | .index i => indexText i

/-- The dotted path of a place below a path. -/
def placePath (path : Text) (p : Place) : Text := p.foldl (fun path t => joinPath path (tokenText t)) path

/-- What the entry of a place tells. -/
def entryAt (path : Text) (desired live : Value) (p : Place) : DriftEntry :=
  if (desired.get p).isNilish then
    { path := placePath path p, op := .added, live := jsonString (live.get p) }
  else if (live.get p).isNilish then
    { path := placePath path p, op := .removed, desired := jsonString (desired.get p) }
  else
    { path := placePath path p, op := .changed, desired := jsonString (desired.get p),
      live := jsonString (live.get p) }

/-- The list holds the places of first difference, each once. -/
def Lists (places : List Place) (desired live : Value) : Prop :=
  places.Nodup ∧ ∀ p, p ∈ places ↔ FirstDiffer desired live p

theorem entryAt_cons (path : Text) (desired live : Value) (t : Token) (p : Place) :
    entryAt path desired live (t::p) =
      entryAt (joinPath path (tokenText t)) (desired.child t) (live.child t) p := rfl

theorem lists_nil {desired live : Value} (h : ∀ p, ¬FirstDiffer desired live p) :
    Lists [] desired live := by
  refine ⟨List.nodup_nil,fun p => ?_⟩
  simpa using h p

theorem lists_root {desired live : Value} (h : Clash desired live) : Lists [[]] desired live := by
  refine ⟨List.nodup_singleton [],fun p => ?_⟩
  rw [List.mem_singleton]
  constructor
  · rintro rfl
    exact firstDiffer_nil.mpr h
  · intro hp
    exact ((firstDiffer_nil.mpr h).eq_of_above hp List.nil_prefix).symm

/-- Below nodes of one kind the places are gathered child by child. -/
theorem lists_children {α : Type*} {desired live : Value} {ks : List α} {token : α → Token}
    {below : α → List Place} (hroot : ¬Clash desired live) (hks : ks.Nodup)
    (htoken : Function.Injective token)
    (hout : ∀ t ∉ ks.map token, desired.child t = .null ∧ live.child t = .null)
    (hbelow : ∀ k, Lists (below k) (desired.child (token k)) (live.child (token k))) :
    Lists (ks.flatMap fun k => (below k).map (token k::·)) desired live := by
  have hmem : ∀ k p, token k::p ∈ (ks.flatMap fun k => (below k).map (token k::·)) ↔
      k ∈ ks ∧ p ∈ below k := by
    intro k p
    rw [List.mem_flatMap]
    constructor
    · rintro ⟨j,hj,h⟩
      obtain ⟨q,hq,h⟩ := List.mem_map.mp h
      obtain ⟨hjk,rfl⟩ := List.cons.inj h
      exact htoken hjk ▸ ⟨hj,hq⟩
    · exact fun ⟨hk,hp⟩ => ⟨k,hk,List.mem_map_of_mem hp⟩
  constructor
  · rw [List.nodup_flatMap]
    constructor
    · exact fun k _ => (hbelow k).1.map fun p q h => (List.cons.inj h).2
    · apply hks.imp
      intro k j hkj p hp hj
      obtain ⟨q,-,rfl⟩ := List.mem_map.mp hp
      obtain ⟨r,-,hr⟩ := List.mem_map.mp hj
      exact hkj (htoken (List.cons.inj hr).1.symm)
  · intro p
    cases p with
    | nil =>
      constructor
      · intro h
        obtain ⟨k,-,h⟩ := List.mem_flatMap.mp h
        obtain ⟨q,-,h⟩ := List.mem_map.mp h
        nomatch h
      · exact fun h => absurd h.1 hroot
    | cons t p =>
      by_cases ht : t ∈ ks.map token
      · obtain ⟨k,hk,rfl⟩ := List.mem_map.mp ht
        rw [hmem, firstDiffer_cons, (hbelow k).2 p]
        exact ⟨fun h => ⟨hroot,h.2⟩,fun h => ⟨hk,h.2⟩⟩
      · constructor
        · intro h
          obtain ⟨k,hk,h⟩ := List.mem_flatMap.mp h
          obtain ⟨q,-,h⟩ := List.mem_map.mp h
          exact absurd ((List.cons.inj h).1 ▸ List.mem_map_of_mem hk) ht
        · intro h
          have hclash := h.1
          rw [get_cons, get_cons, (hout t ht).1, (hout t ht).2, get_null] at hclash
          exact absurd hclash not_clash_null

variable {range : Ranging}

/-- Every map is ranged over once a key. -/
def Ranging.Fair (range : Ranging) : Prop := ∀ p keys, (range p keys).Perm keys

theorem Ranging.Fair.below (h : range.Fair) (t : Token) : (range.below t).Fair :=
  fun p keys => h (t::p) keys

theorem child_of_not_union {dMap lMap : List (Text × Value)} {t : Token}
    (h : t ∉ (unionKeys dMap lMap).map Token.key) :
    (Value.obj dMap).child t = .null ∧ (Value.obj lMap).child t = .null := by
  cases t with
  | index i => exact ⟨rfl,rfl⟩
  | key k =>
    have hout : k ∉ dMap.map Prod.fst++lMap.map Prod.fst :=
      fun hin => h (List.mem_map_of_mem (List.mem_dedup.mpr hin))
    rw [List.mem_append, not_or] at hout
    have hnone : ∀ {fs : List (Text × Value)}, k ∉ fs.map Prod.fst → fs.lookup k = none := by
      intro fs hk
      rw [List.lookup_eq_none_iff]
      intro f hf
      have hne : k ≠ f.1 := fun heq => hk (heq ▸ List.mem_map_of_mem hf)
      simpa using hne
    constructor
    · rw [child, hnone hout.1]
      rfl
    · rw [child, hnone hout.2]
      rfl

theorem child_of_not_range {dArr lArr : List Value} {t : Token}
    (h : t ∉ (List.range (max dArr.length lArr.length)).map Token.index) :
    (Value.arr dArr).child t = .null ∧ (Value.arr lArr).child t = .null := by
  cases t with
  | key k => exact ⟨rfl,rfl⟩
  | index i =>
    have hout : ¬i < max dArr.length lArr.length :=
      fun hlt => h (List.mem_map_of_mem (List.mem_range.mpr hlt))
    constructor
    · rw [child, List.getElem?_eq_none (by omega)]
      rfl
    · rw [child, List.getElem?_eq_none (by omega)]
      rfl

theorem not_clash_of_sameKind {v w : Value} (hv : v.isNilish = false) (hw : w.isNilish = false)
    (hkind : v.SameKind w) : ¬Clash v w := by
  rintro (h | ⟨-,-,h,-⟩)
  · rw [hv, hw] at h
    exact h rfl
  · exact h hkind

theorem not_differ_self (v : Value) (p : Place) : ¬FirstDiffer v v p := by
  rintro ⟨h | ⟨-,-,-,h⟩,-⟩
  · exact h rfl
  · exact h rfl

theorem not_differ_nilish {v w : Value} (hv : v.isNilish = true) (hw : w.isNilish = true)
    (p : Place) : ¬FirstDiffer v w p := by
  intro h
  have hclash := h.1
  cases p with
  | nil =>
    rw [get_nil, get_nil, Clash, hv, hw] at hclash
    simp at hclash
  | cons t p =>
    rw [get_cons, get_cons, child_of_nilish hv, child_of_nilish hw, get_null] at hclash
    exact not_clash_null hclash

theorem not_sameKind {v w : Value} (hobj : ∀ fs gs, v = .obj fs → w = .obj gs → False)
    (harr : ∀ vs ws, v = .arr vs → w = .arr ws → False) : ¬v.SameKind w := by
  intro hkind
  cases v <;> cases w <;>
    first | exact hkind | exact hobj _ _ rfl rfl | exact harr _ _ rfl rfl

/-- The entries are those of the places of first difference. -/
theorem diffValues_lists (hrange : range.Fair) (path : Text) (desired live : Value) :
    ∃ places, Lists places desired live ∧
      diffValues range path desired live = places.map (entryAt path desired live) := by
  generalize hsize : sizeOf desired = n
  induction n using Nat.strong_induction_on generalizing range path desired live with
  | _ n ih =>
    subst hsize
    by_cases h : (desired.isNilish && live.isNilish) = true
    · have hboth : desired.isNilish = true ∧ live.isNilish = true := by simpa using h
      refine ⟨[],lists_nil (not_differ_nilish hboth.1 hboth.2),?_⟩
      unfold diffValues
      rw [if_pos h]
      rfl
    by_cases hd : desired.isNilish = true
    · have hl : live.isNilish = false := by simpa [hd] using h
      refine ⟨[[]],lists_root (.inl (by rw [hd, hl]; decide)),?_⟩
      unfold diffValues
      rw [if_neg h, if_pos hd, List.map_singleton, entryAt, get_nil, if_pos hd]
      rfl
    by_cases hl : live.isNilish = true
    · refine ⟨[[]],lists_root (.inl (by rw [hl]; exact hd)),?_⟩
      unfold diffValues
      rw [if_neg h, if_neg hd, if_pos hl, List.map_singleton, entryAt, get_nil, if_neg hd, get_nil,
        if_pos hl]
      rfl
    by_cases hboth : ∃ dMap lMap, desired = .obj dMap ∧ live = .obj lMap
    · obtain ⟨dMap,lMap,rfl,rfl⟩ := hboth
      choose below hlists heq using fun k =>
        ih _ (Value.sizeOf_child (t := .key k) _ trivial) (hrange.below (.key k)) (joinPath path k)
          ((Value.obj dMap).child (.key k)) ((Value.obj lMap).child (.key k)) rfl
      have hperm := hrange [] (unionKeys dMap lMap)
      have hroot := not_clash_of_sameKind (by simpa using hd) (by simpa using hl)
        (show (Value.obj dMap).SameKind (Value.obj lMap) from trivial)
      refine ⟨(range [] (unionKeys dMap lMap)).flatMap fun k => (below k).map (Token.key k::·),
        ?_,?_⟩
      · apply lists_children hroot (hperm.nodup_iff.mpr (List.nodup_dedup _))
          (fun _ _ => Token.key.inj) _ hlists
        intro t ht
        apply child_of_not_union
        rwa [(hperm.map Token.key).mem_iff] at ht
      · rw [diffValues, if_neg h, if_neg hd, if_neg hl, List.map_flatMap]
        apply List.flatMap_congr
        intro k _
        rw [heq k, List.map_map]
        rfl
    have hobj : ∀ dMap lMap, desired = .obj dMap → live = .obj lMap → False :=
      fun dMap lMap hdesired hlive => hboth ⟨dMap,lMap,hdesired,hlive⟩
    by_cases hboth : ∃ dArr lArr, desired = .arr dArr ∧ live = .arr lArr
    · obtain ⟨dArr,lArr,rfl,rfl⟩ := hboth
      choose below hlists heq using fun i =>
        ih _ (Value.sizeOf_child (t := .index i) _ trivial) (hrange.below (.index i))
          (joinPath path (indexText i)) ((Value.arr dArr).child (.index i))
          ((Value.arr lArr).child (.index i)) rfl
      have hroot := not_clash_of_sameKind (by simpa using hd) (by simpa using hl)
        (show (Value.arr dArr).SameKind (Value.arr lArr) from trivial)
      refine ⟨(List.range (max dArr.length lArr.length)).flatMap fun i =>
        (below i).map (Token.index i::·),?_,?_⟩
      · exact lists_children hroot List.nodup_range (fun _ _ => Token.index.inj)
          (fun t ht => child_of_not_range ht) hlists
      · rw [diffValues, if_neg h, if_neg hd, if_neg hl, List.map_flatMap]
        apply List.flatMap_congr
        intro i _
        rw [heq i, List.map_map]
        rfl
    have harr : ∀ dArr lArr, desired = .arr dArr → live = .arr lArr → False :=
      fun dArr lArr hdesired hlive => hboth ⟨dArr,lArr,hdesired,hlive⟩
    have hkind : ¬desired.SameKind live := not_sameKind hobj harr
    by_cases heq : jsonString desired = jsonString live
    · obtain rfl := jsonString_inj hkind heq
      refine ⟨[],lists_nil (not_differ_self desired),?_⟩
      rw [diffValues, if_neg h, if_neg hd, if_neg hl, if_pos rfl]
      · rfl
      · exact hobj
      · exact harr
    refine ⟨[[]],lists_root (.inr ⟨by simpa using hd,by simpa using hl,hkind,?_⟩),?_⟩
    · exact fun hsame => heq (by rw [hsame])
    · rw [diffValues, if_neg h, if_neg hd, if_neg hl, if_neg heq, List.map_singleton,
        entryAt, get_nil, get_nil, if_neg hd, if_neg hl]
      · rfl
      · exact hobj
      · exact harr

end Told

section Exact

variable {path : Text} {desired live : Value} {p : Place}

/-- The entry tells which side holds a value at the place, and the values. -/
structure Tells (path : Text) (desired live : Value) (p : Place) (e : DriftEntry) : Prop where
  path_eq : e.path = placePath path p
  added : e.op = .added ↔ (desired.get p).isNilish = true ∧ (live.get p).isNilish = false
  removed : e.op = .removed ↔ (desired.get p).isNilish = false ∧ (live.get p).isNilish = true
  changed : e.op = .changed ↔ (desired.get p).isNilish = false ∧ (live.get p).isNilish = false ∧
    desired.get p ≠ live.get p
  desired_eq : e.desired = if e.op = .added then [] else jsonString (desired.get p)
  live_eq : e.live = if e.op = .removed then [] else jsonString (live.get p)

theorem entryAt_tells (path : Text) (h : FirstDiffer desired live p) :
    Tells path desired live p (entryAt path desired live p) := by
  have hne : desired.get p ≠ live.get p := by
    intro heq
    have hclash := h.1
    rw [heq] at hclash
    rcases hclash with h | ⟨-,-,-,h⟩ <;> exact h rfl
  have hsome : ¬((desired.get p).isNilish = true ∧ (live.get p).isNilish = true) := by
    rintro ⟨hd,hl⟩
    rcases h.1 with h | ⟨h,-⟩
    · exact h (hd.trans hl.symm)
    · rw [hd] at h
      cases h
  unfold entryAt
  by_cases hd : (desired.get p).isNilish = true
  · have hl : (live.get p).isNilish = false := by simpa [hd] using hsome
    rw [if_pos hd]
    constructor <;> simp [hd, hl]
  · rw [if_neg hd]
    by_cases hl : (live.get p).isNilish = true
    · rw [if_pos hl]
      constructor <;> simp [hd, hl]
    · rw [if_neg hl]
      constructor <;> simp [hd, hl, hne]

/-- Puts the live value at the place of an entry, and erases what was removed. -/
def driftEdit (live : Value) (p : Place) (e : DriftEntry) : Value.Edit :=
  (p,if e.op = .removed then none else some (live.get p))

theorem patch_entries {places : List Place} (h : Lists places desired live) :
    Same (desired.patch (places.map fun p => driftEdit live p (entryAt path desired live p))) live := by
  apply patch_same
  · intro e he
    obtain ⟨p,hp,rfl⟩ := List.mem_map.mp he
    have hfirst := (h.2 p).mp hp
    refine ⟨hfirst,?_⟩
    by_cases hop : (entryAt path desired live p).op = .removed
    · have hnil := ((entryAt_tells path hfirst).removed.mp hop).2
      show Same ((if (entryAt path desired live p).op = .removed then none
        else some (live.get p)).getD .null) (live.get p)
      rw [if_pos hop]
      exact .nilish rfl hnil
    · show Same ((if (entryAt path desired live p).op = .removed then none
        else some (live.get p)).getD .null) (live.get p)
      rw [if_neg hop]
      exact .refl _
  · intro p hp
    exact ⟨_,List.mem_map_of_mem ((h.2 p).mpr hp),rfl⟩
  · have hplaces : (places.map fun p => driftEdit live p (entryAt path desired live p)).map Prod.fst =
        places := by
      rw [List.map_map]
      exact List.map_id _
    rw [hplaces]
    exact h.1

end Exact

end Radar.Drift
