import Mathlib.Logic.Relation
import Radar.Base.Grouping
import Radar.Base.UnionFind

/-!
# The applications behind a Service

Workloads that run an image name in common are joined. The first workload that
runs a name owns it, and a later one is linked to the owner only; what the
loop has joined are the components of the workloads it has seen. The image
names of a workload come in the order in which its map is visited.
-/

set_option autoImplicit false

namespace Radar.Backends

open Radar.UnionFind Radar.Grouping

structure Joining where
  parent : ℕ → ℕ := fun i => i
  repoOwner : String → Option ℕ := fun _ => none
  hasRepo : ℕ → Bool := fun _ => false

/-- One round of the inner loop. None if `find` runs out of fuel. -/
def joinRepo (fuel i : ℕ) (s : Joining) (repo : String) : Option Joining :=
  let s := { s with hasRepo := Function.update s.hasRepo i true }
  match s.repoOwner repo with
  | some j =>
    match find fuel s.parent i with
    | none => none
    | some (a,parent) =>
      match find fuel parent j with
      | none => none
      | some (b,parent) => some { s with parent := Function.update parent a b }
  | none => some { s with repoOwner := Function.update s.repoOwner repo (some i) }

def joinRepos (fuel : ℕ) (repos : List (List String)) (s : Joining) (i : ℕ) : Option Joining :=
  (repos.getD i []).foldlM (joinRepo fuel i) s

/-- `roots` and `groups` in one: a group is found under its root, in the order of the roots. -/
abbrev Groups := List (Group ℕ Unit (ℕ × String))

def groupLabel (fuel : ℕ) (labels : List String) (hasRepo : ℕ → Bool) (s : (ℕ → ℕ) × Groups)
    (i : ℕ) : Option ((ℕ → ℕ) × Groups) :=
  if hasRepo i then
    match find fuel s.1 i with
    | none => none
    | some (r,parent) => some (parent,add Prod.fst (fun _ => ()) s.2 (r,labels.getD i ""))
  else some s

/-- The empty list is nil. -/
def distinctApplications (fuel : ℕ) (labels : List String) (repos : List (List String)) :
    Option (List (List String)) :=
  match (List.range labels.length).foldlM (joinRepos fuel repos) {} with
  | none => none
  | some s =>
    match (List.range labels.length).foldlM (groupLabel fuel labels s.hasRepo) (s.parent,[]) with
    | none => none
    | some (_,groups) =>
      if groups.length < 2 then some []
      else some (groups.map fun g => g.members.map Prod.snd)

section Joins

/-- Linked by names that were seen. -/
def Linked (seen : List (ℕ × String)) : ℕ → ℕ → Prop :=
  Relation.ReflTransGen fun i j => ∃ repo, (i,repo) ∈ seen ∧ (j,repo) ∈ seen

variable {n fuel i j : ℕ} {seen : List (ℕ × String)} {s : Joining} {repo : String}

theorem Linked.symm (h : Linked seen i j) : Linked seen j i := by
  induction h with
  | refl => exact .refl
  | tail _ h ih =>
    obtain ⟨repo,hi,hj⟩ := h
    exact .head ⟨repo,hj,hi⟩ ih

theorem Linked.more {p : ℕ × String} (h : Linked seen i j) : Linked (seen++[p]) i j := by
  refine Relation.ReflTransGen.mono (fun a b hab => ?_) _ _ h
  obtain ⟨repo,ha,hb⟩ := hab
  exact ⟨repo,List.mem_append_left _ ha,List.mem_append_left _ hb⟩

/-- What the loop has joined after it has seen these names. -/
structure Joined (n : ℕ) (seen : List (ℕ × String)) (s : Joining) : Prop where
  forest : Forest n s.parent
  small : ∀ i repo, (i,repo) ∈ seen → i < n
  owner : ∀ repo j, s.repoOwner repo = some j → (j,repo) ∈ seen
  owned : ∀ i repo, (i,repo) ∈ seen → ∃ j, s.repoOwner repo = some j ∧ Same s.parent i j
  sound : ∀ i j, Same s.parent i j → Linked seen i j
  hasRepo : ∀ i, s.hasRepo i = true ↔ ∃ repo, (i,repo) ∈ seen

theorem started_joined (n : ℕ) : Joined n [] {} where
  forest := id_forest n
  small _ _ h := nomatch h
  owner _ _ h := nomatch h
  owned _ _ h := nomatch h
  sound i j h := same_id.mp h ▸ .refl
  hasRepo i := by simp

theorem Joined.same_self (h : Joined n seen s) (i : ℕ) : Same s.parent i i := by
  obtain ⟨r,hr⟩ := h.forest.rooted i
  exact ⟨r,hr,hr⟩

/-- Sharing owners is enough: what is linked is joined. -/
theorem Joined.complete (h : Joined n seen s) (hij : Linked seen i j) : Same s.parent i j := by
  induction hij with
  | refl => exact h.same_self i
  | tail _ hab ih =>
    obtain ⟨repo,ha,hb⟩ := hab
    obtain ⟨p,hp,hap⟩ := h.owned _ repo ha
    obtain ⟨q,hq,hbq⟩ := h.owned _ repo hb
    obtain rfl := Option.some.inj (hp.symm.trans hq)
    exact ih.trans (hap.trans hbq.symm)

theorem update_hasRepo (h : Joined n seen s) (x : ℕ) :
    Function.update s.hasRepo i true x = true ↔ ∃ r, (x,r) ∈ seen++[(i,repo)] := by
  by_cases hx : x = i
  · subst hx
    rw [Function.update_self]
    exact ⟨fun _ => ⟨repo,by simp⟩,fun _ => rfl⟩
  · rw [Function.update_of_ne hx, h.hasRepo x]
    simp [hx]

/-- A name that has an owner: the two trees are joined. -/
theorem link_joined (h : Joined n seen s) (hi : i < n) {next : ℕ → ℕ} {a b : ℕ}
    (hown : s.repoOwner repo = some j) (hforest : Forest n next) (hkeeps : Keeps s.parent next)
    (ha : Root next i a) (hb : Root next j b) :
    Joined n (seen++[(i,repo)]) { s with
      hasRepo := Function.update s.hasRepo i true
      parent := Function.update next a b } := by
  have hj : (j,repo) ∈ seen := h.owner repo j hown
  have hsame : ∀ x y, Same (Function.update next a b) x y ↔
      Same s.parent x y ∨ (Root next x a ∧ Root next y b) ∨ (Root next x b ∧ Root next y a) := by
    intro x y
    rw [link_same hforest ha.fixed hb.fixed, hkeeps.same h.forest]
  have hold : ∀ x y, Root next x y → ∀ z, Root next z y → Linked (seen++[(i,repo)]) x z := by
    intro x y hx z hz
    exact (h.sound x z ((hkeeps.same h.forest).mp ⟨y,hx,hz⟩)).more
  have hlink : Linked (seen++[(i,repo)]) i j :=
    .single ⟨repo,by simp,List.mem_append_left _ hj⟩
  constructor
  · exact link_forest hforest ha.fixed hb.fixed (hb.lt hforest.closed (h.small j repo hj))
  · intro x r hx
    cases List.mem_append.mp hx with
    | inl hx => exact h.small x r hx
    | inr hx =>
      obtain ⟨rfl,-⟩ := Prod.mk.inj (List.mem_singleton.mp hx)
      exact hi
  · exact fun r x hx => List.mem_append_left _ (h.owner r x hx)
  · intro x r hx
    cases List.mem_append.mp hx with
    | inl hx =>
      obtain ⟨y,hy,hxy⟩ := h.owned x r hx
      exact ⟨y,hy,(hsame x y).mpr (.inl hxy)⟩
    | inr hx =>
      obtain ⟨rfl,rfl⟩ := Prod.mk.inj (List.mem_singleton.mp hx)
      exact ⟨j,hown,(hsame x j).mpr (.inr (.inl ⟨ha,hb⟩))⟩
  · intro x y hxy
    obtain hxy | ⟨hx,hy⟩ | ⟨hx,hy⟩ := (hsame x y).mp hxy
    · exact (h.sound x y hxy).more
    · exact (hold x a hx i ha).trans (hlink.trans (hold j b hb y hy))
    · exact (hold x b hx j hb).trans (hlink.symm.trans (hold i a ha y hy))
  · exact update_hasRepo h

/-- A name without an owner gets one. -/
theorem own_joined (h : Joined n seen s) (hi : i < n) (hown : s.repoOwner repo = none) :
    Joined n (seen++[(i,repo)]) { s with
      hasRepo := Function.update s.hasRepo i true
      repoOwner := Function.update s.repoOwner repo (some i) } := by
  constructor
  · exact h.forest
  · intro x r hx
    cases List.mem_append.mp hx with
    | inl hx => exact h.small x r hx
    | inr hx =>
      obtain ⟨rfl,-⟩ := Prod.mk.inj (List.mem_singleton.mp hx)
      exact hi
  · intro r x hx
    have hx : Function.update s.repoOwner repo (some i) r = some x := hx
    by_cases hr : r = repo
    · rw [hr, Function.update_self] at hx
      obtain rfl := Option.some.inj hx
      simp [hr]
    · rw [Function.update_of_ne hr] at hx
      exact List.mem_append_left _ (h.owner r x hx)
  · intro x r hx
    cases List.mem_append.mp hx with
    | inl hx =>
      obtain ⟨y,hy,hxy⟩ := h.owned x r hx
      have hr : r ≠ repo := by
        rintro rfl
        cases hown.symm.trans hy
      refine ⟨y,?_,hxy⟩
      show Function.update s.repoOwner repo (some i) r = some y
      rw [Function.update_of_ne hr, hy]
    | inr hx =>
      obtain ⟨rfl,rfl⟩ := Prod.mk.inj (List.mem_singleton.mp hx)
      refine ⟨x,?_,h.same_self x⟩
      show Function.update s.repoOwner r (some x) r = some x
      rw [Function.update_self]
  · exact fun x y hxy => (h.sound x y hxy).more
  · exact update_hasRepo h

theorem joinRepo_joined (h : Joined n seen s) (hi : i < n) (hfuel : n ≤ fuel) (repo : String) :
    ∃ t, joinRepo fuel i s repo = some t ∧ Joined n (seen++[(i,repo)]) t := by
  unfold joinRepo
  dsimp only
  cases hown : s.repoOwner repo with
  | none => exact ⟨_,rfl,own_joined h hi hown⟩
  | some j =>
    obtain ⟨a,one,hfind,ha,hone,hkeeps⟩ := find_spec h.forest hi hfuel
    have hj := h.small j repo (h.owner repo j hown)
    obtain ⟨b,two,hfind',hb,htwo,hkeeps'⟩ := find_spec hone hj hfuel
    dsimp only
    rw [hfind]
    dsimp only
    rw [hfind']
    exact ⟨_,rfl,link_joined h hi hown htwo (hkeeps.trans hkeeps')
      (hkeeps' i a (hkeeps i a ha)) (hkeeps' j b hb)⟩

theorem joinRepo_all (h : Joined n seen s) (hi : i < n) (hfuel : n ≤ fuel) (rs : List String) :
    ∃ t, rs.foldlM (joinRepo fuel i) s = some t ∧ Joined n (seen++rs.map (i,·)) t := by
  induction rs generalizing seen s with
  | nil => exact ⟨s,rfl,by simpa using h⟩
  | cons repo rs ih =>
    obtain ⟨t,ht,hjoined⟩ := joinRepo_joined h hi hfuel repo
    obtain ⟨u,hu,hall⟩ := ih hjoined
    refine ⟨u,?_,by simpa using hall⟩
    rw [List.foldlM_cons, ht]
    exact hu

/-- The names of the first workloads. -/
def names (repos : List (List String)) (is : List ℕ) : List (ℕ × String) :=
  is.flatMap fun i => (repos.getD i []).map (i,·)

theorem joinRepos_all (repos : List (List String)) (h : Joined n seen s) (is : List ℕ)
    (his : ∀ i ∈ is, i < n) (hfuel : n ≤ fuel) :
    ∃ t, is.foldlM (joinRepos fuel repos) s = some t ∧ Joined n (seen++names repos is) t := by
  induction is generalizing seen s with
  | nil => exact ⟨s,rfl,by simpa [names] using h⟩
  | cons i is ih =>
    obtain ⟨t,ht,hjoined⟩ := joinRepo_all h (his i List.mem_cons_self) hfuel (repos.getD i [])
    obtain ⟨u,hu,hall⟩ := ih hjoined fun j hj => his j (List.mem_cons_of_mem i hj)
    refine ⟨u,?_,by simpa [names, List.append_assoc] using hall⟩
    rw [List.foldlM_cons, joinRepos, ht]
    exact hu

end Joins

/-- Two workloads run an image name in common. -/
def Shares (labels : List String) (repos : List (List String)) (i j : ℕ) : Prop :=
  i < labels.length ∧ j < labels.length ∧ ∃ repo, repo ∈ repos.getD i [] ∧ repo ∈ repos.getD j []

/-- In one component. -/
def Connected (labels : List String) (repos : List (List String)) : ℕ → ℕ → Prop :=
  Relation.ReflTransGen (Shares labels repos)

/-- The first workload of its component. -/
def First (labels : List String) (repos : List (List String)) (i : ℕ) : Prop :=
  repos.getD i [] ≠ [] ∧ ∀ j, j < i → ¬Connected labels repos j i

open Classical in
/-- The components of the workloads that run anything, each in the order of its workloads, in the
order of their first ones. -/
noncomputable def components (labels : List String) (repos : List (List String)) :
    List (List String) :=
  ((List.range labels.length).filter fun i => First labels repos i).map fun i =>
    ((List.range labels.length).filter fun j =>
      repos.getD j [] ≠ [] ∧ Connected labels repos i j).map (labels.getD · "")

section Groups

variable {labels : List String} {repos : List (List String)} {n fuel k : ℕ}

theorem mem_names {is : List ℕ} {i : ℕ} {repo : String} :
    (i,repo) ∈ names repos is ↔ i ∈ is ∧ repo ∈ repos.getD i [] := by
  unfold names
  rw [List.mem_flatMap]
  constructor
  · rintro ⟨j,hj,hin⟩
    obtain ⟨r,hr,heq⟩ := List.mem_map.mp hin
    obtain ⟨rfl,rfl⟩ := Prod.mk.inj heq
    exact ⟨hj,hr⟩
  · rintro ⟨hi,hr⟩
    exact ⟨i,hi,List.mem_map_of_mem hr⟩

theorem linked_connected : Linked (names repos (List.range labels.length)) =
    Connected labels repos := by
  unfold Linked Connected
  congr 1
  ext i j
  simp only [mem_names, List.mem_range, Shares]
  constructor
  · rintro ⟨repo,⟨hi,hri⟩,hj,hrj⟩
    exact ⟨hi,hj,repo,hri,hrj⟩
  · rintro ⟨hi,hj,repo,hri,hrj⟩
    exact ⟨repo,⟨hi,hri⟩,hj,hrj⟩

/-- What a workload brings to its group. -/
def keyed (labels : List String) (root : ℕ → ℕ) (i : ℕ) : ℕ × String := (root i,labels.getD i "")

variable (labels) in
/-- The second loop groups the workloads that run anything by their roots. -/
theorem groupLabel_all (hasRepo : ℕ → Bool) {parent : ℕ → ℕ} {root : ℕ → ℕ} (gs : Groups)
    (h : Forest n parent) (hroot : ∀ i, Root parent i (root i)) (is : List ℕ)
    (his : ∀ i ∈ is, i < n) (hfuel : n ≤ fuel) :
    ∃ next, is.foldlM (groupLabel fuel labels hasRepo) (parent,gs) =
      some (next,((is.filter hasRepo).map (keyed labels root)).foldl
        (add Prod.fst fun _ => ()) gs) := by
  induction is generalizing parent gs with
  | nil => exact ⟨parent,rfl⟩
  | cons i is ih =>
    have hrest : ∀ j ∈ is, j < n := fun j hj => his j (List.mem_cons_of_mem i hj)
    rw [List.foldlM_cons, groupLabel]
    by_cases hi : hasRepo i = true
    · obtain ⟨r,next,hfind,hr,hforest,hkeeps⟩ := find_spec h (his i List.mem_cons_self) hfuel
      obtain rfl := hr.unique (hroot i)
      obtain ⟨last,hlast⟩ := @ih _ (add Prod.fst (fun _ => ()) gs (root i,labels.getD i ""))
        hforest (fun j => hkeeps j _ (hroot j)) hrest
      refine ⟨last,?_⟩
      rw [if_pos hi, List.filter_cons_of_pos hi, List.map_cons, List.foldl_cons]
      dsimp only
      rw [hfind]
      exact hlast
    · obtain ⟨last,hlast⟩ := @ih _ gs h hroot hrest
      refine ⟨last,?_⟩
      rw [if_neg hi, List.filter_cons_of_neg hi]
      exact hlast

/-- The keys of the groups, in the order of the first workloads. -/
theorem collect_first_keys {root : ℕ → ℕ} (hc : ∀ i j, Connected labels repos i j ↔ root i = root j)
    (p : ℕ → Bool) (hp : ∀ i, p i = true ↔ First labels repos i) (q : ℕ → Bool)
    (hq : ∀ i, q i = true ↔ repos.getD i [] ≠ []) (k : ℕ) :
    (collect Prod.fst (fun _ : ℕ × String => ()) (((List.range k).filter q).map
      (keyed labels root))).map Group.key = ((List.range k).filter p).map root := by
  induction k with
  | zero => rfl
  | succ k ih =>
    rw [List.range_succ, List.filter_append, List.filter_append, List.map_append, List.map_append]
    by_cases hk : q k = true
    · have hone : ([k].filter q).map (keyed labels root) = [(root k,labels.getD k "")] := by
        simp [hk, keyed]
      rw [hone, collect, List.foldl_append, List.foldl_cons, List.foldl_nil, add_keys]
      rw [collect] at ih
      rw [ih]
      -- the group of `k` is there exactly if `k` is not the first of its component
      have hthere : root k ∈ ((List.range k).filter p).map root ↔ ¬First labels repos k := by
        constructor
        · intro hin
          obtain ⟨i,hi,heq⟩ := List.mem_map.mp hin
          have hik := List.mem_range.mp (List.mem_filter.mp hi).1
          exact fun hfirst => hfirst.2 i hik ((hc i k).mpr heq)
        · intro hnot
          have hcollected := collect_collected Prod.fst (fun _ : ℕ × String => ())
            (((List.range k).filter q).map (keyed labels root))
          have hex : ∃ j, j < k ∧ Connected labels repos j k := by
            by_contra hnone
            push Not at hnone
            exact hnot ⟨(hq k).mp hk,hnone⟩
          obtain ⟨j,hj,hjk⟩ := hex
          have hjq : q j = true := by
            rw [hq]
            cases hjk.cases_head with
            | inl heq => exact absurd heq (Nat.ne_of_lt hj)
            | inr hstep =>
              obtain ⟨_,⟨-,-,repo,hr,-⟩,-⟩ := hstep
              exact List.ne_nil_of_mem hr
          have hmem : keyed labels root j ∈ ((List.range k).filter q).map (keyed labels root) :=
            List.mem_map_of_mem (List.mem_filter.mpr ⟨List.mem_range.mpr hj,hjq⟩)
          obtain ⟨g,hg,hkey⟩ := hcollected.cover _ hmem
          rw [← ih, ← (hc j k).mp hjk]
          have hkey : g.key = root j := hkey
          rw [← hkey]
          exact List.mem_map_of_mem hg
      by_cases hfirst : First labels repos k
      · rw [if_neg (fun hin => hthere.mp hin hfirst)]
        simp [(hp k).mpr hfirst]
      · rw [if_pos (hthere.mpr hfirst)]
        have hnp : ¬p k = true := fun h => hfirst ((hp k).mp h)
        simp [hnp]
    · have hnp : ¬p k = true := fun h => hk ((hq k).mpr ((hp k).mp h).1)
      simp [hk, hnp, ih]

end Groups

/-- The answer is the components if there are two. -/
theorem distinctApplications_eq (labels : List String) (repos : List (List String)) {fuel : ℕ}
    (hfuel : labels.length ≤ fuel) :
    distinctApplications fuel labels repos =
      some (if (components labels repos).length < 2 then [] else components labels repos) := by
  classical
  obtain ⟨s,hs,hjoined⟩ := joinRepos_all repos (started_joined labels.length)
    (List.range labels.length) (fun i => List.mem_range.mp) hfuel
  rw [List.nil_append] at hjoined
  choose root hroot using hjoined.forest.rooted
  have hc : ∀ i j, Connected labels repos i j ↔ root i = root j := by
    intro i j
    rw [← linked_connected]
    constructor
    · intro h
      obtain ⟨r,hi,hj⟩ := hjoined.complete h
      exact ((hroot i).unique hi).trans ((hroot j).unique hj).symm
    · intro h
      exact hjoined.sound i j ⟨root i,hroot i,h ▸ hroot j⟩
  have hq : ∀ i, i < labels.length → (s.hasRepo i = true ↔ repos.getD i [] ≠ []) := by
    intro i hi
    rw [hjoined.hasRepo]
    simp only [mem_names, List.mem_range, hi, true_and]
    exact ⟨fun ⟨r,hr⟩ => List.ne_nil_of_mem hr,List.exists_mem_of_ne_nil _⟩
  obtain ⟨next,hnext⟩ := groupLabel_all labels s.hasRepo []
    hjoined.forest hroot (List.range labels.length) (fun i => List.mem_range.mp) hfuel
  have hfilter : (List.range labels.length).filter s.hasRepo =
      (List.range labels.length).filter fun i => repos.getD i [] ≠ [] := by
    apply List.filter_congr
    intro i hi
    rw [Bool.eq_iff_iff, hq i (List.mem_range.mp hi), decide_eq_true_iff]
  have hkeys := collect_first_keys hc (fun i => decide (First labels repos i))
    (fun i => decide_eq_true_iff) (fun i => decide (repos.getD i [] ≠ []))
    (fun i => decide_eq_true_iff) labels.length
  have hcollected := collect_collected Prod.fst (fun _ : ℕ × String => ())
    (((List.range labels.length).filter fun i => repos.getD i [] ≠ []).map (keyed labels root))
  rw [hfilter] at hnext
  unfold distinctApplications
  rw [hs]
  dsimp only
  rw [hnext]
  dsimp only
  rw [← collect]
  generalize collect Prod.fst (fun _ : ℕ × String => ())
    (((List.range labels.length).filter fun i => repos.getD i [] ≠ []).map (keyed labels root)) = gs
    at hkeys hcollected
  have hgroups : (gs.map fun g => g.members.map Prod.snd) = components labels repos := by
    have hone : (gs.map fun g => g.members.map Prod.snd) = (gs.map Group.key).map fun r =>
        ((((List.range labels.length).filter fun i => repos.getD i [] ≠ []).map
          (keyed labels root)).filter fun x => x.1 = r).map Prod.snd := by
      rw [List.map_map]
      apply List.map_congr_left
      intro g hg
      rw [hcollected.members g hg]
      rfl
    rw [hone, hkeys, List.map_map, components]
    apply List.map_congr_left
    intro i _
    simp only [Function.comp_apply, List.filter_map, List.map_map, List.filter_filter]
    have hmap : Prod.snd ∘ keyed labels root = (labels.getD · "") := rfl
    rw [hmap]
    congr 1
    apply List.filter_congr
    intro j _
    rw [Bool.eq_iff_iff, Bool.and_eq_true, decide_eq_true_iff, decide_eq_true_iff,
      decide_eq_true_iff, hc i j, and_comm]
    exact and_congr_right fun _ => eq_comm
  have hlen : gs.length = (components labels repos).length := by
    rw [← hgroups, List.length_map]
  rw [hlen, hgroups]
  split <;> rfl

/-- The components are those of the sets of names. -/
theorem components_congr {labels : List String} {repos repos' : List (List String)}
    (h : ∀ i repo, repo ∈ repos'.getD i [] ↔ repo ∈ repos.getD i []) :
    components labels repos' = components labels repos := by
  have hshares : Shares labels repos' = Shares labels repos := by
    ext i j
    simp only [Shares, h]
  have hnil : ∀ i, repos'.getD i [] ≠ [] ↔ repos.getD i [] ≠ [] := by
    intro i
    constructor
    · intro hne
      obtain ⟨r,hr⟩ := List.exists_mem_of_ne_nil _ hne
      exact List.ne_nil_of_mem ((h i r).mp hr)
    · intro hne
      obtain ⟨r,hr⟩ := List.exists_mem_of_ne_nil _ hne
      exact List.ne_nil_of_mem ((h i r).mpr hr)
  have hconnected : Connected labels repos' = Connected labels repos := by
    unfold Connected
    rw [hshares]
  have hfirst : ∀ i, First labels repos' i ↔ First labels repos i := by
    intro i
    rw [First, First, hnil, hconnected]
  unfold components
  rw [List.filter_congr fun i _ => decide_eq_decide.mpr (hfirst i)]
  apply List.map_congr_left
  intro i _
  rw [List.filter_congr fun j _ => decide_eq_decide.mpr (and_congr (hnil j)
    (by rw [hconnected]))]

/-- `find` always returns, the answer is the components if there are two, and it is the same
whatever the order in which the names of a workload come. -/
theorem distinct_applications (labels : List String) (repos : List (List String)) {fuel : ℕ}
    (hfuel : labels.length ≤ fuel) :
    distinctApplications fuel labels repos =
      some (if (components labels repos).length < 2 then [] else components labels repos) ∧
    ∀ repos' : List (List String),
      (∀ i repo, repo ∈ repos'.getD i [] ↔ repo ∈ repos.getD i []) →
        distinctApplications fuel labels repos' = distinctApplications fuel labels repos := by
  refine ⟨distinctApplications_eq labels repos hfuel,fun repos' hsame => ?_⟩
  rw [distinctApplications_eq labels repos hfuel, distinctApplications_eq labels repos' hfuel,
    components_congr hsame]

example : distinctApplications 4 ["web","api","job","db"]
    [["nginx"],["redis"],["redis","nginx"],["postgres"]] =
      some [["web","api","job"],["db"]] := by decide +kernel

theorem distinct_applications_two :
    distinctApplications 2 ["web","api"] [["nginx"],["envoy","nginx"]] =
      some (if (components ["web","api"] [["nginx"],["envoy","nginx"]]).length < 2 then []
        else components ["web","api"] [["nginx"],["envoy","nginx"]]) ∧
    distinctApplications 2 ["web","api"] [["nginx"],["nginx","envoy"]] =
      distinctApplications 2 ["web","api"] [["nginx"],["envoy","nginx"]] := by
  have h := distinct_applications ["web","api"] [["nginx"],["envoy","nginx"]] (Nat.le_refl 2)
  refine ⟨h.1,h.2 _ fun i repo => ?_⟩
  rcases i with _ | _ | i
  · rfl
  · simp [or_comm]
  · rfl

end Radar.Backends
