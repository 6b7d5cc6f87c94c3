import Radar.WorkloadImages.Template

/-!
# What a patch does to a template

A patch that is applied met every container it names under its name and with
its former image, wherever it stands, and it changes these images and nothing
else. It leaves alone whether a template's images can be listed.
-/

set_option autoImplicit false

namespace Radar.WorkloadImages

section Images

/-- The entry of a list of that type after the updates. -/
def newImage (updates : List WorkloadImageUpdate) (typeName : String) : Entry → Entry
  | .container c =>
    match updates.find? fun u => decide (u.type = typeName ∧ c.name = some u.name) with
    | some u => .container { c with image := some u.image }
    | none => .container c
  | e => e

def Containers.map (f : Entry → Entry) : Containers → Containers
  | list entries => .list (entries.map f)
  | c => c

/-- The template with the new image in every container that an update names, and nothing else new. -/
def withImages (updates : List WorkloadImageUpdate) (t : PodTemplate) : PodTemplate :=
  { t with
    containers := t.containers.map (newImage updates containerTypeRegular)
    initContainers := t.initContainers.map (newImage updates containerTypeInit) }

/-- A container of the update's type and name runs its previous image. -/
def Running (t : PodTemplate) (u : WorkloadImageUpdate) : Prop :=
  ∃ c, .container c ∈ (t.field u.type).entries ∧ c.name = some u.name ∧
    c.image = some u.previousImage

/-- No two entries of a list have one name. -/
def Unique (t : PodTemplate) : Prop :=
  ∀ typeName, (t.field typeName).entries.Pairwise fun a b => ∀ n, a.name = some n → b.name ≠ some n

def Known (typeName : String) : Prop :=
  typeName = containerTypeRegular ∨ typeName = containerTypeInit

def keyOf (u : WorkloadImageUpdate) : String × String := (u.type,u.name)

variable {updates : List WorkloadImageUpdate} {u : WorkloadImageUpdate} {typeName : String}

theorem entries_map (f : Entry → Entry) (c : Containers) : (c.map f).entries = c.entries.map f := by
  cases c <;> rfl

theorem map_congr {f g : Entry → Entry} {c : Containers} (h : ∀ e ∈ c.entries, f e = g e) :
    c.map f = c.map g := by
  cases c with
  | list entries => exact congrArg Containers.list (List.map_congr_left h)
  | absent => rfl
  | malformed => rfl

theorem map_self {f : Entry → Entry} {c : Containers} (h : ∀ e ∈ c.entries, f e = e) :
    c.map f = c := by
  cases c with
  | list entries =>
    exact congrArg Containers.list ((List.map_congr_left h).trans (List.map_id entries))
  | absent => rfl
  | malformed => rfl

theorem map_map (f g : Entry → Entry) (c : Containers) : (c.map f).map g = c.map (g ∘ f) := by
  cases c with
  | list entries => exact congrArg Containers.list List.map_map
  | absent => rfl
  | malformed => rfl

theorem init_ne_regular : containerTypeRegular ≠ containerTypeInit := by
  decide

theorem field_withImages (h : Known typeName) (t : PodTemplate) :
    (withImages updates t).field typeName = (t.field typeName).map (newImage updates typeName) := by
  rcases h with rfl | rfl
  · rw [PodTemplate.field, PodTemplate.field, if_neg init_ne_regular, if_neg init_ne_regular]
    rfl
  · rw [PodTemplate.field, PodTemplate.field, if_pos rfl, if_pos rfl]
    rfl

@[simp] theorem newImage_name (e : Entry) : (newImage updates typeName e).name = e.name := by
  cases e with
  | malformed => rfl
  | container c =>
    rw [newImage]
    split <;> rfl

/-- An entry that no update names stays. -/
theorem newImage_self {e : Entry} (h : ∀ u ∈ updates, u.type = typeName → e.name ≠ some u.name) :
    newImage updates typeName e = e := by
  cases e with
  | malformed => rfl
  | container c =>
    have hnone : updates.find? (fun u => decide (u.type = typeName ∧ c.name = some u.name)) = none := by
      rw [List.find?_eq_none]
      intro u hu hfound
      obtain ⟨htype,hname⟩ := of_decide_eq_true hfound
      exact h u hu htype hname
    rw [newImage, hnone]

theorem newImage_one {c : Container} (hname : c.name = some u.name) :
    newImage [u] u.type (.container c) = .container { c with image := some u.image } := by
  simp [newImage, hname]

/-- Updates of different containers can be made one after the other. -/
theorem newImage_cons (h : ∀ u' ∈ updates, keyOf u' ≠ keyOf u) (e : Entry) :
    newImage updates typeName (newImage [u] typeName e) = newImage (u::updates) typeName e := by
  cases e with
  | malformed => rfl
  | container c =>
    by_cases hu : u.type = typeName ∧ c.name = some u.name
    · obtain ⟨rfl,hname⟩ := hu
      rw [newImage_one hname, newImage_self]
      · simp [newImage, hname]
      · intro u' hu' htype hsame
        have hnames : some u'.name = some u.name := hsame.symm.trans hname
        exact h u' hu' (Prod.ext htype (Option.some.inj hnames))
    · have hself : newImage [u] typeName (.container c) = .container c := by
        apply newImage_self
        intro u' hu' htype hsame
        rw [List.mem_singleton.mp hu'] at htype hsame
        exact hu ⟨htype,hsame⟩
      rw [hself]
      simp [newImage, hu]

theorem withImages_cons (h : ∀ u' ∈ updates, keyOf u' ≠ keyOf u) (t : PodTemplate) :
    withImages updates (withImages [u] t) = withImages (u::updates) t := by
  simp only [withImages, map_map]
  congr 1
  · exact map_congr fun e _ => newImage_cons h e
  · exact map_congr fun e _ => newImage_cons h e

theorem unique_withImages {t : PodTemplate} (h : Unique t) : Unique (withImages updates t) := by
  have hknown : ∀ typeName, Known typeName → (withImages updates t).field typeName =
      (t.field typeName).map (newImage updates typeName) := fun _ hk => field_withImages hk t
  intro typeName
  by_cases hinit : typeName = containerTypeInit
  · subst hinit
    rw [hknown _ (.inr rfl), entries_map, List.pairwise_map]
    simpa using h containerTypeInit
  · have hfield : ∀ t : PodTemplate, t.field typeName = t.field containerTypeRegular := by
      intro t
      rw [PodTemplate.field, PodTemplate.field, if_neg hinit, if_neg init_ne_regular]
    rw [hfield, hknown _ (.inl rfl), entries_map, List.pairwise_map]
    simpa using h containerTypeRegular

/-- An update of another container leaves alone whether a container runs its previous image. -/
theorem running_before {u' : WorkloadImageUpdate} {t : PodTemplate} (hknown : Known u'.type)
    (hne : keyOf u' ≠ keyOf u) (h : Running (withImages [u] t) u') : Running t u' := by
  obtain ⟨c,hc,hname,himage⟩ := h
  rw [field_withImages hknown, entries_map] at hc
  obtain ⟨e,he,heq⟩ := List.mem_map.mp hc
  have hsame : e.name = some u'.name := by
    have hkept : (newImage [u] u'.type e).name = e.name := newImage_name e
    rw [heq] at hkept
    exact hkept.symm.trans hname
  rw [newImage_self] at heq
  · subst heq
    exact ⟨c,he,hname,himage⟩
  · intro v hv htype hv'
    rw [List.mem_singleton.mp hv] at htype hv'
    exact hne (Prod.ext htype.symm (Option.some.inj (hsame.symm.trans hv')))

end Images

section Apply

variable {u : WorkloadImageUpdate} {t t' : PodTemplate} {entries : List Entry} {i j : ℕ}

theorem names_apart (h : entries.Pairwise fun a b => ∀ n, a.name = some n → b.name ≠ some n)
    {a b : Entry} (hi : entries[i]? = some a) (hj : entries[j]? = some b) (hne : i ≠ j) {n : String}
    (ha : a.name = some n) : b.name ≠ some n := by
  obtain ⟨hilt,rfl⟩ := List.getElem?_eq_some_iff.mp hi
  obtain ⟨hjlt,rfl⟩ := List.getElem?_eq_some_iff.mp hj
  rw [List.pairwise_iff_getElem] at h
  rcases Nat.lt_or_gt_of_ne hne with hlt | hgt
  · exact h i j hilt hjlt hlt n ha
  · exact fun hb => h j i hjlt hilt hgt n hb ha

/-- To set the image at the index of the container is to set it under its name. -/
theorem set_eq_map (h : entries.Pairwise fun a b => ∀ n, a.name = some n → b.name ≠ some n)
    {c : Container} (hi : entries[i]? = some (.container c)) (hname : c.name = some u.name) :
    entries.set i (.container { c with image := some u.image }) =
      entries.map (newImage [u] u.type) := by
  apply List.ext_getElem?
  intro j
  rw [List.getElem?_map]
  by_cases hj : i = j
  · subst hj
    obtain ⟨hlt,-⟩ := List.getElem?_eq_some_iff.mp hi
    rw [List.getElem?_set_self hlt, hi, Option.map_some, newImage_one hname]
  · rw [List.getElem?_set_ne hj]
    cases he : entries[j]? with
    | none => rfl
    | some e =>
      rw [Option.map_some, newImage_self]
      intro v hv _ hsame
      rw [List.mem_singleton.mp hv] at hsame
      exact names_apart h hi he hj hname hsame

theorem setField_withImages (hknown : Known u.type) (h : t.field u.type = .list entries) :
    t.setField u.type (.list (entries.map (newImage [u] u.type))) = withImages [u] t := by
  rcases hknown with htype | htype
  · have hother : t.initContainers.map (newImage [u] containerTypeInit) = t.initContainers := by
      apply map_self
      intro e _
      apply newImage_self
      intro v hv hv'
      rw [List.mem_singleton.mp hv, htype] at hv'
      exact absurd hv' init_ne_regular
    rw [PodTemplate.field, htype, if_neg init_ne_regular] at h
    rw [PodTemplate.setField, htype, if_neg init_ne_regular, withImages, hother, h]
    rfl
  · have hother : t.containers.map (newImage [u] containerTypeRegular) = t.containers := by
      apply map_self
      intro e _
      apply newImage_self
      intro v hv hv'
      rw [List.mem_singleton.mp hv, htype] at hv'
      exact absurd hv'.symm init_ne_regular
    rw [PodTemplate.field, htype, if_pos rfl] at h
    rw [PodTemplate.setField, htype, if_pos rfl, withImages, hother, h]
    rfl

theorem test_some {path : Pointer} {value : String}
    (h : applyOperation t (.test path value) = some t') :
    t' = t ∧ ∃ c, (t.field path.type).entries[path.index]? = some (.container c) ∧
      c.leaf path.leaf = some value := by
  unfold applyOperation at h
  cases he : (t.field path.type).entries[path.index]? with
  | none => simp [he] at h
  | some e =>
    cases e with
    | malformed raw => simp [he] at h
    | container c =>
      simp only [he] at h
      split_ifs at h with hleaf
      exact ⟨(Option.some.inj h).symm,c,rfl,hleaf⟩

theorem replace_some {path : Pointer} {value : String} {c : Container}
    (he : (t.field path.type).entries[path.index]? = some (.container c))
    (h : applyOperation t (.replace path value) = some t') :
    t' = t.setField path.type (.list ((t.field path.type).entries.set path.index
      (.container (c.setLeaf value path.leaf)))) := by
  unfold applyOperation at h
  simp only [he] at h
  split_ifs at h
  exact (Option.some.inj h).symm

/-- The operations of one update, wherever its container stands. -/
theorem apply_update (hunique : Unique t) (hknown : Known u.type)
    (h : applyPatch t (imageOperations u i) = some t') :
    Running t u ∧ t' = withImages [u] t := by
  obtain ⟨t₁,hname,hrest⟩ := Option.bind_eq_some_iff.mp h
  obtain ⟨t₂,himage,hlast⟩ := Option.bind_eq_some_iff.mp hrest
  obtain ⟨t₃,hset,hdone⟩ := Option.bind_eq_some_iff.mp hlast
  obtain ⟨rfl,c,hc,hcname⟩ := test_some hname
  obtain ⟨rfl,c',hc',hcimage⟩ := test_some himage
  obtain rfl : c = c' := Entry.container.inj (Option.some.inj (hc.symm.trans hc'))
  have ht₃ := replace_some hc' hset
  obtain rfl : t₃ = t' := Option.some.inj hdone
  refine ⟨⟨c,List.mem_of_getElem? hc,hcname,hcimage⟩,?_⟩
  cases hfield : t₂.field u.type with
  | absent => simp [hfield, Containers.entries] at hc
  | malformed => simp [hfield, Containers.entries] at hc
  | list entries =>
    have hmap := set_eq_map (hunique u.type) hc hcname
    rw [ht₃, ← setField_withImages hknown hfield]
    rw [hfield] at hmap ⊢
    exact congrArg (fun entries => t₂.setField u.type (.list entries)) hmap

theorem applyPatch_append (t : PodTemplate) (ops rest : List Operation) :
    applyPatch t (ops++rest) = (applyPatch t ops).bind fun t => applyPatch t rest := by
  simp only [applyPatch, List.foldlM_append]
  rfl

/-- Operations that were built for updates, at any indexes. -/
def Built (updates : List WorkloadImageUpdate) (ops : List Operation) : Prop :=
  ∃ indexes : List ℕ, indexes.length = updates.length ∧
    ops = (updates.zip indexes).flatMap fun p => imageOperations p.1 p.2

theorem apply_updates {updates : List WorkloadImageUpdate} {ops : List Operation}
    (hunique : Unique t) (hknown : ∀ u ∈ updates, Known u.type)
    (hkeys : (updates.map keyOf).Nodup) (hbuilt : Built updates ops)
    (h : applyPatch t ops = some t') :
    (∀ u ∈ updates, Running t u) ∧ t' = withImages updates t := by
  obtain ⟨indexes,hlength,rfl⟩ := hbuilt
  induction updates generalizing t indexes with
  | nil =>
    obtain rfl : t = t' := Option.some.inj h
    refine ⟨fun u hu => (by cases hu),?_⟩
    have hself : ∀ typeName, ∀ c : Containers, c.map (newImage [] typeName) = c :=
      fun _ c => map_self fun e _ => newImage_self fun v hv => (by cases hv)
    rw [withImages, hself, hself]
  | cons u updates ih =>
    cases indexes with
    | nil => cases hlength
    | cons i indexes =>
      rw [List.map_cons, List.nodup_cons] at hkeys
      rw [List.zip_cons_cons, List.flatMap_cons, applyPatch_append] at h
      obtain ⟨t₁,hfirst,hrest⟩ := Option.bind_eq_some_iff.mp h
      obtain ⟨hrunning,rfl⟩ := apply_update hunique (hknown u List.mem_cons_self) hfirst
      have hne : ∀ u' ∈ updates, keyOf u' ≠ keyOf u :=
        fun u' hu' heq => hkeys.1 (heq ▸ List.mem_map_of_mem hu')
      have hknown' : ∀ u' ∈ updates, Known u'.type :=
        fun u' hu' => hknown u' (List.mem_cons_of_mem u hu')
      obtain ⟨hall,rfl⟩ := ih (unique_withImages hunique) hknown' hkeys.2 indexes
        (Nat.succ.inj hlength) hrest
      refine ⟨fun v hv => ?_,withImages_cons hne t⟩
      rcases List.mem_cons.mp hv with rfl | hv
      · exact hrunning
      · exact running_before (hknown' v hv) (hne v hv) (hall v hv)

end Apply

section Listed

/-- An entry that the inventory can list. -/
def Entry.listed : Entry → Bool
  | container c =>
    match c.name, c.image with
    | some name, some image => !(name = "" || image = "")
    | _, _ => false
  | malformed _ => false

theorem containerImage_isOk (templatePath : List String) (typeName : String) (e : Entry) :
    (containerImage templatePath typeName e).isOk = e.listed := by
  cases e with
  | malformed => rfl
  | container c =>
    rw [containerImage, Entry.listed]
    cases c.name with
    | none => rfl
    | some name =>
      cases c.image with
      | none => rfl
      | some image =>
        by_cases hempty : (decide (name = "") || decide (image = "")) = true
        · simp only [hempty]
          rfl
        · simp only [hempty]
          rfl

theorem mapM_isOk {α β ε : Type} (f : α → Except ε β) (l : List α) :
    (l.mapM f).isOk = l.all fun a => (f a).isOk := by
  induction l with
  | nil => rfl
  | cons a l ih =>
    rw [List.mapM_cons, List.all_cons]
    cases hf : f a with
    | error e => rfl
    | ok b =>
      rw [← ih]
      cases hl : l.mapM f <;> rfl

/-- A list of containers that the inventory can list. -/
def Containers.listed (required : Bool) : Containers → Bool
  | absent => !required
  | malformed _ => false
  | list entries => entries.all Entry.listed

theorem inventory_isOk (templatePath : List String) (t : PodTemplate) :
    (inventoryContainerImages templatePath t).isOk =
      (t.containers.listed true && t.initContainers.listed false) := by
  have hlist : ∀ (typeName : String) (c : Containers),
      (listImages templatePath typeName c).isOk =
        c.listed (decide (typeName = containerTypeRegular)) := by
    intro typeName c
    cases c with
    | absent =>
      by_cases hregular : typeName = containerTypeRegular
      · simp [listImages, hregular, Containers.listed]
        rfl
      · simp [listImages, hregular, Containers.listed]
        rfl
    | malformed => rfl
    | list entries =>
      rw [listImages, mapM_isOk]
      simp only [containerImage_isOk]
      rfl
  have hregular := hlist containerTypeRegular t.containers
  have hinit := hlist containerTypeInit t.initContainers
  rw [decide_eq_true rfl] at hregular
  rw [decide_eq_false (Ne.symm init_ne_regular)] at hinit
  rw [← hregular, ← hinit, inventoryContainerImages]
  cases listImages templatePath containerTypeRegular t.containers with
  | error => rfl
  | ok =>
    cases listImages templatePath containerTypeInit t.initContainers with
    | error => rfl
    | ok => rfl

variable {updates : List WorkloadImageUpdate} {t : PodTemplate}

theorem newImage_listed (hunique : Unique t) (hrunning : ∀ u ∈ updates, Running t u)
    (hfull : ∀ u ∈ updates, u.previousImage ≠ "" ∧ u.image ≠ "") {typeName : String} {e : Entry}
    (he : e ∈ (t.field typeName).entries) : (newImage updates typeName e).listed = e.listed := by
  cases e with
  | malformed => rfl
  | container c =>
    rw [newImage]
    cases hfind : updates.find? fun u => decide (u.type = typeName ∧ c.name = some u.name) with
    | none => rfl
    | some u =>
      obtain ⟨rfl,hname⟩ : u.type = typeName ∧ c.name = some u.name := by
        simpa using List.find?_some hfind
      have hu := List.mem_of_find?_eq_some hfind
      obtain ⟨c',hc',hname',himage⟩ := hrunning u hu
      have hsame : c = c' := by
        obtain ⟨i,hi⟩ := List.mem_iff_getElem?.mp he
        obtain ⟨j,hj⟩ := List.mem_iff_getElem?.mp hc'
        by_cases hij : i = j
        · subst hij
          exact Entry.container.inj (Option.some.inj (hi.symm.trans hj))
        · exact absurd hname' (names_apart (hunique u.type) hi hj hij hname)
      obtain ⟨hprevious,himage'⟩ := hfull u hu
      simp [Entry.listed, hname, hsame ▸ himage, hprevious, himage']

theorem containers_listed {f : Entry → Entry} {c : Containers} (required : Bool)
    (h : ∀ e ∈ c.entries, (f e).listed = e.listed) : (c.map f).listed required = c.listed required := by
  cases c with
  | list entries =>
    rw [Containers.map, Containers.listed, Containers.listed, List.all_map, Bool.eq_iff_iff,
      List.all_eq_true, List.all_eq_true]
    exact forall₂_congr fun e he => by rw [Function.comp, h e he]
  | absent => rfl
  | malformed => rfl

/-- Whether the images can be listed does not change with them. -/
theorem inventory_withImages (hunique : Unique t) (hrunning : ∀ u ∈ updates, Running t u)
    (hfull : ∀ u ∈ updates, u.previousImage ≠ "" ∧ u.image ≠ "") (templatePath : List String) :
    (inventoryContainerImages templatePath (withImages updates t)).isOk =
      (inventoryContainerImages templatePath t).isOk := by
  rw [inventory_isOk, inventory_isOk]
  congr 1
  · exact containers_listed true fun e he => newImage_listed hunique hrunning hfull he
  · exact containers_listed false fun e he => newImage_listed hunique hrunning hfull he

end Listed

end Radar.WorkloadImages
