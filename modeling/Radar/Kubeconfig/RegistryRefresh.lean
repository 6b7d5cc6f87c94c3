import Radar.Kubeconfig.ContextRegistry

/-!
# One refresh of the registry

A file's contexts are added under free names, its dead ones are dropped, and the
entries of every other file stay as they are.
-/

set_option autoImplicit false

namespace Radar.Kubeconfig

/-- No pair of a file and a context is registered twice. -/
def OwnPairs (r : Registry) : Prop :=
  ∀ q q' e, r.lookup q = some e → r.lookup q' = some e → q = q'

section Adding

variable {path : Text} {r : Registry}

theorem qualifyContextName_free (r : Registry) (name path : Text) :
    qualifyContextName r name path ∉ r := by
  unfold qualifyContextName
  by_cases hname : name ∉ r
  · rw [if_pos hname]
    exact hname
  · rw [if_neg hname]
    by_cases hbase : qualified name (kubeconfigSourceLabel path) ∉ r
    · simp only [if_pos hbase]
      exact hbase
    · simp only [if_neg hbase]
      exact (Nat.find_spec (exists_numbered r name (kubeconfigSourceLabel path))).2

theorem lookup_register {name q : Text} {e : ContextEntry} :
    (register path r name).lookup q = some e ↔
      r.lookup q = some e ∨ (q = qualifyContextName r name path ∧ e = ⟨path,name⟩) := by
  have hfree := AList.lookup_eq_none.mpr (qualifyContextName_free r name path)
  by_cases hq : q = qualifyContextName r name path
  · rw [register, hq, AList.lookup_insert, hfree]
    simp [eq_comm]
  · rw [register, AList.lookup_insert_ne hq]
    simp [hq]

theorem ownPairs_register {name : Text} (h : OwnPairs r)
    (hnew : ∀ q, r.lookup q ≠ some ⟨path,name⟩) : OwnPairs (register path r name) := by
  intro q q' e hq hq'
  rw [lookup_register] at hq hq'
  rcases hq with hq | ⟨rfl,rfl⟩
  · rcases hq' with hq' | ⟨rfl,rfl⟩
    · exact h q q' e hq hq'
    · exact absurd hq (hnew q)
  · rcases hq' with hq' | ⟨rfl,-⟩
    · exact absurd hq' (hnew q')
    · rfl

/-- What adding the contexts of a file does. -/
structure Added (path : Text) (names : List Text) (r r' : Registry) : Prop where
  keeps : ∀ q e, r.lookup q = some e → r'.lookup q = some e
  fresh : ∀ q e, r'.lookup q = some e → r.lookup q = some e ∨
    ∃ name ∈ names, e = ⟨path,name⟩ ∧ ∀ q', r.lookup q' ≠ some ⟨path,name⟩
  own : OwnPairs r → OwnPairs r'
  all : ∀ name ∈ names, ∃ q, r'.lookup q = some ⟨path,name⟩

theorem added_contexts {qNames names : List Text} (hnames : names.Nodup)
    (hq : ∀ q, ∀ name ∈ names, r.lookup q = some ⟨path,name⟩ → q ∈ qNames) :
    Added path names r (names.foldl (addContext path qNames) r) := by
  induction names generalizing r with
  | nil => exact ⟨fun _ _ h => h,fun _ _ h => .inl h,id,fun _ h => by cases h⟩
  | cons name names ih =>
    obtain ⟨hout,hrest⟩ := List.nodup_cons.mp hnames
    rw [List.foldl_cons, addContext]
    split_ifs with hhas
    · -- the context is there under one of the file's names
      have h := ih hrest fun q other hother => hq q other (List.mem_cons_of_mem name hother)
      refine ⟨h.keeps,fun q e he => ?_,h.own,fun other hother => ?_⟩
      · rcases h.fresh q e he with hold | ⟨other,hother,hnew⟩
        · exact .inl hold
        · exact .inr ⟨other,List.mem_cons_of_mem name hother,hnew⟩
      · rcases List.mem_cons.mp hother with rfl | hother
        · obtain ⟨q,-,hlookup⟩ := List.any_eq_true.mp hhas
          exact ⟨q,h.keeps q _ (of_decide_eq_true hlookup)⟩
        · exact h.all other hother
    · have hnew : ∀ q, r.lookup q ≠ some ⟨path,name⟩ := by
        intro q hlookup
        apply hhas
        rw [List.any_eq_true]
        exact ⟨q,hq q name List.mem_cons_self hlookup,decide_eq_true hlookup⟩
      have h := ih (r := register path r name) hrest fun q other hother hlookup => by
        rcases lookup_register.mp hlookup with hold | ⟨-,heq⟩
        · exact hq q other (List.mem_cons_of_mem name hother) hold
        · exact absurd ((ContextEntry.mk.inj heq).2 ▸ hother) hout
      have hkeep : ∀ q e, r.lookup q = some e → (register path r name).lookup q = some e :=
        fun q e he => lookup_register.mpr (.inl he)
      refine ⟨fun q e he => h.keeps q e (hkeep q e he),fun q e he => ?_,
        fun hown => h.own (ownPairs_register hown hnew),fun other hother => ?_⟩
      · rcases h.fresh q e he with hold | ⟨other,hother,heq,hnone⟩
        · rcases lookup_register.mp hold with hold | ⟨-,heq⟩
          · exact .inl hold
          · exact .inr ⟨name,List.mem_cons_self,heq,hnew⟩
        · exact .inr ⟨other,List.mem_cons_of_mem name hother,heq,
            fun q' hq' => hnone q' (hkeep q' _ hq')⟩
      · rcases List.mem_cons.mp hother with rfl | hother
        · exact ⟨_,h.keeps _ _ (lookup_register.mpr (.inr ⟨rfl,rfl⟩))⟩
        · exact h.all other hother

end Adding

section Dropping

variable {r : Registry} {q : Text} {e : ContextEntry}

theorem lookup_erase_iff {k : Text} :
    (r.erase k).lookup q = some e ↔ r.lookup q = some e ∧ q ≠ k := by
  by_cases hq : q = k
  · rw [hq, AList.lookup_erase]
    simp
  · rw [AList.lookup_erase_ne hq]
    simp [hq]

theorem lookup_erased {qNames : List Text} :
    (qNames.foldl (fun r k => r.erase k) r).lookup q = some e ↔
      r.lookup q = some e ∧ q ∉ qNames := by
  induction qNames generalizing r with
  | nil => simp
  | cons k qNames ih =>
    rw [List.foldl_cons, ih, lookup_erase_iff, List.mem_cons, not_or, and_assoc]

theorem lookup_dropDead {cfg : Config} {qNames : List Text} :
    (dropDead cfg qNames r).lookup q = some e ↔
      r.lookup q = some e ∧ (q ∈ qNames → e.inFileName ∈ cfg.contexts) := by
  rw [dropDead]
  induction qNames generalizing r with
  | nil => simp
  | cons k qNames ih =>
    rw [List.foldl_cons, ih]
    split_ifs with halive
    · constructor
      · rintro ⟨he,hrest⟩
        refine ⟨he,fun hin => ?_⟩
        rcases List.mem_cons.mp hin with rfl | hin
        · rw [he] at halive
          simpa using halive
        · exact hrest hin
      · exact fun ⟨he,h⟩ => ⟨he,fun hin => h (List.mem_cons_of_mem k hin)⟩
    · rw [lookup_erase_iff]
      constructor
      · rintro ⟨⟨he,hne⟩,hrest⟩
        exact ⟨he,fun hin => hrest ((List.mem_cons.mp hin).resolve_left hne)⟩
      · rintro ⟨he,h⟩
        refine ⟨⟨he,?_⟩,fun hin => h (List.mem_cons_of_mem k hin)⟩
        rintro rfl
        apply halive
        rw [he]
        simpa using h List.mem_cons_self

theorem OwnPairs.sub {r' : Registry} (h : OwnPairs r)
    (hsub : ∀ q e, r'.lookup q = some e → r.lookup q = some e) : OwnPairs r' :=
  fun q q' e hq hq' => h q q' e (hsub q e hq) (hsub q' e hq')

theorem mem_namesOf {path : Text} :
    q ∈ namesOf r path ↔ ∃ name, r.lookup q = some ⟨path,name⟩ := by
  rw [namesOf, Names.mem_sorted, List.mem_filter]
  constructor
  · rintro ⟨-,hany⟩
    cases he : r.lookup q with
    | none =>
      rw [he] at hany
      nomatch hany
    | some e =>
      rw [he] at hany
      obtain rfl : e.sourceFile = path := by simpa using hany
      exact ⟨e.inFileName,rfl⟩
  · rintro ⟨name,he⟩
    refine ⟨?_,by rw [he]; simp⟩
    exact AList.lookup_isSome.mp (by rw [he]; rfl)

end Dropping

section Step

/-- The maps after one path, where the inputs are those that the refresh started from. -/
def refreshMaps (fs : FileSystem) (inputs m : Maps) (path : Text) : Maps :=
  let qNames := namesOf inputs.registry path
  match fs path with
  | .regular mtime content =>
    if inputs.fileMtimes.lookup path = some mtime then m
    else
      match content with
      | none => { m with fileMtimes := m.fileMtimes.insert path mtime }
      | some cfg => replaceFile path qNames mtime cfg m
  | _ =>
    if qNames = [] ∧ path ∉ inputs.fileConfigs ∧ path ∉ inputs.fileMtimes then m
    else dropFile path qNames m

/-- The maps are the same about a path. -/
structure AgreeOn (path : Text) (m m' : Maps) : Prop where
  entries : ∀ q name,
    m.registry.lookup q = some ⟨path,name⟩ ↔ m'.registry.lookup q = some ⟨path,name⟩
  mtime : m.fileMtimes.lookup path = m'.fileMtimes.lookup path

/-- What becomes of a path. -/
inductive Outcome (fs : FileSystem) (inputs : Maps) (path : Text) (m : Maps) : Prop where
  | kept (t : ℤ) (content : Option Config) (hfile : fs path = .regular t content)
      (hwhy : inputs.fileMtimes.lookup path = some t ∨ content = none)
      (htime : m.fileMtimes.lookup path = some t)
      (h : ∀ q name, inputs.registry.lookup q = some ⟨path,name⟩ ↔
        m.registry.lookup q = some ⟨path,name⟩)
  | replaced (t : ℤ) (cfg : Config) (hfile : fs path = .regular t (some cfg))
      (htime : m.fileMtimes.lookup path = some t)
      (hnames : ∀ name, (∃ q, m.registry.lookup q = some ⟨path,name⟩) ↔ name ∈ cfg.contexts)
      (hstay : ∀ q, ∀ name ∈ cfg.contexts, inputs.registry.lookup q = some ⟨path,name⟩ →
        m.registry.lookup q = some ⟨path,name⟩)
  | dropped (hfile : ∀ t content, fs path ≠ .regular t content)
      (htime : m.fileMtimes.lookup path = none)
      (h : ∀ q name, m.registry.lookup q ≠ some ⟨path,name⟩)

variable {fs : FileSystem} {inputs m m' : Maps} {path : Text}

theorem AgreeOn.trans {m'' : Maps} (h : AgreeOn path m m') (h' : AgreeOn path m' m'') :
    AgreeOn path m m'' :=
  ⟨fun q name => (h.entries q name).trans (h'.entries q name),h.mtime.trans h'.mtime⟩

theorem Outcome.congr (h : Outcome fs inputs path m) (hagree : AgreeOn path m m') :
    Outcome fs inputs path m' := by
  cases h with
  | kept t content hfile hwhy htime h =>
    exact .kept t content hfile hwhy (hagree.mtime ▸ htime)
      fun q name => (h q name).trans (hagree.entries q name)
  | replaced t cfg hfile htime hnames hstay =>
    refine .replaced t cfg hfile (hagree.mtime ▸ htime) (fun name => ?_)
      fun q name hname hq => (hagree.entries q name).mp (hstay q name hname hq)
    rw [← hnames name]
    exact exists_congr fun q => (hagree.entries q name).symm
  | dropped hfile htime h =>
    exact .dropped hfile (hagree.mtime ▸ htime)
      fun q name hq => h q name ((hagree.entries q name).mpr hq)

theorem AgreeOn.mem_names (h : AgreeOn path inputs m) {q : Text} :
    q ∈ namesOf inputs.registry path ↔ ∃ name, m.registry.lookup q = some ⟨path,name⟩ := by
  rw [mem_namesOf]
  exact exists_congr fun name => h.entries q name

/-- What a step owes: the outcome of its path, the other paths as they were, and own pairs. -/
structure Steps (fs : FileSystem) (inputs : Maps) (path : Text) (m m' : Maps) : Prop where
  outcome : Outcome fs inputs path m'
  frame : ∀ p, p ≠ path → AgreeOn p m m'
  own : OwnPairs m.registry → OwnPairs m'.registry

theorem dropFile_steps (h : AgreeOn path inputs m)
    (hfile : ∀ t content, fs path ≠ .regular t content) :
    Steps fs inputs path m (dropFile path (namesOf inputs.registry path) m) := by
  constructor
  · refine .dropped hfile (AList.lookup_erase path _) fun q name hq => ?_
    obtain ⟨hold,hout⟩ := lookup_erased.mp hq
    exact hout (h.mem_names.mpr ⟨name,hold⟩)
  · intro p hp
    refine ⟨fun q name => ?_,(AList.lookup_erase_ne hp).symm⟩
    rw [dropFile, lookup_erased]
    constructor
    · intro hq
      refine ⟨hq,fun hin => ?_⟩
      obtain ⟨other,hother⟩ := h.mem_names.mp hin
      rw [hq] at hother
      exact hp (ContextEntry.mk.inj (Option.some.inj hother)).1
    · exact fun hq => hq.1
  · exact fun hown => hown.sub fun q e he => (lookup_erased.mp he).1

theorem replaceFile_steps (h : AgreeOn path inputs m) {t : ℤ} {cfg : Config}
    (hfile : fs path = .regular t (some cfg)) :
    Steps fs inputs path m (replaceFile path (namesOf inputs.registry path) t cfg m) := by
  have hsorted : ∀ name, name ∈ sortedContextNames cfg ↔ name ∈ cfg.contexts :=
    fun name => Names.mem_sorted
  have hadded : Added path (sortedContextNames cfg)
      (dropDead cfg (namesOf inputs.registry path) m.registry)
      (replaceFile path (namesOf inputs.registry path) t cfg m).registry := by
    apply added_contexts
    · exact (Names.sorted_strict cfg.distinct).imp ne_of_lt
    · exact fun q name _ hq => h.mem_names.mpr ⟨name,(lookup_dropDead.mp hq).1⟩
  constructor
  · refine .replaced t cfg hfile (AList.lookup_insert _) (fun name => ?_) fun q name hname hq => ?_
    · constructor
      · rintro ⟨q,hq⟩
        rcases hadded.fresh q _ hq with hold | ⟨other,hother,heq,-⟩
        · obtain ⟨hold,halive⟩ := lookup_dropDead.mp hold
          exact halive (h.mem_names.mpr ⟨name,hold⟩)
        · rw [(ContextEntry.mk.inj heq).2]
          exact (hsorted other).mp hother
      · exact fun hname => hadded.all name ((hsorted name).mpr hname)
    · exact hadded.keeps q _ (lookup_dropDead.mpr ⟨(h.entries q name).mp hq,fun _ => hname⟩)
  · intro p hp
    refine ⟨fun q name => ⟨fun hq => ?_,fun hq => ?_⟩,(AList.lookup_insert_ne hp).symm⟩
    · refine hadded.keeps q _ (lookup_dropDead.mpr ⟨hq,fun hin => ?_⟩)
      obtain ⟨other,hother⟩ := h.mem_names.mp hin
      rw [hq] at hother
      exact absurd (ContextEntry.mk.inj (Option.some.inj hother)).1 hp
    · rcases hadded.fresh q _ hq with hold | ⟨other,-,heq,-⟩
      · exact (lookup_dropDead.mp hold).1
      · exact absurd (ContextEntry.mk.inj heq).1 hp
  · exact fun hown => hadded.own (hown.sub fun q e he => (lookup_dropDead.mp he).1)

theorem refreshMaps_steps (fs : FileSystem) (h : AgreeOn path inputs m) :
    Steps fs inputs path m (refreshMaps fs inputs m path) := by
  have hsame : ∀ p, AgreeOn p m m := fun p => ⟨fun _ _ => Iff.rfl,rfl⟩
  have hgone : (∀ t content, fs path ≠ .regular t content) →
      Steps fs inputs path m (if namesOf inputs.registry path = [] ∧ path ∉ inputs.fileConfigs ∧
        path ∉ inputs.fileMtimes then m else dropFile path (namesOf inputs.registry path) m) := by
    intro hfile
    split_ifs with hnone
    · -- nothing is known about the path
      obtain ⟨hnames,-,htime⟩ := hnone
      refine ⟨.dropped hfile ?_ fun q name hq => ?_,fun p _ => hsame p,id⟩
      · rw [← h.mtime]
        exact AList.lookup_eq_none.mpr htime
      · have hin := h.mem_names.mpr ⟨name,hq⟩
        rw [hnames] at hin
        cases hin
    · exact dropFile_steps h hfile
  unfold refreshMaps
  cases hfile : fs path with
  | missing => exact hgone fun t content hregular => by rw [hfile] at hregular; cases hregular
  | special t₀ => exact hgone fun t content hregular => by rw [hfile] at hregular; cases hregular
  | regular t content =>
    by_cases hcached : inputs.fileMtimes.lookup path = some t
    · simp only [if_pos hcached]
      exact ⟨.kept t content hfile (.inl hcached) (h.mtime ▸ hcached) h.entries,
        fun p _ => hsame p,id⟩
    · simp only [if_neg hcached]
      cases content with
      | none =>
        exact ⟨.kept t none hfile (.inr rfl) (AList.lookup_insert _) h.entries,
          fun p hp => ⟨fun _ _ => Iff.rfl,(AList.lookup_insert_ne hp).symm⟩,id⟩
      | some cfg => exact replaceFile_steps h hfile

/-- What a refresh over all paths does. -/
theorem refresh_run (fs : FileSystem) {paths : List Text} (hnodup : paths.Nodup)
    (h : ∀ p ∈ paths, AgreeOn p inputs m) :
    (∀ p ∈ paths, Outcome fs inputs p (paths.foldl (refreshMaps fs inputs) m)) ∧
      (∀ p ∉ paths, AgreeOn p m (paths.foldl (refreshMaps fs inputs) m)) ∧
      (OwnPairs m.registry → OwnPairs (paths.foldl (refreshMaps fs inputs) m).registry) := by
  induction paths generalizing m with
  | nil => exact ⟨(fun _ h => by cases h),fun _ _ => ⟨fun _ _ => Iff.rfl,rfl⟩,id⟩
  | cons path paths ih =>
    obtain ⟨hout,hrest⟩ := List.nodup_cons.mp hnodup
    have hstep := refreshMaps_steps fs (h path List.mem_cons_self)
    have hne : ∀ p ∈ paths, p ≠ path := fun p hp heq => hout (heq ▸ hp)
    obtain ⟨houtcomes,hframe,hown⟩ := ih (m := refreshMaps fs inputs m path) hrest fun p hp =>
      (h p (List.mem_cons_of_mem path hp)).trans (hstep.frame p (hne p hp))
    rw [List.foldl_cons]
    refine ⟨fun p hp => ?_,fun p hp => ?_,fun h => hown (hstep.own h)⟩
    · rcases List.mem_cons.mp hp with rfl | hp
      · exact hstep.outcome.congr (hframe p hout)
      · exact houtcomes p hp
    · rw [List.mem_cons, not_or] at hp
      exact (hstep.frame p hp.1).trans (hframe p hp.2)

end Step

end Radar.Kubeconfig
