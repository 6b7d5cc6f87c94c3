import Radar.Kubeconfig.RegistryRefresh

/-!
# The registry follows the files

Whatever happens to the files between refreshes, the registry holds the contexts
of what was last read of each of them, under names that do not change.
-/

set_option autoImplicit false

namespace Radar.Kubeconfig

section Cells

variable {fs : FileSystem} {store : Store Maps} {input : ℕ} {w : Work} {m : Maps}

/-- The returned maps so far are in a cell of their own, once something changed. -/
structure Runs (store : Store Maps) (input : ℕ) (w : Work) (m : Maps) : Prop where
  keeps : Store.Keeps (fun _ => False) store w.store
  cell : w.store.cell w.held = m
  same : w.changed = false → w.held = input
  own : w.changed = true → store.next ≤ w.held
  used : w.held < w.store.next

theorem Runs.inputs (h : Runs store input w m) (hinput : input < store.next) :
    w.store.cell input = store.cell input := h.keeps.cell input hinput id

theorem Runs.cloned (h : Runs store input w m) :
    Runs store input (w.cloneOnce input) m ∧ (w.cloneOnce input).changed = true := by
  unfold Work.cloneOnce
  split_ifs with hchanged
  · exact ⟨h,hchanged⟩
  · have hcell := h.cell
    rw [h.same (by simpa using hchanged)] at hcell
    refine ⟨⟨h.keeps.trans (Store.keeps_alloc _ _),?_,(fun hfalse => nomatch hfalse),
      fun _ => h.keeps.next,Nat.lt_succ_self _⟩,rfl⟩
    show (w.store.alloc (w.store.cell input)).2.cell w.store.next = m
    rw [Store.alloc_cell, hcell]

theorem Runs.modify (h : Runs store input w m) (hchanged : w.changed = true) (f : Maps → Maps) :
    Runs store input (w.modify f) (f m) := by
  refine ⟨h.keeps.write_new (h.own hchanged) _,?_,h.same,h.own,h.used⟩
  show (w.store.write w.held (f (w.store.cell w.held))).cell w.held = f m
  rw [Store.write_cell, h.cell]

theorem Runs.refreshPath (fs : FileSystem) (h : Runs store input w m) (hinput : input < store.next) (path : Text) :
    Runs store input (refreshPath fs input (namesOf (store.cell input).registry) w path)
      (refreshMaps fs (store.cell input) m path) := by
  obtain ⟨hcloned,hchanged⟩ := h.cloned
  unfold Kubeconfig.refreshPath refreshMaps
  rw [h.inputs hinput]
  cases fs path with
  | missing =>
    simp only
    split_ifs
    · exact h
    · exact hcloned.modify hchanged _
  | special t =>
    simp only
    split_ifs
    · exact h
    · exact hcloned.modify hchanged _
  | regular t content =>
    simp only
    split_ifs
    · exact h
    · cases content with
      | none => exact hcloned.modify hchanged _
      | some cfg => exact hcloned.modify hchanged _

theorem Runs.run (fs : FileSystem) (h : Runs store input w m) (hinput : input < store.next) (paths : List Text) :
    Runs store input (paths.foldl (Kubeconfig.refreshPath fs input (namesOf (store.cell input).registry)) w)
      (paths.foldl (refreshMaps fs (store.cell input)) m) := by
  induction paths generalizing w m with
  | nil => exact h
  | cons path paths ih => exact ih (h.refreshPath fs hinput path)

end Cells

section History

/-- Of a path that exists. -/
def mtimeOf : File → Option ℤ
  | .missing => none
  | .special t => some t
  | .regular t _ => some t

/-- What exists and keeps its time keeps its content. -/
def Honest (fs fs' : FileSystem) : Prop :=
  ∀ path t, mtimeOf (fs path) = some t → mtimeOf (fs' path) = some t → fs' path = fs path

/-- The last version that parsed since the path last became a regular file; the newest of the
file systems comes first. -/
def lastParsed : List FileSystem → Text → Option Config
  | [], _ => none
  | fs::past, path =>
    match fs path with
    | .regular _ (some cfg) => some cfg
    | .regular _ none => lastParsed past path
    | _ => none

/-- The registry was built over the first file system and refreshed over each later one. Times
are recorded for some of the watched paths, or for all that exist. -/
inductive Reaches (watched : List Text) : List FileSystem → Store Maps → ℕ → Prop where
  | build (fs : FileSystem) (store : Store Maps) (maps : Maps)
      (hbuild : buildContextRegistry fs watched = (maps.registry,maps.fileConfigs))
      (htimes : ∀ path t, maps.fileMtimes.lookup path = some t →
        path ∈ watched ∧ mtimeOf (fs path) = some t) :
      Reaches watched [fs] (store.alloc maps).2 (store.alloc maps).1
  | refresh {fs fs' : FileSystem} {past : List FileSystem} {store store' : Store Maps}
      {input held : ℕ} {changed : Bool} (h : Reaches watched (fs::past) store input)
      (hfs : Honest fs fs')
      (hrefresh : refreshContextRegistry fs' store (some input) watched = (store',some held,changed)) :
      Reaches watched (fs'::fs::past) store' held

/-- What the maps hold after some file systems. -/
structure Tracks (watched : List Text) (past : List FileSystem) (m : Maps) : Prop where
  own : OwnPairs m.registry
  pairs : ∀ path name, (∃ q, m.registry.lookup q = some ⟨path,name⟩) ↔
    path ∈ watched ∧ ∃ cfg, lastParsed past path = some cfg ∧ name ∈ cfg.contexts
  mtimes : ∀ path t, m.fileMtimes.lookup path = some t →
    path ∈ watched ∧ ∃ fs, past.head? = some fs ∧ mtimeOf (fs path) = some t

theorem addFile_pairs (cfg : Config) {path : Text} {r : Registry}
    (hfree : ∀ q name, r.lookup q ≠ some ⟨path,name⟩) :
    Added path (sortedContextNames cfg) r ((sortedContextNames cfg).foldl (register path) r) := by
  have hadd : register path = addContext path [] := by
    funext r name
    rfl
  rw [hadd]
  apply added_contexts
  · exact (Names.sorted_strict cfg.distinct).imp ne_of_lt
  · exact fun q name _ hq => absurd hq (hfree q name)

/-- The contexts of every file that parses are registered. -/
theorem build_pairs (fs : FileSystem) {paths : List Text} (hnodup : paths.Nodup)
    (out : Registry × AList fun _ : Text => Config)
    (hfree : ∀ p ∈ paths, ∀ q name, out.1.lookup q ≠ some ⟨p,name⟩) :
    (OwnPairs out.1 → OwnPairs (paths.foldl (addFile fs) out).1) ∧
      ∀ p name, (∃ q, (paths.foldl (addFile fs) out).1.lookup q = some ⟨p,name⟩) ↔
        (∃ q, out.1.lookup q = some ⟨p,name⟩) ∨
          (p ∈ paths ∧ ∃ cfg, loadFile fs p = some cfg ∧ name ∈ cfg.contexts) := by
  induction paths generalizing out with
  | nil => simp
  | cons path paths ih =>
    obtain ⟨hout,hrest⟩ := List.nodup_cons.mp hnodup
    rw [List.foldl_cons, addFile]
    cases hload : loadFile fs path with
    | none =>
      obtain ⟨hown,hpairs⟩ := ih hrest out fun p hp => hfree p (List.mem_cons_of_mem path hp)
      refine ⟨hown,fun p name => (hpairs p name).trans (or_congr_right ?_)⟩
      constructor
      · exact fun ⟨hp,h⟩ => ⟨List.mem_cons_of_mem path hp,h⟩
      · rintro ⟨hp,cfg,hcfg,hname⟩
        rcases List.mem_cons.mp hp with rfl | hp
        · rw [hload] at hcfg
          nomatch hcfg
        · exact ⟨hp,cfg,hcfg,hname⟩
    | some cfg =>
      have hadded := addFile_pairs cfg (hfree path List.mem_cons_self)
      obtain ⟨hown,hpairs⟩ := ih hrest
        ((sortedContextNames cfg).foldl (register path) out.1,out.2.insert path cfg)
        fun p hp q name hq => by
          rcases hadded.fresh q _ hq with hold | ⟨other,-,heq,-⟩
          · exact hfree p (List.mem_cons_of_mem path hp) q name hold
          · exact hout ((ContextEntry.mk.inj heq).1 ▸ hp)
      refine ⟨fun h => hown (hadded.own h),fun p name => (hpairs p name).trans ?_⟩
      constructor
      · rintro (⟨q,hq⟩ | ⟨hp,h⟩)
        · rcases hadded.fresh q _ hq with hold | ⟨other,hother,heq,-⟩
          · exact .inl ⟨q,hold⟩
          · obtain ⟨rfl,rfl⟩ := ContextEntry.mk.inj heq
            exact .inr ⟨List.mem_cons_self,cfg,hload,Names.mem_sorted.mp hother⟩
        · exact .inr ⟨List.mem_cons_of_mem path hp,h⟩
      · rintro (⟨q,hq⟩ | ⟨hp,cfg',hcfg,hname⟩)
        · exact .inl ⟨q,hadded.keeps q _ hq⟩
        · rcases List.mem_cons.mp hp with rfl | hp
          · rw [hload, Option.some.injEq] at hcfg
            subst hcfg
            exact .inl (hadded.all name (Names.mem_sorted.mpr hname))
          · exact .inr ⟨hp,cfg',hcfg,hname⟩

variable {watched : List Text}

theorem build_tracks (hwatched : watched.Nodup) {fs : FileSystem} {maps : Maps}
    (hbuild : buildContextRegistry fs watched = (maps.registry,maps.fileConfigs))
    (htimes : ∀ path t, maps.fileMtimes.lookup path = some t →
      path ∈ watched ∧ mtimeOf (fs path) = some t) : Tracks watched [fs] maps := by
  have hnone : ∀ q : Text, ∀ e, (∅ : Registry).lookup q ≠ some e := by
    intro q e h
    rw [AList.lookup_empty] at h
    nomatch h
  obtain ⟨hown,hpairs⟩ := build_pairs fs hwatched (∅,∅) fun _ _ q name => hnone q _
  rw [← buildContextRegistry, hbuild] at hown hpairs
  refine ⟨hown fun q q' e hq => absurd hq (hnone q e),fun path name => ?_,fun path t ht => ?_⟩
  · have hlast : lastParsed [fs] path = loadFile fs path := by
      rw [lastParsed, loadFile]
      cases fs path with
      | missing => rfl
      | special t => rfl
      | regular t content => cases content <;> rfl
    rw [hlast]
    refine (hpairs path name).trans ?_
    simp
  · obtain ⟨hin,htime⟩ := htimes path t ht
    exact ⟨hin,fs,rfl,htime⟩

variable {past : List FileSystem} {fs fs' : FileSystem} {inputs : Maps}

/-- All known paths are watched. -/
theorem Tracks.mem_paths (h : Tracks watched past inputs) (path : Text) :
    path ∈ refreshPaths inputs watched ↔ path ∈ watched := by
  rw [refreshPaths, List.mem_append, Names.mem_sorted, List.mem_filter, List.mem_dedup,
    List.mem_append]
  constructor
  · rintro (hin | ⟨hsource | htime,-⟩)
    · exact hin
    · obtain ⟨⟨q,⟨source,name⟩⟩,hmem,rfl⟩ := List.mem_map.mp hsource
      exact ((h.pairs source name).mp ⟨q,AList.mem_lookup_iff.mpr hmem⟩).1
    · obtain ⟨t,ht⟩ := Option.isSome_iff_exists.mp (AList.lookup_isSome.mpr htime)
      exact (h.mtimes path t ht).1
  · exact .inl

theorem refreshPaths_nodup (inputs : Maps) (hwatched : watched.Nodup) : (refreshPaths inputs watched).Nodup := by
  rw [refreshPaths, List.nodup_append]
  refine ⟨hwatched,?_,fun path hin path' hother heq => ?_⟩
  · exact (List.perm_insertionSort _ _).nodup_iff.mpr ((List.nodup_dedup _).filter _)
  · rw [Names.mem_sorted, List.mem_filter] at hother
    exact of_decide_eq_true hother.2 (heq ▸ hin)

theorem Tracks.unchanged (h : Tracks watched (fs::past) inputs) (hfs : Honest fs fs')
    {path : Text} {t : ℤ} {content : Option Config} (hfile : fs' path = .regular t content)
    (hwhy : inputs.fileMtimes.lookup path = some t ∨ content = none) :
    lastParsed (fs'::fs::past) path = lastParsed (fs::past) path := by
  rcases hwhy with htime | rfl
  · obtain ⟨-,fs₀,hhead,htime⟩ := h.mtimes path t htime
    obtain rfl : fs = fs₀ := Option.some.inj hhead
    have hsame := hfs path t htime (by rw [hfile]; rfl)
    rw [lastParsed, lastParsed, ← hsame, hfile]
    cases content <;> rfl
  · rw [lastParsed, hfile]

/-- A refresh keeps track, and no context changes its name. -/
theorem Tracks.refresh (hwatched : watched.Nodup) (h : Tracks watched (fs::past) inputs)
    (hfs : Honest fs fs') :
    let after := (refreshPaths inputs watched).foldl (refreshMaps fs' inputs) inputs
    Tracks watched (fs'::fs::past) after ∧
      ∀ q q' e, inputs.registry.lookup q = some e → after.registry.lookup q' = some e → q = q' := by
  intro after
  obtain ⟨houtcomes,hframe,hown⟩ := refresh_run fs' (refreshPaths_nodup inputs hwatched)
    (show ∀ p ∈ refreshPaths inputs watched, AgreeOn p inputs inputs from
      fun _ _ => ⟨fun _ _ => Iff.rfl,rfl⟩)
  have hown := hown h.own
  have hout : ∀ path ∈ watched, Outcome fs' inputs path after :=
    fun path hin => houtcomes path ((h.mem_paths path).mpr hin)
  have hrest : ∀ path ∉ watched, AgreeOn path inputs after :=
    fun path hnot => hframe path fun hin => hnot ((h.mem_paths path).mp hin)
  refine ⟨⟨hown,fun path name => ?_,fun path t ht => ?_⟩,?_⟩
  · by_cases hin : path ∈ watched
    · cases hout path hin with
      | kept t content hfile hwhy htime hsame =>
        rw [h.unchanged hfs hfile hwhy, ← h.pairs path name]
        exact exists_congr fun q => (hsame q name).symm
      | replaced t cfg hfile htime hnames hstay =>
        have hlast : lastParsed (fs'::fs::past) path = some cfg := by rw [lastParsed, hfile]
        rw [hnames, hlast]
        simp [hin]
      | dropped hfile htime hnone =>
        have hlast : lastParsed (fs'::fs::past) path = none := by
          rw [lastParsed]
          cases hpath : fs' path with
          | missing => rfl
          | special t => rfl
          | regular t content => exact absurd hpath (hfile t content)
        rw [hlast]
        simp [hnone]
    · constructor
      · rintro ⟨q,hq⟩
        have hold := ((hrest path hin).entries q name).mpr hq
        exact absurd ((h.pairs path name).mp ⟨q,hold⟩).1 hin
      · exact fun hright => absurd hright.1 hin
  · by_cases hin : path ∈ watched
    · refine ⟨hin,fs',rfl,?_⟩
      cases hout path hin with
      | kept t' content hfile hwhy htime hsame =>
        rw [hfile, ← ht, htime]
        rfl
      | replaced t' cfg hfile htime hnames hstay =>
        rw [hfile, ← ht, htime]
        rfl
      | dropped hfile htime hnone =>
        rw [htime] at ht
        cases ht
    · rw [← (hrest path hin).mtime] at ht
      exact absurd (h.mtimes path t ht).1 hin
  · rintro q q' ⟨path,name⟩ hq hq'
    have hin := ((h.pairs path name).mp ⟨q,hq⟩).1
    cases hout path hin with
    | kept t content hfile hwhy htime hsame => exact hown q q' _ ((hsame q name).mp hq) hq'
    | replaced t cfg hfile htime hnames hstay =>
      exact hown q q' _ (hstay q name ((hnames name).mp ⟨q',hq'⟩) hq) hq'
    | dropped hfile htime hnone => exact absurd hq' (hnone q' name)

/-- The cells after a refresh. -/
theorem refresh_cells {store store' : Store Maps} {input held : ℕ} {changed : Bool}
    (hinput : input < store.next)
    (h : refreshContextRegistry fs store (some input) watched = (store',some held,changed)) :
    Runs store input ⟨store',held,changed⟩
      ((refreshPaths (store.cell input) watched).foldl (refreshMaps fs (store.cell input))
        (store.cell input)) := by
  have hstart : Runs store input ⟨store,input,false⟩ (store.cell input) :=
    ⟨Store.keeps_refl store,rfl,fun _ => rfl,(fun hfalse => nomatch hfalse),hinput⟩
  have hrun := hstart.run fs hinput (refreshPaths (store.cell input) watched)
  obtain ⟨rfl,hpair⟩ := Prod.mk.inj h
  obtain ⟨hheld,rfl⟩ := Prod.mk.inj hpair
  obtain rfl := Option.some.inj hheld
  exact hrun

theorem Reaches.tracks (hwatched : watched.Nodup) {store : Store Maps} {held : ℕ}
    (h : Reaches watched past store held) :
    held < store.next ∧ Tracks watched past (store.cell held) := by
  induction h with
  | build fs store maps hbuild htimes =>
    refine ⟨Nat.lt_succ_self _,?_⟩
    rw [Store.alloc_addr, Store.alloc_cell]
    exact build_tracks hwatched hbuild htimes
  | refresh h hfs hrefresh ih =>
    obtain ⟨hinput,htracks⟩ := ih
    have hcells := refresh_cells hinput hrefresh
    refine ⟨hcells.used,?_⟩
    rw [hcells.cell]
    exact (htracks.refresh hwatched hfs).1

/-- In every state reached the registered pairs are distinct and those of the watched files'
contexts; a refresh renames none of them, writes to no cell in use, and returns what it was
given when it says that nothing changed. -/
theorem registry_tracks (hwatched : watched.Nodup) {store : Store Maps} {held : ℕ}
    (h : Reaches watched (fs::past) store held) :
    OwnPairs (store.cell held).registry ∧
      (∀ path name, (∃ q, (store.cell held).registry.lookup q = some ⟨path,name⟩) ↔
        path ∈ watched ∧ ∃ cfg, lastParsed (fs::past) path = some cfg ∧ name ∈ cfg.contexts) ∧
      ∀ fs' store' held' changed, Honest fs fs' →
        refreshContextRegistry fs' store (some held) watched = (store',some held',changed) →
          (∀ q q' e, (store.cell held).registry.lookup q = some e →
            (store'.cell held').registry.lookup q' = some e → q = q') ∧
          Store.Keeps (fun _ => False) store store' ∧
          (changed = false → held' = held ∧ store'.cell held' = store.cell held) := by
  obtain ⟨hheld,htracks⟩ := h.tracks hwatched
  refine ⟨htracks.own,htracks.pairs,fun fs' store' held' changed hfs hrefresh => ?_⟩
  have hcells := refresh_cells hheld hrefresh
  refine ⟨?_,hcells.keeps,fun hsame => ?_⟩
  · rw [hcells.cell]
    exact (htracks.refresh hwatched hfs).2
  · have heq : held' = held := hcells.same hsame
    rw [heq]
    exact ⟨rfl,hcells.keeps.cell held hheld id⟩

/-- A file that appears after the registry was built is registered. -/
theorem registry_tracks_new_file :
    let file : FileSystem := fun path =>
      if path = "a".toList then .regular 1 (some ⟨["x".toList],List.nodup_singleton _⟩) else .missing
    ∃ store held, Reaches ["a".toList] [file,fun _ => .missing] store held ∧
      ∃ q, (store.cell held).registry.lookup q = some ⟨"a".toList,"x".toList⟩ := by
  intro file
  let empty : Maps := ⟨∅,∅,∅⟩
  let store : Store Maps := ⟨fun _ => empty,0⟩
  have hbuild : Reaches ["a".toList] [fun _ => .missing] _ _ :=
    .build (fun _ => .missing) store empty rfl fun path t h => by
      rw [AList.lookup_empty] at h
      nomatch h
  have hreach : Reaches ["a".toList] [file,fun _ => .missing] _ _ :=
    .refresh hbuild (fun path t h => nomatch h) rfl
  refine ⟨_,_,hreach,?_⟩
  apply ((registry_tracks (List.nodup_singleton _) hreach).2.1 "a".toList "x".toList).mpr
  exact ⟨List.mem_singleton_self _,_,rfl,List.mem_singleton_self _⟩

end History

end Radar.Kubeconfig
