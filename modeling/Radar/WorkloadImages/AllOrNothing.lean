import Radar.WorkloadImages.PatchSound
import Radar.WorkloadImages.Update

/-!
# An image update changes the named images or nothing

Until it returns the call has changed nothing. A patch of it that is applied
changes exactly the named images, and the call returns at once: with success if
the images of what was patched can be listed, else with an error.
-/

set_option autoImplicit false

namespace Radar.WorkloadImages

open Run

variable {ns name : String} {updates : List WorkloadImageUpdate}

section Validated

structure Valid (updates : List WorkloadImageUpdate) : Prop where
  known : ∀ u ∈ updates, Known u.type
  full : ∀ u ∈ updates, u.previousImage ≠ "" ∧ u.image ≠ ""
  keys : (updates.map keyOf).Nodup

theorem validate_seen {seen seen' : List (String × String)}
    (h : updates.foldlM validateUpdate seen = .ok seen') :
    Valid updates ∧ ∀ u ∈ updates, keyOf u ∉ seen := by
  induction updates generalizing seen with
  | nil =>
    have hnone : ∀ {P : WorkloadImageUpdate → Prop}, ∀ u ∈ [], P u := fun {_} u hu => by cases hu
    exact ⟨⟨hnone,hnone,List.nodup_nil⟩,hnone⟩
  | cons u updates ih =>
    rw [List.foldlM_cons] at h
    cases hfirst : validateUpdate seen u with
    | error e =>
      rw [hfirst] at h
      cases h
    | ok seen₁ =>
      rw [hfirst] at h
      obtain ⟨hvalid,hfresh⟩ := ih h
      unfold validateUpdate at hfirst
      split_ifs at hfirst with htype hempty hsame hseen
      obtain rfl := Except.ok.inj hfirst
      rw [not_or, not_or] at hempty
      constructor
      · constructor
        · intro v hv
          rcases List.mem_cons.mp hv with rfl | hv
          · by_contra hnot
            exact htype (not_or.mp hnot)
          · exact hvalid.known v hv
        · intro v hv
          rcases List.mem_cons.mp hv with rfl | hv
          · exact hempty.2
          · exact hvalid.full v hv
        · rw [List.map_cons, List.nodup_cons]
          refine ⟨fun hin => ?_,hvalid.keys⟩
          obtain ⟨v,hv,hkey⟩ := List.mem_map.mp hin
          exact hfresh v hv (hkey ▸ List.mem_cons_self)
      · intro v hv
        rcases List.mem_cons.mp hv with rfl | hv
        · exact hseen
        · exact fun hin => hfresh v hv (List.mem_cons_of_mem _ hin)

theorem validate_valid (h : validateImageUpdates updates = .ok ()) : Valid updates := by
  unfold validateImageUpdates at h
  split_ifs at h
  cases hfold : updates.foldlM validateUpdate [] with
  | error e =>
    rw [hfold] at h
    nomatch h
  | ok seen => exact (validate_seen hfold).1

theorem buildUpdate_operations {t : PodTemplate} {u : WorkloadImageUpdate}
    {b : List Operation × ImageLocation} (h : buildUpdate t u = .ok b) :
    ∃ i, b.1 = imageOperations u i := by
  unfold buildUpdate at h
  split at h
  · split at h
    · nomatch h
    · dsimp only at h
      split_ifs at h
      obtain rfl := Except.ok.inj h
      exact ⟨_,rfl⟩
  · nomatch h

theorem mapM_built {t : PodTemplate} {bs : List (List Operation × ImageLocation)}
    (h : updates.mapM (buildUpdate t) = .ok bs) : Built updates (bs.flatMap Prod.fst) := by
  induction updates generalizing bs with
  | nil =>
    obtain rfl := Except.ok.inj h
    exact ⟨[],rfl,rfl⟩
  | cons u updates ih =>
    rw [List.mapM_cons] at h
    cases hfirst : buildUpdate t u with
    | error e =>
      rw [hfirst] at h
      nomatch h
    | ok b =>
      rw [hfirst] at h
      cases hrest : updates.mapM (buildUpdate t) with
      | error e =>
        rw [hrest] at h
        nomatch h
      | ok bs' =>
        rw [hrest] at h
        obtain rfl := Except.ok.inj h
        obtain ⟨i,hi⟩ := buildUpdate_operations hfirst
        obtain ⟨indexes,hlength,hops⟩ := ih hrest
        exact ⟨i::indexes,congrArg Nat.succ hlength,by
          rw [List.flatMap_cons, hi, hops, List.zip_cons_cons, List.flatMap_cons]⟩

theorem build_built {t : PodTemplate} {ops : List Operation} {locations : List ImageLocation}
    (h : buildImagePatch t updates = .ok (ops,locations)) : Built updates ops := by
  unfold buildImagePatch at h
  cases hbuilt : updates.mapM (buildUpdate t) with
  | error e =>
    rw [hbuilt] at h
    nomatch h
  | ok bs =>
    rw [hbuilt] at h
    obtain ⟨rfl,rfl⟩ := Prod.mk.inj (Except.ok.inj h)
    exact mapM_built hbuilt

end Validated

section Invariant

/-- What a patch of the call made of the version it met. -/
structure Patched (updates : List WorkloadImageUpdate) (w w' : Workload) : Prop where
  valid : Valid updates
  made : ∃ ops, Built updates ops ∧ applyPatch w.template ops = some w'.template
  rest : w' = { w with template := w'.template }

/-- What is so while the call is at a place. -/
def Standing (updates : List WorkloadImageUpdate) (applied : List (Workload × Workload)) :
    Place → Prop
  | .root _ => applied = []
  | .target _ _ _ _ => applied = []
  | .patch _ ops _ => applied = [] ∧ Valid updates ∧ Built updates ops
  | .reread _ _ _ => applied = [] ∧ Valid updates
  | .retry _ ops => applied = [] ∧ Valid updates ∧ Built updates ops
  | .last _ _ => applied = []
  | .returned (.error _) => applied = [] ∨ ∃ w w', applied = [(w,w')] ∧ Patched updates w w' ∧
      ∃ r : ResolvedWorkloadImageTarget, (inventory { r with target := w' }).isOk = false
  | .returned (.ok _) => ∃ w w', applied = [(w,w')] ∧ Patched updates w w' ∧
      ∃ r : ResolvedWorkloadImageTarget, (inventory { r with target := w' }).isOk = true

def Stands (updates : List WorkloadImageUpdate) (s : Update) : Prop :=
  Standing updates s.applied s.place

theorem standing_failed (err : UpdateError) : Standing updates [] (failed err) := .inl rfl

theorem standing_resolved (r : ResolvedWorkloadImageTarget) :
    Standing updates [] (resolved updates r) := by
  unfold resolved
  cases hvalid : validateImageUpdates updates with
  | error err => exact standing_failed err
  | ok =>
    cases hbuild : buildImagePatch r.target.template updates with
    | error err => exact standing_failed err
    | ok built => exact ⟨rfl,validate_valid hvalid,build_built hbuild⟩

theorem standing_patched {w w' : Workload} (h : Patched updates w w')
    (r : ResolvedWorkloadImageTarget) : Standing updates [(w,w')] (patched r w') := by
  unfold patched
  cases hinventory : inventory { r with target := w' } with
  | error err => exact .inr ⟨w,w',rfl,h,r,by rw [hinventory]; rfl⟩
  | ok i => exact ⟨w,w',rfl,h,r,by rw [hinventory]; rfl⟩

/-- An answer that applied no patch. -/
theorem standing_resume {place : Place} {answer : Except ApiError Workload}
    (h : Standing updates [] place)
    (hanswer : ∀ ref ops, request ns name place = some (.patch ref ops) → answer.isOk = false) :
    Standing updates [] (resume ns name updates place answer) := by
  cases place with
  | root kind =>
    cases answer with
    | error err => exact standing_failed _
    | ok root =>
      dsimp only [resume]
      split_ifs
      · exact standing_failed _
      · exact standing_resolved _
      · cases ResolveTemplateTarget root with
        | error err => exact standing_failed err
        | ok ref =>
          dsimp only
          split_ifs
          · exact standing_resolved _
          · rfl
  | target kind root resource targetName =>
    cases answer with
    | error err => exact standing_failed _
    | ok target =>
      dsimp only [resume]
      split_ifs
      · exact standing_failed _
      · exact standing_resolved _
  | patch r ops locations =>
    cases answer with
    | ok updated => nomatch hanswer _ _ rfl
    | error err =>
      dsimp only [resume]
      split_ifs
      · exact ⟨rfl,h.2.1⟩
      · exact standing_failed _
  | reread r locations err =>
    cases answer with
    | error err' => exact standing_failed _
    | ok latest =>
      dsimp only [resume]
      split_ifs
      · exact standing_failed _
      · cases hbuild : buildImagePatch latest.template updates with
        | error conflict => exact standing_failed conflict
        | ok built =>
          dsimp only
          split_ifs
          · exact standing_failed _
          · exact ⟨rfl,h.2,build_built hbuild⟩
  | retry r ops =>
    cases answer with
    | ok updated => nomatch hanswer _ _ rfl
    | error err =>
      dsimp only [resume]
      split_ifs
      · rfl
      · exact standing_failed _
  | last r err =>
    cases answer with
    | error err' => exact standing_failed _
    | ok final =>
      dsimp only [resume]
      split_ifs
      · exact standing_failed _
      · cases buildImagePatch final.template updates with
        | error conflict => exact standing_failed conflict
        | ok built => exact standing_failed _
  | returned out => exact h

theorem standing_empty {place : Place} {applied : List (Workload × Workload)} {req : Request}
    (h : Standing updates applied place) (hreq : request ns name place = some req) : applied = [] := by
  cases place with
  | root => exact h
  | target => exact h
  | patch => exact h.1
  | reread => exact h.1
  | retry => exact h.1
  | last => exact h
  | returned => nomatch hreq

/-- The answer to a patch that was applied. -/
theorem standing_applied {place : Place} {ref : Ref} {ops : List Operation} {w : Workload}
    {template : PodTemplate} (h : Standing updates [] place)
    (hreq : request ns name place = some (.patch ref ops))
    (happly : applyPatch w.template ops = some template) :
    Standing updates [(w,{ w with template := template })]
      (resume ns name updates place (.ok { w with template := template })) := by
  cases place with
  | patch r ops' locations =>
    obtain ⟨-,rfl⟩ := Request.patch.inj (Option.some.inj hreq)
    exact standing_patched ⟨h.2.1,⟨ops',h.2.2,happly⟩,rfl⟩ r
  | retry r ops' =>
    obtain ⟨-,rfl⟩ := Request.patch.inj (Option.some.inj hreq)
    exact standing_patched ⟨h.2.1,⟨ops',h.2.2,happly⟩,rfl⟩ r
  | root => nomatch hreq
  | target => nomatch hreq
  | reread => nomatch hreq
  | last => nomatch hreq
  | returned => nomatch hreq

theorem stands_step {s t : Update} {a : Act} (h : Stands updates s)
    (hstep : step ns name updates s a = some t) : Stands updates t := by
  cases a with
  | others stored =>
    obtain rfl := Option.some.inj hstep
    exact h
  | answer fault =>
    rw [step] at hstep
    cases hreq : request ns name s.place with
    | none =>
      rw [hreq] at hstep
      nomatch hstep
    | some req =>
      rw [hreq] at hstep
      obtain rfl := Option.some.inj hstep
      have hempty := standing_empty h hreq
      unfold Stands at h ⊢
      rw [hempty] at h
      have hfault : ∀ err, Standing updates s.applied
          (resume ns name updates s.place (.error err)) :=
        fun err => hempty ▸ standing_resume h fun _ _ _ => rfl
      cases fault with
      | some err => exact hfault err
      | none =>
        cases req with
        | get ref =>
          cases hstored : s.stored ref with
          | none =>
            simp only [hstored]
            exact hfault _
          | some w =>
            simp only [hstored]
            rw [hempty]
            exact standing_resume h fun ref' ops heq => nomatch hreq.symm.trans heq
        | patch ref ops =>
          cases hstored : s.stored ref with
          | none =>
            simp only [hstored]
            exact hfault _
          | some w =>
            cases happly : applyPatch w.template ops with
            | none =>
              simp only [hstored, happly]
              exact hfault _
            | some template =>
              simp only [hstored, happly]
              rw [hempty]
              exact standing_applied h hreq happly

theorem stands_start (kind : String) (stored : Ref → Option Workload) :
    Stands updates (start kind stored) := by
  unfold Stands start
  cases workloadImageRoots (NormalizeWorkloadKind kind.toLower) with
  | none => exact standing_failed _
  | some kind => rfl

end Invariant

section Outcome

/-- The images can be listed. -/
def Inventoried (t : PodTemplate) : Prop :=
  ∀ templatePath, (inventoryContainerImages templatePath t).isOk = true

/-- Success changed the named images, each from its previous one, and nothing else; an error
changed nothing. -/
def AllOrNothing (updates : List WorkloadImageUpdate) (applied : List (Workload × Workload)) :
    Except UpdateError SetWorkloadImagesResult → Prop
  | .ok _ => ∃ w, applied = [(w,{ w with template := withImages updates w.template })] ∧
      ∀ u ∈ updates, Running w.template u
  | .error _ => applied = []

theorem inventory_inventoried (r : ResolvedWorkloadImageTarget) :
    (inventory r).isOk = true ↔ Inventoried r.target.template := by
  have hok : (inventory r).isOk =
      (inventoryContainerImages r.resource.templatePath r.target.template).isOk := by
    unfold inventory
    cases inventoryContainerImages r.resource.templatePath r.target.template <;> rfl
  rw [hok, inventory_isOk]
  constructor
  · exact fun h templatePath => (inventory_isOk templatePath _).trans h
  · exact fun h => (inventory_isOk [] _).symm.trans (h [])

theorem patched_images {w w' : Workload} (h : Patched updates w w') (hunique : Unique w.template) :
    (∀ u ∈ updates, Running w.template u) ∧
      w' = { w with template := withImages updates w.template } ∧
      (Inventoried w'.template ↔ Inventoried w.template) := by
  obtain ⟨ops,hbuilt,happly⟩ := h.made
  obtain ⟨hrunning,htemplate⟩ := apply_updates hunique h.valid.known h.valid.keys hbuilt happly
  refine ⟨hrunning,h.rest.trans (by rw [htemplate]),?_⟩
  unfold Inventoried
  simp only [htemplate, inventory_withImages hunique hrunning h.valid.full]

/-- The call keeps its promise exactly when every version that a patch of it is applied to lists
its images. -/
theorem images_all_or_nothing {kind : String} {stored : Ref → Option Workload} {as : List Act}
    {s : Update} {out : Except UpdateError SetWorkloadImagesResult}
    (h : run (step ns name updates) (start kind stored) as = some s)
    (hreturned : s.place = .returned out) (hunique : ∀ v ∈ s.applied, Unique v.1.template) :
    AllOrNothing updates s.applied out ↔ ∀ v ∈ s.applied, Inventoried v.1.template := by
  have hstands : Stands updates s :=
    run_invariant (fun _ _ _ hs hstep => stands_step hs hstep) (stands_start kind stored) h
  unfold Stands at hstands
  rw [hreturned] at hstands
  cases out with
  | ok result =>
    obtain ⟨w,w',happlied,hpatched,r,hok⟩ := hstands
    rw [happlied] at hunique ⊢
    obtain ⟨hrunning,hw',hsame⟩ := patched_images hpatched (hunique _ List.mem_cons_self)
    have hlisted := hsame.mp ((inventory_inventoried _).mp hok)
    constructor
    · intro _ v hv
      rw [List.mem_singleton.mp hv]
      exact hlisted
    · exact fun _ => ⟨w,by rw [← hw'],hrunning⟩
  | error err =>
    rcases hstands with happlied | ⟨w,w',happlied,hpatched,r,hok⟩
    · rw [happlied]
      exact ⟨fun _ v hv => (nomatch hv),fun _ => rfl⟩
    · rw [happlied] at hunique ⊢
      obtain ⟨-,-,hsame⟩ := patched_images hpatched (hunique _ List.mem_cons_self)
      constructor
      · exact fun hnone => nomatch hnone
      · intro hall
        have hlisted := (inventory_inventoried { r with target := w' }).mpr
          (hsame.mpr (hall _ List.mem_cons_self))
        exact absurd (hlisted.symm.trans hok) (Ne.symm Bool.false_ne_true)

/-- A Rollout with the containers of a list. -/
def web (containers : List Entry) : Workload where
  kind := "Rollout"
  ns := "shop"
  name := "web"
  template := ⟨.list containers,.absent,""⟩

def app : Entry := .container ⟨some "app",some "app:v1",""⟩

/-- A container whose image something else is to fill in. -/
def sidecar : Entry := .container ⟨some "sidecar",none,""⟩

def toV2 : List WorkloadImageUpdate := [⟨"container","app","app:v1","app:v2"⟩]

def startWeb : Update where
  stored := fun _ => some (web [app])
  place := .root .rollouts

/-- The Rollout is read, others write, and it is patched. -/
def setWeb (others : List Act) : Update :=
  (run (step "shop" "web" toV2) startWeb (.answer none::others++[.answer none])).getD startWeb

theorem start_web : start "rollouts" (fun _ => some (web [app])) = startWeb := by
  have hroot : workloadImageRoots (NormalizeWorkloadKind "rollouts".toLower) = some .rollouts := by
    decide +kernel
  rw [start, hroot]
  rfl

def outcome (s : Update) : Except UpdateError SetWorkloadImagesResult :=
  match s.place with
  | .returned out => out
  | _ => .error (.unsupported "")

theorem web_unique (containers : List Entry) (h : containers ∈ [[app],[app,sidecar]]) :
    Unique (web containers).template := by
  intro typeName
  unfold PodTemplate.field
  split_ifs
  · exact List.Pairwise.nil
  · rcases List.mem_pair.mp h with rfl | rfl
    · exact List.pairwise_singleton _ _
    · simp [web, Containers.entries, app, sidecar, Entry.name]

theorem images_all_or_nothing_web :
    AllOrNothing toV2 (setWeb []).applied (outcome (setWeb [])) := by
  have hrun : run (step "shop" "web" toV2) (start "rollouts" fun _ => some (web [app]))
      [.answer none,.answer none] = some (setWeb []) := by
    rw [start_web]
    rfl
  apply (images_all_or_nothing hrun rfl _).mpr
  · intro v hv templatePath
    have hmet : (setWeb []).applied.map Prod.fst = [web [app]] := rfl
    have hin := List.mem_map_of_mem (f := Prod.fst) hv
    rw [hmet, List.mem_singleton] at hin
    rw [hin, inventory_isOk]
    rfl
  · intro v hv
    have hmet : (setWeb []).applied.map Prod.fst = [web [app]] := rfl
    have hin := List.mem_map_of_mem (f := Prod.fst) hv
    rw [hmet, List.mem_singleton] at hin
    rw [hin]
    exact web_unique _ (by simp)

/-- A sidecar without an image is added after the Rollout was read. -/
theorem images_changed_with_error : ¬∀ (kind ns name : String) (updates : List WorkloadImageUpdate)
    (stored : Ref → Option Workload) (as : List Act) (s : Update)
    (out : Except UpdateError SetWorkloadImagesResult),
    run (step ns name updates) (start kind stored) as = some s → s.place = .returned out →
    (∀ v ∈ s.applied, Unique v.1.template) → AllOrNothing updates s.applied out := by
  let added : List Act := [.others fun _ => some (web [app,sidecar])]
  intro h
  have hrun : run (step "shop" "web" toV2) (start "rollouts" fun _ => some (web [app]))
      (.answer none::added++[.answer none]) = some (setWeb added) := by
    rw [start_web]
    rfl
  have hplace : (setWeb added).place =
      .returned (.error (.invalid "every container must have a name and image")) := rfl
  have hnone := h _ _ _ _ _ _ _ _ hrun hplace (by
    intro v hv
    have hmet : (setWeb added).applied.map Prod.fst = [web [app,sidecar]] := rfl
    have hin := List.mem_map_of_mem (f := Prod.fst) hv
    rw [hmet, List.mem_singleton] at hin
    rw [hin]
    exact web_unique _ (by simp))
  have hlength : (setWeb added).applied.length = 1 := rfl
  rw [show (setWeb added).applied = [] from hnone] at hlength
  nomatch hlength

end Outcome

end Radar.WorkloadImages
