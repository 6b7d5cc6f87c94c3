import Mathlib.Order.Lattice.Nat
import Mathlib.Tactic.SplitIfs
import Radar.Rbac.ResourcePermissions

/-!
# The permission result belongs to the installed client

The generation retires a probe of another client except between the swap and
the invalidation that follows it. There, and for a result served from the
cache, the condition is on the schedule.
-/

set_option autoImplicit false

namespace Radar.Permissions

open Radar.Run

/-- Every probe was answered by the client's cluster. -/
def PermissionCheckResult.Of (client : Option String) (r : PermissionCheckResult) : Prop :=
  ∀ a ∈ r.answers, client = some a.cluster

/-- What readers get, and what was called current, is of the client installed then. -/
structure Current (s : Server) : Prop where
  cached : ∀ r, s.getCachedPermissionResult = some r → r.Of s.client
  published : ∀ r client, (r,client) ∈ s.published → r.Of client

/-- Nothing is cached when the client is swapped for another cluster's. A probe is published while
the client it read is installed, if the invalidation after the swap is still to come or if its
result was served from the cache. -/
def PublishesCurrent (s : Server) : Act → Prop
  | .switchContext ok =>
    match s.phase with
    | .invalidated target => ok = true → s.client = some target ∨ s.cachedPermResult = none
    | _ => True
  | .publish i =>
    match s.threads i with
    | .probed p client =>
      if p.unpublished then
        match s.phase with
        | .swapped _ => p.gen = s.resourcePermsGen → client = s.client
        | _ => True
      else p.result.answers ≠ [] → client = s.client
    | _ => True
  | _ => True

/-- A probe of the generation read the installed client, unless the client was just swapped. -/
def Guarded (s : Server) (gen : ℕ) (client : String) : Prop :=
  gen ≤ s.resourcePermsGen ∧
    (gen = s.resourcePermsGen → (∀ target, s.phase ≠ .swapped target) → s.client = some client)

def Thread.Ok (s : Server) : Thread → Prop
  | .captured gen => gen ≤ s.resourcePermsGen
  | .probing gen client answers =>
    Guarded s gen client ∧ PermissionCheckResult.Of (some client) ⟨answers⟩
  | .probed p client =>
    p.result.Of client ∧
      (p.unpublished = true → ∃ c, client = some c ∧ Guarded s p.gen c)
  | _ => True

structure CurrentInv (s : Server) : Prop where
  threads : ∀ i, (s.threads i).Ok s
  current : Current s

section Steps

variable {s t : Server}

theorem CurrentInv.setThread (h : CurrentInv s) (i : ℕ) {r : Thread} (hr : r.Ok s) :
    CurrentInv (s.setThread i r) where
  threads := by
    intro j
    rcases eq_or_ne j i with rfl | hj
    · have hself : (s.setThread j r).threads j = r := by simp [Server.setThread]
      rw [hself]
      exact hr
    · have hother : (s.setThread i r).threads j = s.threads j := by simp [Server.setThread, hj]
      rw [hother]
      exact h.threads j
  current := ⟨h.current.cached,h.current.published⟩

/-- What is known of the probes lasts as long as their guards do. -/
theorem Thread.Ok.mono {r : Thread} (h : r.Ok s)
    (hgen : s.resourcePermsGen ≤ t.resourcePermsGen)
    (hguard : ∀ gen client, Guarded s gen client → Guarded t gen client) : r.Ok t := by
  cases r with
  | captured gen => exact le_trans h hgen
  | probing gen client answers => exact ⟨hguard gen client h.1,h.2⟩
  | probed p client =>
    refine ⟨h.1,fun hu => ?_⟩
    obtain ⟨c,hc,hg⟩ := h.2 hu
    exact ⟨c,hc,hguard p.gen c hg⟩
  | _ => trivial

/-- An invalidation retires every probe there is. -/
theorem Guarded.invalidate {gen : ℕ} {client : String} (h : Guarded s gen client)
    (hgen : t.resourcePermsGen = s.resourcePermsGen+1) : Guarded t gen client := by
  have hle := h.1
  refine ⟨by omega,fun heq => ?_⟩
  omega

theorem CurrentInv.invalidate (h : CurrentInv s) (p : Phase) :
    CurrentInv (s.invalidateResourcePermissionsCache.setPhase p) where
  threads i := (h.threads i).mono (Nat.le_succ _) fun _ _ hg => hg.invalidate rfl
  current := ⟨fun _ hr => (nomatch hr),h.current.published⟩

/-- A phase that is not the one between the swap and the next invalidation. -/
theorem CurrentInv.setPhase (h : CurrentInv s) {p : Phase}
    (hs : ∀ target, s.phase ≠ .swapped target) : CurrentInv (s.setPhase p) where
  threads i := (h.threads i).mono le_rfl fun _ _ hg => ⟨hg.1,fun heq _ => hg.2 heq hs⟩
  current := ⟨h.current.cached,h.current.published⟩

theorem CurrentInv.swap (h : CurrentInv s) {target : String}
    (hc : s.client = some target ∨ s.cachedPermResult = none) :
    CurrentInv ({ s with client := some target }.setPhase (.swapped target)) where
  threads i := (h.threads i).mono le_rfl fun _ _ hg => ⟨hg.1,fun _ hne => absurd rfl (hne target)⟩
  current := by
    refine ⟨fun r hr => ?_,h.current.published⟩
    obtain hc | hc := hc
    · exact hc ▸ h.current.cached r hr
    · exact absurd (hc.symm.trans hr) (by nofun)

theorem CurrentInv.answer (h : CurrentInv s) {r : PermissionCheckResult} {isCurrent : Bool}
    (hr : isCurrent = true → r.Of s.client) : CurrentInv (s.answer r isCurrent) := by
  cases isCurrent with
  | false => exact h
  | true =>
    refine ⟨h.threads,⟨h.current.cached,?_⟩⟩
    intro r' client hmem
    obtain heq | hmem := List.mem_cons.mp hmem
    · obtain ⟨rfl,rfl⟩ := Prod.mk.inj heq
      exact hr rfl
    · exact h.current.published r' client hmem

/-- A result that passes the generation check is of the installed client. -/
theorem publish_inv (h : CurrentInv s) {i : ℕ} {p : PermissionProbe} {client : Option String}
    (hi : s.threads i = .probed p client) (hok : PublishesCurrent s (.publish i)) :
    CurrentInv (((s.publishResourcePermissions p).1.answer p.result
      (s.publishResourcePermissions p).2).setThread i .returned) := by
  have hp : (Thread.probed p client).Ok s := hi ▸ h.threads i
  simp only [PublishesCurrent, hi] at hok
  unfold Server.publishResourcePermissions
  cases hu : p.unpublished with
  | false =>
    simp only [hu, Bool.false_eq_true, if_false] at hok
    refine (h.answer fun _ a ha => ?_).setThread i (by trivial)
    rw [← hok (List.ne_nil_of_mem ha)]
    exact hp.1 a ha
  | true =>
    simp only [hu, if_true] at hok
    simp only [Bool.not_true, Bool.false_eq_true, if_false]
    split_ifs with hgen
    · exact (h.answer (by simp)).setThread i (by trivial)
    · have hgen : p.gen = s.resourcePermsGen := (not_not.mp hgen).symm
      obtain ⟨c,rfl,-,hguard⟩ := hp.2 hu
      have hclient : some c = s.client := by
        cases hphase : s.phase with
        | swapped target =>
          simp only [hphase] at hok
          exact hok hgen
        | _ => exact (hguard hgen (by simp [hphase])).symm
      have hof : p.result.Of s.client := hclient ▸ hp.1
      have hs : CurrentInv { s with
          cachedPermResult := some p.result
          resourcePermsExpiry := s.now+p.ttl } := by
        refine ⟨fun j => ?_,⟨fun r hr => Option.some.inj hr ▸ hof,h.current.published⟩⟩
        exact (h.threads j).mono le_rfl fun _ _ hg => hg
      exact (hs.answer fun _ => hof).setThread i (by trivial)

theorem probeStep_inv (h : CurrentInv s) {i : ℕ} {a : Act}
    (hok : ∀ j, a = .publish j → PublishesCurrent s (.publish i)) (ht : s.probeStep i a = some t) :
    CurrentInv t := by
  unfold Server.probeStep at ht
  split at ht
  · split at ht
    · rename_i result hfresh
      obtain rfl := Option.some.inj ht
      have hcached : s.cachedPermResult = some result := by
        unfold Server.fresh at hfresh
        split_ifs at hfresh
        exact hfresh
      exact h.setThread i ⟨h.current.cached result hcached,by simp⟩
    · obtain rfl := Option.some.inj ht
      exact h.setThread i (le_refl s.resourcePermsGen)
  · rename_i gen j hi
    have hgen : (Thread.captured gen).Ok s := hi ▸ h.threads i
    split at ht
    · obtain rfl := Option.some.inj ht
      exact h.setThread i ⟨by nofun,by nofun⟩
    · rename_i client hclient
      obtain rfl := Option.some.inj ht
      exact h.setThread i ⟨⟨hgen,fun _ _ => hclient⟩,by nofun⟩
  · rename_i gen client answers j key ns allowed transient hi
    have hprobe : (Thread.probing gen client answers).Ok s := hi ▸ h.threads i
    obtain rfl := Option.some.inj ht
    exact h.setThread i ⟨hprobe.1,List.forall_mem_cons.mpr ⟨rfl,hprobe.2⟩⟩
  · rename_i gen client answers j hi
    have hprobe : (Thread.probing gen client answers).Ok s := hi ▸ h.threads i
    obtain rfl := Option.some.inj ht
    exact h.setThread i ⟨hprobe.2,fun _ => ⟨client,rfl,hprobe.1⟩⟩
  · rename_i p client j hi
    obtain rfl := Option.some.inj ht
    exact publish_inv h hi (hok j rfl)
  · obtain rfl := Option.some.inj ht
    exact h.setThread i trivial
  · cases ht

theorem switchStep_inv (h : CurrentInv s) {a : Act} (hok : PublishesCurrent s a)
    (ht : s.switchStep a = some t) : CurrentInv t := by
  unfold Server.switchStep at ht
  split at ht
  · split_ifs at ht
    obtain rfl := Option.some.inj ht
    exact h.invalidate _
  · rename_i target ok hi
    simp only [PublishesCurrent, hi] at hok
    split_ifs at ht with hs
    · obtain rfl := Option.some.inj ht
      exact h.swap (hok hs)
    · obtain rfl := Option.some.inj ht
      exact h.setPhase (by simp [hi])
  · obtain rfl := Option.some.inj ht
    exact h.invalidate _
  · rename_i target picked hi
    split_ifs at ht
    · obtain rfl := Option.some.inj ht
      exact h.invalidate _
    · obtain rfl := Option.some.inj ht
      exact h.setPhase (by simp [hi])
  · rename_i target ok hi
    split_ifs at ht
    · obtain rfl := Option.some.inj ht
      exact h.setPhase (by simp [hi])
    · obtain rfl := Option.some.inj ht
      exact h.setPhase (by simp [hi])
  · obtain rfl := Option.some.inj ht
    exact h.invalidate _
  · rename_i target hi
    obtain rfl := Option.some.inj ht
    exact h.setPhase (by simp [hi])
  · cases ht

theorem step_inv (h : CurrentInv s) {a : Act} (hok : PublishesCurrent s a)
    (ht : s.step a = some t) : CurrentInv t := by
  cases a with
  | tick elapsed =>
    obtain rfl := Option.some.inj ht
    refine ⟨fun i => ?_,⟨h.current.cached,h.current.published⟩⟩
    exact (h.threads i).mono le_rfl fun _ _ hg => hg
  | invalidate =>
    obtain rfl := Option.some.inj ht
    exact h.invalidate s.phase
  | publish i => exact probeStep_inv h (fun _ _ => hok) ht
  | probe i bypassCache => exact probeStep_inv h (by nofun) ht
  | getClient i => exact probeStep_inv h (by nofun) ht
  | list i key ns allowed transient => exact probeStep_inv h (by nofun) ht
  | finish i => exact probeStep_inv h (by nofun) ht
  | discard i => exact probeStep_inv h (by nofun) ht
  | _ => exact switchStep_inv h hok ht

theorem started_inv (inCluster : Bool) (now : ℕ) (client : Option String) :
    CurrentInv (started inCluster now client) where
  threads _ := trivial
  current := ⟨fun _ hr => (nomatch hr),fun _ _ hr => (nomatch hr)⟩

/-- A switch to `y` whose own probe is published, and a second probe that the cache serves. -/
def switched : List Act :=
  [.invalidateBefore "y",.switchContext true,.clearNamespaceScopeOverride,
    .restoreNamespaceScopePreference false,.requireNamespaceScopeTarget true,.invalidateAfter,
    .probe 0 true,.getClient 0,.list 0 "pods" "" true false,.finish 0,.publish 0,.finishSwitch,
    .probe 1 false,.publish 1]

/-- A probe that starts after the first invalidation is published before the swap. -/
def published : List Act :=
  [.invalidateBefore "y",.probe 0 false,.getClient 0,.list 0 "pods" "" true false,.finish 0,
    .publish 0,.switchContext true]

/-- A call that was served from the cache returns after the switch. -/
def served : List Act :=
  [.probe 0 false,.getClient 0,.list 0 "pods" "" true false,.finish 0,.publish 0,.probe 1 false,
    .invalidateBefore "y",.switchContext true,.clearNamespaceScopeOverride,
    .restoreNamespaceScopePreference false,.requireNamespaceScopeTarget true,.invalidateAfter,
    .finishSwitch,.publish 1]

end Steps

end Radar.Permissions
