import Radar.Base.Join
import Radar.Base.Names

/-!
# The identity a verdict is computed for

Access reviews run with a user name and its groups, so a cached verdict is
keyed by both. The key lists the non-empty groups as a sorted set, and two
identities have one key exactly when they name the same principal.
-/

set_option autoImplicit false

namespace Radar.Auth

def nul : Char := '\x00'

/-- A control byte that cannot appear in a user or group name. -/
def cacheKeySep : String := String.singleton nul

structure User where
  username : String
  groups : List String
  username_clean : nul ∉ username.toList
  groups_clean : Join.Free nul groups

def groupsFingerprint (groups : List String) : String :=
  if groups.length = 0 then ""
  else cacheKeySep.intercalate (Names.sorted (Names.distinctFrom [""] groups))

def cacheKey (username : String) (groups : List String) : String :=
  username ++ cacheKeySep ++ groupsFingerprint groups

/-- The same user name and the same set of non-empty groups. -/
def SameIdentity (u v : User) : Prop :=
  u.username = v.username ∧ ∀ g, g ≠ "" → (g ∈ u.groups ↔ g ∈ v.groups)

theorem SameIdentity.refl (u : User) : SameIdentity u u := ⟨rfl,fun _ _ => Iff.rfl⟩

theorem SameIdentity.symm {u v : User} (h : SameIdentity u v) : SameIdentity v u :=
  ⟨h.1.symm,fun g hg => (h.2 g hg).symm⟩

theorem SameIdentity.trans {u v w : User} (h : SameIdentity u v) (h' : SameIdentity v w) :
    SameIdentity u w :=
  ⟨h.1.trans h'.1,fun g hg => (h.2 g hg).trans (h'.2 g hg)⟩

/-- The set of groups as the fingerprint lists it. -/
def groupSet (groups : List String) : List String := Names.sorted (Names.distinctFrom [""] groups)

theorem mem_groupSet {groups : List String} {g : String} :
    g ∈ groupSet groups ↔ g ∈ groups ∧ g ≠ "" := by
  rw [groupSet, Names.mem_sorted, Names.mem_distinctFrom, List.mem_singleton]

theorem groupsFingerprint_eq (groups : List String) :
    groupsFingerprint groups = cacheKeySep.intercalate (groupSet groups) := by
  cases groups with
  | nil => rfl
  | cons g groups => rfl

theorem groupSet_congr {l m : List String} (h : ∀ g, g ≠ "" → (g ∈ l ↔ g ∈ m)) :
    groupSet l = groupSet m := by
  apply Names.sorted_congr
  intro g
  rw [Names.mem_distinctFrom, Names.mem_distinctFrom, List.mem_singleton]
  exact and_congr_left (h g)

theorem groupSet_free {groups : List String} (h : Join.Free nul groups) :
    Join.Free nul (groupSet groups) :=
  fun g hg => h g (mem_groupSet.mp hg).1

theorem cacheKey_eq_iff (u v : User) :
    cacheKey u.username u.groups = cacheKey v.username v.groups ↔ SameIdentity u v := by
  constructor
  · intro h
    have hparts := Join.part_inj u.username_clean v.username_clean h
    rw [groupsFingerprint_eq, groupsFingerprint_eq] at hparts
    have hsets : groupSet u.groups = groupSet v.groups :=
      Join.joined_inj_of_ne_empty (groupSet_free u.groups_clean) (groupSet_free v.groups_clean)
        (fun he => (mem_groupSet.mp he).2 rfl) (fun he => (mem_groupSet.mp he).2 rfl) hparts.2
    refine ⟨hparts.1,fun g hg => ?_⟩
    have hmem : g ∈ groupSet u.groups ↔ g ∈ groupSet v.groups := by rw [hsets]
    simpa [mem_groupSet, hg] using hmem
  · intro h
    rw [cacheKey, cacheKey, groupsFingerprint_eq, groupsFingerprint_eq, h.1, groupSet_congr h.2]

end Radar.Auth
