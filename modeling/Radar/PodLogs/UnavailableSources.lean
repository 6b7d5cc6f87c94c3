import Mathlib.Data.List.AList
import Mathlib.Data.List.Induction
import Mathlib.Data.List.Sort
import Mathlib.Data.String.Basic

/-!
# Sources that could not be read

Follows of one container report, in any order, that they failed or that they
are live. The table keeps one pair for each source: the follow of the last
report it took, and the reason of the failure, empty after a recovery. A
recovery that comes while no failure is recorded is not taken, and an older
failure that arrives after it is shown.
-/

set_option autoImplicit false

namespace Radar.PodLogs

structure SourceFailure where
  follow : ℤ
  reason : String := ""
  deriving DecidableEq, Repr

abbrev UnavailableSources := AList fun _ : String => SourceFailure

namespace UnavailableSources

def add (u : UnavailableSources) (key : String) (follow : ℤ) (reason : String) :
    Bool × UnavailableSources :=
  match u.lookup key with
  | some previous =>
    if follow < previous.follow then (false,u)
    else (previous.reason ≠ reason,u.insert key { follow := follow, reason := reason })
  | none => (true,u.insert key { follow := follow, reason := reason })

def remove (u : UnavailableSources) (key : String) (follow : ℤ) : Bool × UnavailableSources :=
  match u.lookup key with
  | some failed =>
    -- buffered records from the failed request are not evidence of recovery
    if failed.reason = "" ∨ follow ≤ failed.follow then (false,u)
    else (true,u.insert key { follow := follow })
  | none => (false,u)

def countNoun (n : ℕ) (singular plural : String) : String :=
  if n = 1 then "1 "++singular else toString n++" "++plural

def unreadableSourcesNotice (failures : List String) : String :=
  if failures = [] then ""
  else
    countNoun failures.length "source" "sources"++" could not be read: "++
      "; ".intercalate ((failures.insertionSort fun a b => a ≤ b).take (min 3 failures.length))

def notice (u : UnavailableSources) : String :=
  unreadableSourcesNotice (u.entries.filterMap fun e =>
    if e.2.reason = "" then none else some (e.1++": "++e.2.reason))

end UnavailableSources

inductive Report where
  | add (follow : ℤ) (reason : String)
  | remove (follow : ℤ)
  deriving DecidableEq, Repr

def UnavailableSources.take (key : String) (u : UnavailableSources) (r : Report) :
    UnavailableSources :=
  match r with
  | .add follow reason => (u.add key follow reason).2
  | .remove follow => (u.remove key follow).2

def reported (key : String) (rs : List Report) : UnavailableSources :=
  rs.foldl (UnavailableSources.take key) ∅

/-- The notice that names one source. -/
def namingNotice (key reason : String) : String := "1 source could not be read: "++key++": "++reason

/-- The failure that counts is the last one to arrive of the greatest follow. -/
structure Newest (rs : List Report) (follow : ℤ) (reason : String) : Prop where
  last : ∃ a b, rs = a++.add follow reason::b ∧ ∀ f r, .add f r ∈ b → f < follow
  most : ∀ f r, .add f r ∈ rs → f ≤ follow

/-- No follow newer than that of every failure was reported live. -/
def Unrecovered (rs : List Report) (follow : ℤ) : Prop := ∀ g, .remove g ∈ rs → g ≤ follow

/-- The notice names the source if and only if some failure was reported and no newer recovery,
and then with the reason that counts. -/
structure NoticeSound (key : String) (rs : List Report) : Prop where
  named : ∀ follow reason, Newest rs follow reason → Unrecovered rs follow →
    (reported key rs).notice = namingNotice key reason
  unnamed : (∀ follow reason, Newest rs follow reason → ¬Unrecovered rs follow) →
    (reported key rs).notice = ""

/-- Newer than every failure. -/
def NewerThanAll (rs : List Report) (g : ℤ) : Prop := ∀ f r, .add f r ∈ rs → f < g

/-- A failure is recorded. -/
def Failing (key : String) (u : UnavailableSources) : Prop :=
  ∃ s, u.lookup key = some s ∧ s.reason ≠ ""

/-- Of the recoveries newer than every failure, if there are any, one comes while a failure is
recorded. -/
def RecoveryHeard (key : String) (rs : List Report) : Prop :=
  (∃ f r, .add f r ∈ rs) → (∃ g, .remove g ∈ rs ∧ NewerThanAll rs g) →
    ∃ a g b, rs = a++.remove g::b ∧ NewerThanAll rs g ∧ Failing key (reported key a)

section Reports

variable {key : String} {rs a b : List Report} {r : Report} {s : SourceFailure}

theorem reported_append (a b : List Report) :
    reported key (a++b) = b.foldl (UnavailableSources.take key) (reported key a) :=
  List.foldl_append

theorem reported_snoc (rs : List Report) (r : Report) :
    reported key (rs++[r]) = (reported key rs).take key r := by
  rw [reported_append]
  rfl

/-- What one report does to the pair of its source. -/
theorem lookup_add (u : UnavailableSources) (f : ℤ) (reason : String) :
    (u.take key (.add f reason)).lookup key =
      match u.lookup key with
      | some s => if f < s.follow then some s else some ⟨f,reason⟩
      | none => some ⟨f,reason⟩ := by
  unfold UnavailableSources.take UnavailableSources.add
  cases h : u.lookup key with
  | none => simp
  | some s => by_cases hf : f < s.follow <;> simp [hf, h]

theorem lookup_remove (u : UnavailableSources) (g : ℤ) :
    (u.take key (.remove g)).lookup key =
      match u.lookup key with
      | some s => if s.reason = "" ∨ g ≤ s.follow then some s else some ⟨g,""⟩
      | none => none := by
  unfold UnavailableSources.take UnavailableSources.remove
  cases h : u.lookup key with
  | none => simpa using h
  | some s => by_cases hs : s.reason = "" ∨ g ≤ s.follow <;> simp [hs, h]

variable (key) in
/-- A report leaves the table alone or stores a pair. -/
theorem take_cases (u : UnavailableSources) (r : Report) :
    u.take key r = u ∨ ∃ v, u.take key r = u.insert key v := by
  cases r with
  | add f reason =>
    show (u.add key f reason).2 = u ∨ ∃ v, (u.add key f reason).2 = u.insert key v
    unfold UnavailableSources.add
    cases u.lookup key with
    | none => exact .inr ⟨_,rfl⟩
    | some s =>
      by_cases hf : f < s.follow
      · exact .inl (by simp [hf])
      · exact .inr ⟨_,by simp [hf]; rfl⟩
  | remove g =>
    show (u.remove key g).2 = u ∨ ∃ v, (u.remove key g).2 = u.insert key v
    unfold UnavailableSources.remove
    cases u.lookup key with
    | none => exact .inl rfl
    | some s =>
      by_cases hs : s.reason = "" ∨ g ≤ s.follow
      · exact .inl (by simp [hs])
      · exact .inr ⟨_,by simp [hs]; rfl⟩

/-- What is stored of one source, where no other is. -/
theorem insert_entries {u : UnavailableSources}
    (h : u.entries = (u.lookup key).toList.map (⟨key,·⟩)) (v : SourceFailure) :
    (u.insert key v).entries = [⟨key,v⟩] := by
  rw [AList.entries_insert, h]
  cases u.lookup key <;> simp [List.kerase]

variable (key) in
/-- The table holds no other source. -/
theorem reported_entries (rs : List Report) :
    (reported key rs).entries = ((reported key rs).lookup key).toList.map (⟨key,·⟩) := by
  induction rs using List.reverseRecOn with
  | nil => rfl
  | append_singleton rs r ih =>
    have hinsert := insert_entries ih
    rw [reported_snoc]
    generalize reported key rs = u at ih hinsert
    obtain heq | ⟨v,heq⟩ := take_cases key u r
    · rw [heq]
      exact ih
    · rw [heq, hinsert, AList.lookup_insert]
      rfl

theorem unreadableSourcesNotice_one (failure : String) :
    UnavailableSources.unreadableSourcesNotice [failure] =
      "1 source could not be read: "++failure := by
  have hsort : ([failure].insertionSort fun a b => a ≤ b).take (min 3 [failure].length) =
    [failure] := rfl
  rw [UnavailableSources.unreadableSourcesNotice, if_neg (List.cons_ne_nil _ _), hsort,
    String.intercalate_singleton, UnavailableSources.countNoun, List.length_singleton, if_pos rfl]
  rfl

/-- The notice of the pair that is kept. -/
def worded (key : String) : Option SourceFailure → String
  | some s => if s.reason = "" then "" else namingNotice key s.reason
  | none => ""

/-- What the notice lists of one source. -/
def listed (key : String) (s : SourceFailure) : List String :=
  if s.reason = "" then [] else [key++": "++s.reason]

theorem notice_listed {u : UnavailableSources} (h : u.entries = [⟨key,s⟩]) :
    u.notice = UnavailableSources.unreadableSourcesNotice (listed key s) := by
  unfold UnavailableSources.notice listed
  rw [h, List.filterMap_cons, List.filterMap_nil]
  congr 1
  by_cases hs : s.reason = "" <;> simp [hs]

theorem notice_eq (rs : List Report) :
    (reported key rs).notice = worded key ((reported key rs).lookup key) := by
  have hentries := reported_entries key rs
  cases hlookup : (reported key rs).lookup key with
  | none =>
    rw [hlookup] at hentries
    unfold UnavailableSources.notice
    rw [hentries]
    exact if_pos rfl
  | some s =>
    rw [hlookup] at hentries
    rw [notice_listed hentries, listed, worded]
    by_cases hs : s.reason = ""
    · rw [if_pos hs, if_pos hs]
      exact if_pos rfl
    · have hassoc : ∀ a b c d : String, a++(b++c++d) = a++b++c++d := by
        intro a b c d
        simp only [String.append_assoc]
      rw [if_neg hs, if_neg hs, unreadableSourcesNotice_one]
      exact hassoc _ key ": " s.reason

variable (key) in
/-- No failure is newer than the pair that is kept. -/
theorem add_le {f : ℤ} {reason : String} (h : .add f reason ∈ rs) :
    ∃ s, (reported key rs).lookup key = some s ∧ f ≤ s.follow := by
  induction rs using List.reverseRecOn with
  | nil => cases h
  | append_singleton rs r ih =>
    rw [reported_snoc]
    cases List.mem_append.mp h with
    | inl hin =>
      obtain ⟨s,hs,hle⟩ := ih hin
      cases r with
      | add f' reason' =>
        rw [lookup_add, hs]
        by_cases hf : f' < s.follow
        · exact ⟨s,if_pos hf,hle⟩
        · exact ⟨_,if_neg hf,by dsimp only; omega⟩
      | remove g =>
        rw [lookup_remove, hs]
        by_cases hg : s.reason = "" ∨ g ≤ s.follow
        · exact ⟨s,if_pos hg,hle⟩
        · rw [not_or] at hg
          exact ⟨_,if_neg (by simp [hg]),by dsimp only; omega⟩
    | inr hlast =>
      obtain rfl := List.mem_singleton.mp hlast
      rw [lookup_add]
      cases (reported key rs).lookup key with
      | none => exact ⟨_,rfl,Int.le_refl _⟩
      | some s =>
        by_cases hf : f < s.follow
        · exact ⟨s,if_pos hf,Int.le_of_lt hf⟩
        · exact ⟨_,if_neg hf,Int.le_refl _⟩

/-- A later report of an older follow does not count. -/
theorem Newest.snoc {f : ℤ} {reason : String} (h : Newest rs f reason)
    (hr : ∀ f' reason', r = .add f' reason' → f' < f) : Newest (rs++[r]) f reason := by
  obtain ⟨⟨a,b,rfl,hb⟩,hmost⟩ := h
  constructor
  · refine ⟨a,b++[r],by simp,fun f' reason' hin => ?_⟩
    cases List.mem_append.mp hin with
    | inl hin => exact hb f' reason' hin
    | inr hin => exact hr f' reason' (List.mem_singleton.mp hin).symm
  · intro f' reason' hin
    cases List.mem_append.mp hin with
    | inl hin => exact hmost f' reason' hin
    | inr hin => exact Int.le_of_lt (hr f' reason' (List.mem_singleton.mp hin).symm)

/-- A failure that is recorded is the one that counts. -/
theorem failing_newest (h : (reported key rs).lookup key = some s) (hs : s.reason ≠ "") :
    Newest rs s.follow s.reason := by
  induction rs using List.reverseRecOn generalizing s with
  | nil => cases h
  | append_singleton rs r ih =>
    rw [reported_snoc] at h
    cases r with
    | add f reason =>
      rw [lookup_add] at h
      have hnew : (∀ f' r', .add f' r' ∈ rs → f' ≤ f) → Newest (rs++[.add f reason]) f reason := by
        intro hall
        refine ⟨⟨rs,[],rfl,fun _ _ => (by simp)⟩,fun f' r' hin => ?_⟩
        cases List.mem_append.mp hin with
        | inl hin => exact hall f' r' hin
        | inr hin =>
          obtain ⟨rfl,-⟩ := Report.add.inj (List.mem_singleton.mp hin)
          exact Int.le_refl _
      cases hp : (reported key rs).lookup key with
      | none =>
        rw [hp] at h
        obtain rfl := Option.some.inj h
        refine hnew fun f' r' hin => ?_
        obtain ⟨p,hsome,-⟩ := add_le key hin
        cases hp.symm.trans hsome
      | some p =>
        rw [hp] at h
        by_cases hf : f < p.follow
        · obtain rfl := Option.some.inj ((if_pos hf).symm.trans h)
          exact (ih hp hs).snoc fun f' r' heq => (Report.add.inj heq).1 ▸ hf
        · obtain rfl := Option.some.inj ((if_neg hf).symm.trans h)
          refine hnew fun f' r' hin => ?_
          obtain ⟨q,hq,hle⟩ := add_le key hin
          obtain rfl := Option.some.inj (hp.symm.trans hq)
          omega
    | remove g =>
      rw [lookup_remove] at h
      cases hp : (reported key rs).lookup key with
      | none =>
        rw [hp] at h
        cases h
      | some p =>
        rw [hp] at h
        by_cases hg : p.reason = "" ∨ g ≤ p.follow
        · obtain rfl := Option.some.inj ((if_pos hg).symm.trans h)
          exact (ih hp hs).snoc fun _ _ => (by simp)
        · obtain rfl := Option.some.inj ((if_neg hg).symm.trans h)
          exact absurd rfl hs

/-- A recovery that is recorded came while a failure was, and is newer than every failure. -/
theorem recovered_heard (hreasons : ∀ f reason, .add f reason ∈ rs → reason ≠ "")
    (h : (reported key rs).lookup key = some s) (hs : s.reason = "") :
    ∃ a b, rs = a++.remove s.follow::b ∧ NewerThanAll rs s.follow ∧
      Failing key (reported key a) := by
  induction rs using List.reverseRecOn generalizing s with
  | nil => cases h
  | append_singleton rs r ih =>
    have hbefore : ∀ f reason, .add f reason ∈ rs → reason ≠ "" := fun f reason hin =>
      hreasons f reason (List.mem_append_left _ hin)
    rw [reported_snoc] at h
    -- the pair stays, and the report is older than it
    have hstays : (reported key rs).lookup key = some s →
        (∀ f reason, r = .add f reason → f < s.follow) → ∃ a b,
        rs++[r] = a++.remove s.follow::b ∧ NewerThanAll (rs++[r]) s.follow ∧
        Failing key (reported key a) := by
      intro hp hr
      obtain ⟨a,b,rfl,hnewer,hfailing⟩ := ih hbefore hp hs
      refine ⟨a,b++[r],by simp,fun f reason hin => ?_,hfailing⟩
      cases List.mem_append.mp hin with
      | inl hin => exact hnewer f reason hin
      | inr hin => exact hr f reason (List.mem_singleton.mp hin).symm
    cases r with
    | add f reason =>
      have hreason := hreasons f reason (by simp)
      rw [lookup_add] at h
      cases hp : (reported key rs).lookup key with
      | none =>
        rw [hp] at h
        obtain rfl := Option.some.inj h
        exact absurd hs hreason
      | some p =>
        rw [hp] at h
        by_cases hf : f < p.follow
        · obtain rfl := Option.some.inj ((if_pos hf).symm.trans h)
          exact hstays hp fun f' r' heq => (Report.add.inj heq).1 ▸ hf
        · obtain rfl := Option.some.inj ((if_neg hf).symm.trans h)
          exact absurd hs hreason
    | remove g =>
      rw [lookup_remove] at h
      cases hp : (reported key rs).lookup key with
      | none =>
        rw [hp] at h
        cases h
      | some p =>
        rw [hp] at h
        by_cases hg : p.reason = "" ∨ g ≤ p.follow
        · obtain rfl := Option.some.inj ((if_pos hg).symm.trans h)
          exact hstays hp fun _ _ => (by simp)
        · obtain rfl := Option.some.inj ((if_neg hg).symm.trans h)
          rw [not_or] at hg
          refine ⟨rs,[],rfl,fun f reason hin => ?_,p,hp,hg.1⟩
          have hin : .add f reason ∈ rs := by simpa using hin
          obtain ⟨q,hq,hle⟩ := add_le key hin
          obtain rfl := Option.some.inj (hp.symm.trans hq)
          have hgt := hg.2
          dsimp only
          omega

/-- After a recovery newer than every failure has been taken, the source is not named again. -/
theorem heard_recovers {g : ℤ} (hnewer : NewerThanAll (a++.remove g::b) g)
    (hfailing : Failing key (reported key a)) :
    (reported key (a++.remove g::b)).lookup key = some ⟨g,""⟩ := by
  obtain ⟨s,hs,hreason⟩ := hfailing
  have hheard : ((reported key a).take key (.remove g)).lookup key = some ⟨g,""⟩ := by
    have hlast := (failing_newest hs hreason).last
    obtain ⟨c,d,rfl,-⟩ := hlast
    have hlt : s.follow < g := hnewer s.follow s.reason (by simp)
    rw [lookup_remove, hs]
    exact if_neg (by simp only [not_or]; exact ⟨hreason,by omega⟩)
  have hlater : ∀ f reason, .add f reason ∈ b → f < g := fun f reason hin =>
    hnewer f reason (List.mem_append_right _ (List.mem_cons_of_mem _ hin))
  rw [reported_append, List.foldl_cons]
  generalize (reported key a).take key (.remove g) = u at hheard
  clear hnewer hs
  induction b generalizing u with
  | nil => exact hheard
  | cons r b ih =>
    refine ih (fun f reason hin => hlater f reason (List.mem_cons_of_mem _ hin)) _ ?_
    cases r with
    | add f reason =>
      rw [lookup_add, hheard]
      exact if_pos (hlater f reason List.mem_cons_self)
    | remove g' =>
      rw [lookup_remove, hheard]
      exact if_pos (.inl rfl)

theorem Newest.mem {f : ℤ} {reason : String} (h : Newest rs f reason) : .add f reason ∈ rs := by
  obtain ⟨⟨a,b,rfl,-⟩,-⟩ := h
  simp

theorem Newest.unique {f f' : ℤ} {reason reason' : String} (h : Newest rs f reason)
    (h' : Newest rs f' reason') : f = f' ∧ reason = reason' := by
  have hf : f = f' := Int.le_antisymm (h'.most f reason h.mem) (h.most f' reason' h'.mem)
  subst hf
  refine ⟨rfl,?_⟩
  obtain ⟨a,b,rfl,hb⟩ := h.last
  obtain ⟨a',b',heq,hb'⟩ := h'.last
  have hcases : ∀ {c d d' : List Report} {x y : String}, .add f x::d = c++.add f y::d' →
      (∀ f' r', .add f' r' ∈ d → f' < f) → x = y := by
    intro c d d' x y heq hd
    cases c with
    | nil => exact (Report.add.inj (List.cons.inj heq).1).2
    | cons z c =>
      have hin : .add f y ∈ d := by simp [(List.cons.inj heq).2]
      exact absurd (hd f y hin) (Int.lt_irrefl f)
  rcases List.append_eq_append_iff.mp heq with ⟨c,rfl,hc⟩ | ⟨c,rfl,hc⟩
  · exact hcases hc hb
  · exact (hcases hc hb').symm

/-- The notice is right exactly when a recovery newer than every failure, if there is one, comes
while a failure is recorded. -/
theorem notice_sound (key : String) (rs : List Report)
    (hreasons : ∀ f reason, .add f reason ∈ rs → reason ≠ "") :
    NoticeSound key rs ↔ RecoveryHeard key rs := by
  constructor
  · rintro ⟨-,hunnamed⟩ ⟨f,reason,hadd⟩ ⟨g,hg,hnewer⟩
    have hnone := hunnamed fun f' reason' hnew hun =>
      absurd (hnewer f' reason' hnew.mem) (Int.not_lt.mpr (hun g hg))
    obtain ⟨s,hs,-⟩ := add_le key hadd
    have hreason : s.reason = "" := by
      by_contra hne
      rw [notice_eq, hs, worded, if_neg hne] at hnone
      exact hne (String.append_eq_empty_iff.mp hnone).2
    obtain ⟨a,b,heq,hall,hfailing⟩ := recovered_heard hreasons hs hreason
    exact ⟨a,s.follow,b,heq,hall,hfailing⟩
  · intro hheard
    have hfailing : ∀ s, (reported key rs).lookup key = some s → s.reason ≠ "" →
        Unrecovered rs s.follow := by
      intro s hs hreason g hg
      have hnewest := failing_newest hs hreason
      by_contra hlt
      obtain ⟨a,g',b,rfl,hnewer,hfail⟩ := hheard ⟨_,_,hnewest.mem⟩
        ⟨g,hg,fun f reason hin => by have := hnewest.most f reason hin; omega⟩
      obtain rfl := Option.some.inj (hs.symm.trans (heard_recovers hnewer hfail))
      exact hreason rfl
    constructor
    · intro follow reason hnew hun
      obtain ⟨s,hs,hle⟩ := add_le key hnew.mem
      have hreason : s.reason ≠ "" := by
        intro hempty
        obtain ⟨a,b,rfl,hall,-⟩ := recovered_heard hreasons hs hempty
        have hlt := hall follow reason hnew.mem
        have hge := hun s.follow (by simp)
        omega
      obtain ⟨-,rfl⟩ := hnew.unique (failing_newest hs hreason)
      rw [notice_eq, hs, worded, if_neg hreason]
    · intro hnone
      rw [notice_eq]
      cases hs : (reported key rs).lookup key with
      | none => rfl
      | some s =>
        rw [worded]
        by_cases hreason : s.reason = ""
        · exact if_pos hreason
        · exact absurd (hfailing s hs hreason)
            (hnone s.follow s.reason (failing_newest hs hreason))

/-- The second follow fails after the first one, and the third one is live. -/
def inTurn : List Report := [.add 1 "refused", .add 2 "timeout", .remove 3]

theorem notice_sound_inTurn : NoticeSound "pod/app" inTurn := by
  refine (notice_sound "pod/app" inTurn ?_).mpr ?_
  · intro f reason hin
    simp only [inTurn, List.mem_cons, List.not_mem_nil, or_false] at hin
    rcases hin with h | h | h
    · obtain ⟨-,rfl⟩ := Report.add.inj h
      decide
    · obtain ⟨-,rfl⟩ := Report.add.inj h
      decide
    · nomatch h
  · intro _ _
    refine ⟨[.add 1 "refused", .add 2 "timeout"],3,[],rfl,fun f reason hin => ?_,⟨2,"timeout"⟩,
      by decide +kernel,by decide⟩
    simp only [inTurn, List.mem_cons, List.not_mem_nil, or_false] at hin
    rcases hin with h | h | h
    · obtain ⟨rfl,-⟩ := Report.add.inj h
      decide
    · obtain ⟨rfl,-⟩ := Report.add.inj h
      decide
    · nomatch h

/-- A follow is live before the failure of the one before it arrives, and the failure is shown. -/
theorem notice_not_sound : ¬NoticeSound "pod/app" [.remove 2, .add 1 "timeout"] := by
  intro h
  have hnone := h.unnamed fun f reason hnew hun => by
    have hin := hnew.mem
    simp only [List.mem_cons, List.not_mem_nil, or_false] at hin
    rcases hin with heq | heq
    · nomatch heq
    · obtain ⟨rfl,-⟩ := Report.add.inj heq
      exact absurd (hun 2 List.mem_cons_self) (by decide)
  have hlookup : (reported "pod/app" [.remove 2, .add 1 "timeout"]).lookup "pod/app" =
      some ⟨1,"timeout"⟩ := by decide +kernel
  rw [notice_eq, hlookup] at hnone
  revert hnone
  decide +kernel

end Reports

end Radar.PodLogs
