import Mathlib.Data.Finset.SDiff
import Mathlib.Data.List.TakeWhile
import Radar.Seen.PostgresSeen

/-!
# Every stale durable mark has a clear on the way

A key outside the in-memory set whose row is in the table, or whose mark is
still to be written, is in the uncleared set or has a clear as its last write.
The invariant holds of the writes that are not yet settled as well as of all
of them, so that dropping a finished statement keeps it. What can break it is
a retry that queues a clear between the two halves of a mark of the same key.
-/

set_option autoImplicit false

namespace Radar.Seen
open Radar.Run Radar.LastWrite

variable {κ : Type*} [DecidableEq κ]

/-! ## The bounded backlog of clears -/

theorem note_key_subset (seen uncleared : Finset κ) (k : κ) : uncleared ⊆ noteKey seen uncleared k := by
  unfold noteKey
  split_ifs
  · exact Finset.Subset.refl _
  · exact Finset.Subset.refl _
  · exact Finset.subset_insert _ _

theorem note_keys_subset (seen uncleared : Finset κ) (keys : List κ) :
    uncleared ⊆ keys.foldl (noteKey seen) uncleared := by
  induction keys generalizing uncleared with
  | nil => exact Finset.Subset.refl _
  | cons k ks ih => exact Finset.Subset.trans (note_key_subset seen uncleared k) (ih _)

theorem mem_note_key {seen uncleared : Finset κ} {k : κ}
    (hbound : (noteKey seen uncleared k).card < maxUnclearedSeen) (hseen : k ∉ seen) :
    k ∈ noteKey seen uncleared k := by
  unfold noteKey at hbound ⊢
  rw [if_neg hseen] at hbound ⊢
  split_ifs at hbound ⊢ with hfull
  · omega
  · exact Finset.mem_insert_self _ _

/-- Below the bound, a noted key is kept unless it has been marked again. -/
theorem mem_note_keys {seen uncleared : Finset κ} {keys : List κ} {k : κ}
    (hbound : (keys.foldl (noteKey seen) uncleared).card < maxUnclearedSeen) (hk : k ∈ keys)
    (hseen : k ∉ seen) : k ∈ keys.foldl (noteKey seen) uncleared := by
  induction keys generalizing uncleared with
  | nil => cases hk
  | cons a as ih =>
    rw [List.foldl_cons] at hbound ⊢
    cases hk with
    | tail _ hk => exact ih hbound hk
    | head =>
      have hsub := note_keys_subset seen (noteKey seen uncleared k) as
      have := Finset.card_le_card hsub
      exact hsub (mem_note_key (by omega) hseen)

/-! ## The invariant -/

/-- The last write of the key is a clear: it stands behind every mark of it. -/
def ClearLast (k : κ) (log : List (SeenResourceWrite κ)) : Prop :=
  ∃ w, last (·.key) k log = some w ∧ w.delete = true

def MarkIn (k : κ) (log : List (SeenResourceWrite κ)) : Prop := ∃ w ∈ log, w.key = k ∧ w.delete = false

/-- A clear or a forget of the key has left the set and not yet queued its clear. -/
def Clearing (s : PostgresStore κ) (k : κ) : Prop :=
  s.calls k = .clearSend ∨ s.calls k = .clearTimedOut ∨ ∃ keys ∈ s.forgetting, k ∈ keys

def Covered (s : PostgresStore κ) (log : List (SeenResourceWrite κ)) : Prop :=
  ∀ k, k ∈ s.table ∨ MarkIn k log → k ∉ s.seenResources → ¬ Clearing s k →
    k ∈ s.unclearedSeen ∨ ClearLast k log

/-- The writes not yet persisted, oldest first. -/
def backlog (s : PostgresStore κ) : List (SeenResourceWrite κ) := s.pending++s.seenWrites

structure CoverInv (s : PostgresStore κ) : Prop where
  all : Covered s (backlog s)
  unsettled : s.writer = .finished → Covered s (afterRun s++s.seenWrites)
  marking : ∀ k, s.calls k = .markSend →
    k ∈ s.seenResources ∨ k ∈ s.unclearedSeen ∨ ∃ keys ∈ s.forgetting, k ∈ keys

theorem opened_cover (rows : Finset κ) : CoverInv (opened rows) where
  all := by
    intro k hstale hseen _
    rcases hstale with htable | ⟨w, hw, -⟩
    · exact absurd htable hseen
    · cases hw
  unsettled := by
    intro h
    cases h
  marking := by
    intro k h
    cases h

/-! ## Logs that grow at the end -/

theorem clear_last_append_same {k : κ} {w : SeenResourceWrite κ} (log : List (SeenResourceWrite κ))
    (hkey : w.key = k) (hdelete : w.delete = true) : ClearLast k (log++[w]) :=
  ⟨w, last_append_same log hkey, hdelete⟩

theorem clear_last_append_other {k : κ} {w : SeenResourceWrite κ} {log : List (SeenResourceWrite κ)}
    (hkey : w.key ≠ k) : ClearLast k (log++[w]) ↔ ClearLast k log := by
  rw [ClearLast, last_append_other log hkey]
  rfl

omit [DecidableEq κ] in
theorem mark_in_append_other {k : κ} {w : SeenResourceWrite κ} {log : List (SeenResourceWrite κ)}
    (hkey : w.key ≠ k) : MarkIn k (log++[w]) ↔ MarkIn k log := by
  constructor
  · rintro ⟨x, hx, hxk, hxd⟩
    rcases List.mem_append.mp hx with hx | hx
    · exact ⟨x, hx, hxk, hxd⟩
    · rw [List.mem_singleton.mp hx] at hxk
      exact absurd hxk hkey
  · rintro ⟨x, hx, hxk, hxd⟩
    exact ⟨x, List.mem_append_left _ hx, hxk, hxd⟩

/-! ## The calls -/

/-- What has to hold of a call's step, whatever the writer still holds before the queue. -/
def KeepsCover (s t : PostgresStore κ) : Prop :=
  ∀ log, Covered s (log++s.seenWrites) → Covered t (log++t.seenWrites)

/-- The step left the table and the queue alone; it suffices to compare the sets key by key. -/
theorem keeps_cover_of {s t : PostgresStore κ} (htable : t.table = s.table)
    (hqueue : t.seenWrites = s.seenWrites)
    (hkey : ∀ k, k ∉ t.seenResources → ¬ Clearing t k → k ∈ t.unclearedSeen ∨
      (k ∉ s.seenResources ∧ ¬ Clearing s k ∧ (k ∈ s.unclearedSeen → k ∈ t.unclearedSeen))) :
    KeepsCover s t := by
  intro log h k hstale hseen hclearing
  rw [htable, hqueue] at hstale
  rw [hqueue]
  rcases hkey k hseen hclearing with hkept | ⟨hseen', hclearing', hmono⟩
  · exact Or.inl hkept
  · rcases h k hstale hseen' hclearing' with hu | hlast
    · exact Or.inl (hmono hu)
    · exact Or.inr hlast

/-- The step queued one write; only that key needs an argument. -/
theorem keeps_cover_of_send {s t : PostgresStore κ} {w : SeenResourceWrite κ}
    (htable : t.table = s.table) (hqueue : t.seenWrites = s.seenWrites++[w])
    (hown : w.key ∉ t.seenResources → ¬ Clearing t w.key → w.key ∈ t.unclearedSeen ∨ w.delete = true)
    (hother : ∀ k, k ≠ w.key → k ∉ t.seenResources → ¬ Clearing t k →
      k ∉ s.seenResources ∧ ¬ Clearing s k ∧ (k ∈ s.unclearedSeen → k ∈ t.unclearedSeen)) :
    KeepsCover s t := by
  intro log h k hstale hseen hclearing
  rw [htable, hqueue, ← List.append_assoc] at hstale
  rw [hqueue, ← List.append_assoc]
  by_cases hk : w.key = k
  · subst hk
    rcases hown hseen hclearing with hu | hdelete
    · exact Or.inl hu
    · exact Or.inr (clear_last_append_same _ rfl hdelete)
  · rw [mark_in_append_other hk] at hstale
    obtain ⟨hseen', hclearing', hmono⟩ := hother k (Ne.symm hk) hseen hclearing
    rcases h k hstale hseen' hclearing' with hu | hlast
    · exact Or.inl (hmono hu)
    · exact Or.inr ((clear_last_append_other hk).mpr hlast)

/-- A step that only moves the state of one call, between states that are not clearing. -/
theorem call_moved_keeps {s t : PostgresStore κ} {j : κ} {c : CallState}
    (ht : t = { s with seenDropped := t.seenDropped, calls := Function.update s.calls j c })
    (hold : s.calls j = .clearSend ∨ s.calls j = .clearTimedOut → c = .clearSend ∨ c = .clearTimedOut) :
    KeepsCover s t := by
  rw [ht]
  refine keeps_cover_of (s := s) rfl rfl fun k hseen hclearing => Or.inr ⟨hseen, ?_, fun hu => hu⟩
  intro hc
  apply hclearing
  by_cases hk : k = j
  · subst hk
    rcases hc with hc | hc | hc
    · exact (hold (Or.inl hc)).elim (fun h => Or.inl (by simp [h])) fun h => Or.inr (Or.inl (by simp [h]))
    · exact (hold (Or.inr hc)).elim (fun h => Or.inl (by simp [h])) fun h => Or.inr (Or.inl (by simp [h]))
    · exact Or.inr (Or.inr hc)
  · simpa only [Clearing, Function.update_of_ne hk] using hc

theorem mark_keeps {s t : PostgresStore κ} {j : κ} (ht : step s (.mark j) = some t) :
    KeepsCover s t := by
  simp only [step, Option.ite_none_right_eq_some, Option.some.injEq] at ht
  obtain ⟨-, rfl⟩ := ht
  refine keeps_cover_of (s := s) rfl rfl fun k hseen hclearing => Or.inr ?_
  have hk : k ≠ j := fun heq => hseen (by simp [heq])
  simp only [Clearing, Function.update_of_ne hk, Finset.mem_insert, not_or, Finset.mem_erase] at *
  exact ⟨hseen.2, hclearing, fun hu => ⟨hk, hu⟩⟩

theorem mark_send_keeps {s t : PostgresStore κ} {j : κ} (hinv : CoverInv s)
    (ht : step s (.markSend j) = some t) : KeepsCover s t := by
  simp only [step] at ht
  split_ifs at ht with hcall hroom
  · obtain rfl := Option.some.inj ht
    refine keeps_cover_of_send (s := s) rfl rfl (fun hseen hclearing => ?_) fun k hk hseen hclearing => ?_
    · rcases hinv.marking j hcall with hmem | hu | hforget
      · exact absurd hmem hseen
      · exact Or.inl hu
      · exact absurd (Or.inr (Or.inr hforget)) hclearing
    · refine ⟨hseen, ?_, fun hu => hu⟩
      simpa only [Clearing, Function.update_of_ne hk] using hclearing
  · obtain rfl := Option.some.inj ht
    apply call_moved_keeps (j := j) (c := .idle) rfl
    rw [hcall]
    rintro (h | h) <;> cases h

theorem clear_keeps {s t : PostgresStore κ} {j : κ} (ht : step s (.clear j) = some t) :
    KeepsCover s t := by
  simp only [step, Option.ite_none_right_eq_some, Option.some.injEq] at ht
  obtain ⟨-, rfl⟩ := ht
  refine keeps_cover_of (s := s) rfl rfl fun k hseen hclearing => Or.inr ?_
  have hk : k ≠ j := fun heq => hclearing (Or.inl (by simp [heq]))
  simp only [Clearing, Function.update_of_ne hk, Finset.mem_erase, not_and] at *
  exact ⟨hseen hk, hclearing, fun hu => hu⟩

theorem clear_send_keeps {s t : PostgresStore κ} {j : κ} (ht : step s (.clearSend j) = some t) :
    KeepsCover s t := by
  simp only [step, Option.ite_none_right_eq_some, Option.some.injEq] at ht
  obtain ⟨-, rfl⟩ := ht
  refine keeps_cover_of_send (s := s) rfl rfl (fun _ _ => Or.inr rfl) fun k hk hseen hclearing => ?_
  refine ⟨hseen, ?_, fun hu => hu⟩
  simpa only [Clearing, Function.update_of_ne hk] using hclearing

theorem clear_timeout_keeps {s t : PostgresStore κ} {j : κ}
    (ht : step s (.clearTimeout j) = some t) : KeepsCover s t := by
  simp only [step, Option.ite_none_right_eq_some, Option.some.injEq] at ht
  obtain ⟨-, rfl⟩ := ht
  exact call_moved_keeps (j := j) (c := .clearTimedOut) rfl fun _ => Or.inr rfl

theorem clear_return_keeps {s t : PostgresStore κ} {j : κ}
    (ht : step s (.clearReturn j) = some t) : KeepsCover s t := by
  simp only [step, Option.ite_none_right_eq_some, Option.some.injEq] at ht
  obtain ⟨hcall, rfl⟩ := ht
  apply call_moved_keeps (j := j) (c := .idle) rfl
  rw [hcall]
  rintro (h | h) <;> cases h

theorem clear_note_keeps {s t : PostgresStore κ} {j : κ}
    (hbound : t.unclearedSeen.card < maxUnclearedSeen)
    (ht : step s (.clearNote j) = some t) : KeepsCover s t := by
  simp only [step, noteUncleared, Option.ite_none_right_eq_some, Option.some.injEq] at ht
  obtain ⟨-, rfl⟩ := ht
  refine keeps_cover_of (s := s) rfl rfl fun k hseen hclearing => ?_
  by_cases hk : k = j
  · exact Or.inl (mem_note_keys hbound (by simp [hk]) hseen)
  · refine Or.inr ⟨hseen, ?_, fun hu => note_keys_subset _ _ _ hu⟩
    simpa only [Clearing, Function.update_of_ne hk] using hclearing

theorem forget_keeps {s t : PostgresStore κ} {keys : List κ} (ht : step s (.forget keys) = some t) :
    KeepsCover s t := by
  obtain rfl := Option.some.inj ht
  refine keeps_cover_of (s := s) rfl rfl fun k hseen hclearing => Or.inr ?_
  have hk : k ∉ keys := fun hk => hclearing (Or.inr (Or.inr ⟨keys, by simp, hk⟩))
  refine ⟨fun hmem => hseen (by simp [hmem, hk]), fun hc => hclearing ?_, fun hu => hu⟩
  rcases hc with hc | hc | ⟨ks, hks, hmem⟩
  · exact Or.inl hc
  · exact Or.inr (Or.inl hc)
  · exact Or.inr (Or.inr ⟨ks, List.mem_append_left _ hks, hmem⟩)

theorem mem_erase_idx_of_ne {α : Type*} {l : List α} {i : ℕ} {a b : α} (hi : l[i]? = some a)
    (hb : b ∈ l) (hne : b ≠ a) : b ∈ l.eraseIdx i := by
  obtain ⟨j, hj⟩ := List.mem_iff_getElem?.mp hb
  refine List.mem_eraseIdx_iff_getElem?.mpr ⟨j, ?_, hj⟩
  rintro rfl
  rw [hi] at hj
  exact hne (Option.some.inj hj).symm

theorem forget_note_cases {s t : PostgresStore κ} {call : ℕ} (ht : step s (.forgetNote call) = some t) :
    ∃ keys, s.forgetting[call]? = some keys ∧
      t = { noteUncleared s keys with forgetting := s.forgetting.eraseIdx call } := by
  simp only [step] at ht
  split at ht
  · next keys hkeys => exact ⟨keys, hkeys, (Option.some.inj ht).symm⟩
  · cases ht

theorem forget_note_keeps {s t : PostgresStore κ} {call : ℕ}
    (hbound : t.unclearedSeen.card < maxUnclearedSeen) (ht : step s (.forgetNote call) = some t) :
    KeepsCover s t := by
  obtain ⟨keys, hkeys, rfl⟩ := forget_note_cases ht
  refine keeps_cover_of (s := s) rfl rfl fun k hseen hclearing => ?_
  by_cases hk : k ∈ keys
  · exact Or.inl (mem_note_keys hbound hk hseen)
  · refine Or.inr ⟨hseen, fun hc => hclearing ?_, fun hu => note_keys_subset _ _ _ hu⟩
    rcases hc with hc | hc | ⟨ks, hks, hmem⟩
    · exact Or.inl hc
    · exact Or.inr (Or.inl hc)
    · have hne : ks ≠ keys := fun heq => hk (heq ▸ hmem)
      exact Or.inr (Or.inr ⟨ks, mem_erase_idx_of_ne hkeys hks hne, hmem⟩)

theorem apply_uncleared_keeps {s t : PostgresStore κ} {j : κ}
    (ht : step s (.applyUncleared j) = some t) : KeepsCover s t := by
  simp only [step] at ht
  split_ifs at ht with hu hseen hroom
  · obtain rfl := Option.some.inj ht
    refine keeps_cover_of (s := s) rfl rfl fun k hk hclearing => Or.inr ⟨hk, hclearing, fun hmem => ?_⟩
    exact Finset.mem_erase.mpr ⟨fun heq => hk (heq ▸ hseen), hmem⟩
  · obtain rfl := Option.some.inj ht
    refine keeps_cover_of_send (s := s) rfl rfl (fun _ _ => Or.inr rfl) fun k hne hk hclearing => ?_
    exact ⟨hk, hclearing, fun hmem => Finset.mem_erase.mpr ⟨hne, hmem⟩⟩
  · obtain rfl := Option.some.inj ht
    exact fun _ h => h

/-! ## The writer -/

omit [DecidableEq κ] in
theorem run_append_after (s : PostgresStore κ) : statementRun s++afterRun s = s.pending := by
  rw [afterRun]
  apply List.prefix_iff_eq_append.mp
  rw [statementRun]
  cases s.pending with
  | nil => exact List.prefix_refl _
  | cons w rest => exact List.cons_prefix_cons.mpr ⟨rfl, List.takeWhile_prefix _⟩

omit [DecidableEq κ] in
theorem run_delete {s : PostgresStore κ} {w : SeenResourceWrite κ} (hw : w ∈ statementRun s) :
    w.delete = runDeletes s := by
  rw [statementRun] at hw
  rw [runDeletes]
  cases hp : s.pending with
  | nil =>
    rw [hp] at hw
    cases hw
  | cons v rest =>
    rw [hp] at hw
    rcases List.mem_cons.mp hw with rfl | hw
    · rfl
    · simpa using List.mem_takeWhile_imp hw

theorem mem_run_keys {s : PostgresStore κ} {k : κ} :
    k ∈ ((statementRun s).map (·.key)).toFinset ↔ ∃ w ∈ statementRun s, w.key = k := by
  simp

omit [DecidableEq κ] in
theorem backlog_eq (s : PostgresStore κ) :
    backlog s = statementRun s++(afterRun s++s.seenWrites) := by
  rw [backlog, ← run_append_after, List.append_assoc]

omit [DecidableEq κ] in
theorem mark_in_rest {s : PostgresStore κ} {k : κ} (h : MarkIn k (afterRun s++s.seenWrites)) :
    MarkIn k (backlog s) := by
  obtain ⟨w, hw, hkey, hdelete⟩ := h
  rw [backlog_eq]
  exact ⟨w, List.mem_append_right _ hw, hkey, hdelete⟩

/-- A clear that is the last write is still the last write behind the run, unless
the run is the delete of the key and nothing of the key follows it. -/
theorem clear_last_rest {s : PostgresStore κ} {k : κ} (h : ClearLast k (backlog s)) :
    ClearLast k (afterRun s++s.seenWrites) ∨
    (runDeletes s = true ∧ (∃ w ∈ statementRun s, w.key = k) ∧
      ¬ MarkIn k (afterRun s++s.seenWrites)) := by
  obtain ⟨w, hlast, hdelete⟩ := h
  rw [backlog_eq, last_append] at hlast
  cases hrest : last (·.key) k (afterRun s++s.seenWrites) with
  | some v =>
    rw [hrest] at hlast
    exact Or.inl ⟨v, hrest, by rw [Option.some.inj hlast]; exact hdelete⟩
  | none =>
    rw [hrest] at hlast
    obtain ⟨hw, hkey⟩ := last_mem hlast
    refine Or.inr ⟨by rw [← run_delete hw, hdelete], ⟨w, hw, hkey⟩, ?_⟩
    rintro ⟨x, hx, hxkey, -⟩
    exact last_eq_none.mp hrest x hx hxkey

theorem mem_apply_statement {s : PostgresStore κ} {k : κ} (h : k ∈ applyStatement s) :
    k ∈ s.table ∨ MarkIn k (backlog s) := by
  unfold applyStatement at h
  split at h
  · exact Or.inl (Finset.mem_sdiff.mp h).1
  · next hdeletes =>
    rcases Finset.mem_union.mp h with h | h
    · exact Or.inl h
    · obtain ⟨w, hw, hkey⟩ := mem_run_keys.mp h
      refine Or.inr ⟨w, ?_, hkey, by rw [run_delete hw]; simpa using hdeletes⟩
      rw [backlog_eq]
      exact List.mem_append_left _ hw

theorem statement_cover {s t : PostgresStore κ} (hinv : CoverInv s) {ok applied : Bool}
    (ht : step s (.statement ok applied) = some t) : CoverInv t := by
  simp only [step, Option.ite_none_right_eq_some, Option.some.injEq] at ht
  obtain ⟨-, rfl⟩ := ht
  have htable : ∀ k, k ∈ (if ok || applied then applyStatement s else s.table) →
      k ∈ s.table ∨ MarkIn k (backlog s) := by
    intro k hk
    split at hk
    · exact mem_apply_statement hk
    · exact Or.inl hk
  refine ⟨?_, ?_, hinv.marking⟩
  · intro k hstale hseen hclearing
    refine hinv.all k ?_ hseen hclearing
    rcases hstale with hk | hk
    · exact htable k hk
    · exact Or.inr hk
  · intro hfinished k hstale hseen hclearing
    have hstale' : k ∈ s.table ∨ MarkIn k (backlog s) := by
      rcases hstale with hk | hk
      · exact htable k hk
      · exact Or.inr (mark_in_rest hk)
    rcases hinv.all k hstale' hseen hclearing with hu | hlast
    · exact Or.inl hu
    rcases clear_last_rest hlast with hrest | ⟨hdeletes, hrun, hnomark⟩
    · exact Or.inr hrest
    -- a finished delete has succeeded, so its keys are out of the table
    have hok : ok = true := by
      simp only [hdeletes, Bool.not_true, Bool.or_false] at hfinished
      split at hfinished
      · next h => exact h
      · cases hfinished
    rcases hstale with hk | hk
    · simp only [hok, Bool.true_or, if_true, applyStatement, hdeletes] at hk
      exact absurd (mem_run_keys.mpr hrun) (Finset.mem_sdiff.mp hk).2
    · exact absurd hk hnomark

theorem note_failed_cover {s t : PostgresStore κ} (hinv : CoverInv s)
    (hbound : t.unclearedSeen.card < maxUnclearedSeen) (ht : step s .noteFailed = some t) :
    CoverInv t := by
  simp only [step, noteUncleared, Option.ite_none_right_eq_some, Option.some.injEq] at ht
  obtain ⟨-, rfl⟩ := ht
  have hmono : s.unclearedSeen ⊆ ((statementRun s).map (·.key)).foldl (noteKey s.seenResources)
      s.unclearedSeen := note_keys_subset _ _ _
  refine ⟨?_, ?_, ?_⟩
  · intro k hstale hseen hclearing
    exact (hinv.all k hstale hseen hclearing).imp_left fun hu => hmono hu
  · intro _ k hstale hseen hclearing
    have hstale' : k ∈ s.table ∨ MarkIn k (backlog s) := hstale.imp_right mark_in_rest
    rcases hinv.all k hstale' hseen hclearing with hu | hlast
    · exact Or.inl (hmono hu)
    rcases clear_last_rest hlast with hrest | ⟨-, ⟨w, hw, hkey⟩, -⟩
    · exact Or.inr hrest
    · exact Or.inl (mem_note_keys hbound (List.mem_map.mpr ⟨w, hw, hkey⟩) hseen)
  · intro k hcall
    rcases hinv.marking k hcall with h | h | h
    · exact Or.inl h
    · exact Or.inr (Or.inl (hmono h))
    · exact Or.inr (Or.inr h)

theorem writer_cover {s t : PostgresStore κ} (hinv : CoverInv s)
    (hbound : t.unclearedSeen.card < maxUnclearedSeen) :
    (step s .pull = some t → CoverInv t) ∧ (step s .tick = some t → CoverInv t) ∧
    (step s .release = some t → CoverInv t) := by
  refine ⟨?_, ?_, ?_⟩
  · intro ht
    simp only [step] at ht
    split at ht
    · next w rest hwriter hqueue =>
      obtain rfl := Option.some.inj ht
      refine ⟨?_, ?_, hinv.marking⟩
      · have hall := hinv.all
        rw [backlog, hqueue] at hall
        intro k hstale hseen hclearing
        rw [show backlog _ = s.pending++w::rest by simp [backlog]] at hstale ⊢
        exact hall k hstale hseen hclearing
      · intro hfinished
        simp only at hfinished
        split at hfinished <;> cases hfinished
    · cases ht
  · intro ht
    simp only [step, Option.ite_none_right_eq_some, Option.some.injEq] at ht
    obtain ⟨-, rfl⟩ := ht
    refine ⟨hinv.all, ?_, hinv.marking⟩
    intro h
    cases h
  · intro ht
    simp only [step, Option.ite_none_right_eq_some, Option.some.injEq] at ht
    obtain ⟨hfinished, rfl⟩ := ht
    refine ⟨hinv.unsettled hfinished, ?_, hinv.marking⟩
    intro h
    simp only at h
    split at h <;> cases h

/-! ## Marks in progress -/

/-- The key whose clear the step queues on behalf of a retry. -/
def queuedClear (s : PostgresStore κ) : Act κ → Option κ
  | .applyUncleared k =>
    if k ∈ s.unclearedSeen ∧ k ∉ s.seenResources ∧ roomInQueue s then some k else none
  | _ => none

/-- No clear of a key is queued between the two halves of its mark, and the
backlog of clears stays below its bound. -/
def Undisturbed (s : PostgresStore κ) (a : Act κ) : Prop :=
  (∀ k ∈ queuedClear s a, s.calls k ≠ .markSend) ∧
  ∀ t ∈ step s a, t.unclearedSeen.card < maxUnclearedSeen

instance (s : PostgresStore κ) (a : Act κ) : Decidable (Undisturbed s a) :=
  inferInstanceAs (Decidable (_ ∧ _))

/-- The step cannot take away what a mark in progress relies on. -/
theorem marking_of {s t : PostgresStore κ} (hinv : CoverInv s) {k : κ}
    (hcall : s.calls k = .markSend)
    (hseen : k ∈ s.seenResources → k ∈ t.seenResources ∨ k ∈ t.unclearedSeen ∨
      ∃ keys ∈ t.forgetting, k ∈ keys)
    (huncleared : k ∈ s.unclearedSeen → k ∈ t.seenResources ∨ k ∈ t.unclearedSeen)
    (hforget : (∃ keys ∈ s.forgetting, k ∈ keys) → k ∈ t.seenResources ∨ k ∈ t.unclearedSeen ∨
      ∃ keys ∈ t.forgetting, k ∈ keys) :
    k ∈ t.seenResources ∨ k ∈ t.unclearedSeen ∨ ∃ keys ∈ t.forgetting, k ∈ keys := by
  rcases hinv.marking k hcall with h | h | h
  · exact hseen h
  · exact (huncleared h).imp_right Or.inl
  · exact hforget h

theorem call_step_marking {s t : PostgresStore κ} (hinv : CoverInv s) {a : Act κ}
    (hok : Undisturbed s a) (ht : step s a = some t) {k : κ} (hcall : t.calls k = .markSend) :
    k ∈ t.seenResources ∨ k ∈ t.unclearedSeen ∨ ∃ keys ∈ t.forgetting, k ∈ keys := by
  have hbound := hok.2 t ht
  have hother : ∀ {j : κ} {c : CallState}, c ≠ .markSend →
      Function.update s.calls j c k = .markSend → s.calls k = .markSend := by
    intro j c hc h
    by_cases hk : k = j
    · rw [hk, Function.update_self] at h
      exact absurd h hc
    · rwa [Function.update_of_ne hk] at h
  cases a with
  | mark j =>
    simp only [step, Option.ite_none_right_eq_some, Option.some.injEq] at ht
    obtain ⟨-, rfl⟩ := ht
    by_cases hk : k = j
    · exact Or.inl (by simp [hk])
    · simp only [Function.update_of_ne hk] at hcall
      exact marking_of hinv hcall (fun h => Or.inl (Finset.mem_insert_of_mem h))
        (fun h => Or.inr (Finset.mem_erase.mpr ⟨hk, h⟩)) fun h => Or.inr (Or.inr h)
  | markSend j =>
    simp only [step] at ht
    split_ifs at ht
    all_goals
      obtain rfl := Option.some.inj ht
      exact hinv.marking k (hother (by decide) hcall)
  | clear j =>
    simp only [step, Option.ite_none_right_eq_some, Option.some.injEq] at ht
    obtain ⟨hidle, rfl⟩ := ht
    have hcall' := hother (by decide) hcall
    have hk : k ≠ j := by
      rintro rfl
      rw [hidle] at hcall'
      cases hcall'
    exact marking_of hinv hcall' (fun h => Or.inl (Finset.mem_erase.mpr ⟨hk, h⟩)) Or.inr
      fun h => Or.inr (Or.inr h)
  | clearSend j =>
    simp only [step, Option.ite_none_right_eq_some, Option.some.injEq] at ht
    obtain ⟨-, rfl⟩ := ht
    exact hinv.marking k (hother (by decide) hcall)
  | clearTimeout j =>
    simp only [step, Option.ite_none_right_eq_some, Option.some.injEq] at ht
    obtain ⟨-, rfl⟩ := ht
    exact hinv.marking k (hother (by decide) hcall)
  | clearNote j =>
    simp only [step, noteUncleared, Option.ite_none_right_eq_some, Option.some.injEq] at ht
    obtain ⟨-, rfl⟩ := ht
    exact marking_of hinv (hother (by decide) hcall) Or.inl
      (fun h => Or.inr (note_keys_subset _ _ _ h)) fun h => Or.inr (Or.inr h)
  | clearReturn j =>
    simp only [step, Option.ite_none_right_eq_some, Option.some.injEq] at ht
    obtain ⟨-, rfl⟩ := ht
    exact hinv.marking k (hother (by decide) hcall)
  | forget keys =>
    obtain rfl := Option.some.inj ht
    refine marking_of hinv hcall (fun h => ?_) Or.inr fun ⟨ks, hks, hmem⟩ =>
      Or.inr (Or.inr ⟨ks, List.mem_append_left _ hks, hmem⟩)
    by_cases hk : k ∈ keys
    · exact Or.inr (Or.inr ⟨keys, by simp, hk⟩)
    · exact Or.inl (by simp [h, hk])
  | forgetNote call =>
    obtain ⟨keys, hkeys, rfl⟩ := forget_note_cases ht
    refine marking_of hinv hcall Or.inl (fun h => Or.inr (note_keys_subset _ _ _ h)) ?_
    rintro ⟨ks, hks, hmem⟩
    by_cases hne : ks = keys
    · by_cases hseen : k ∈ s.seenResources
      · exact Or.inl hseen
      · exact Or.inr (Or.inl (mem_note_keys hbound (hne ▸ hmem) hseen))
    · exact Or.inr (Or.inr ⟨ks, mem_erase_idx_of_ne hkeys hks hne, hmem⟩)
  | applyUncleared j =>
    simp only [step] at ht
    split_ifs at ht with hu hseen hroom
    · obtain rfl := Option.some.inj ht
      refine marking_of hinv hcall Or.inl (fun h => ?_) fun h => Or.inr (Or.inr h)
      by_cases hk : k = j
      · exact Or.inl (hk ▸ hseen)
      · exact Or.inr (Finset.mem_erase.mpr ⟨hk, h⟩)
    · obtain rfl := Option.some.inj ht
      have hk : k ≠ j := by
        rintro rfl
        exact hok.1 k (if_pos ⟨hu, hseen, hroom⟩) hcall
      exact marking_of hinv hcall Or.inl (fun h => Or.inr (Finset.mem_erase.mpr ⟨hk, h⟩))
        fun h => Or.inr (Or.inr h)
    · obtain rfl := Option.some.inj ht
      exact hinv.marking k hcall
  | pull => exact ((writer_cover hinv hbound).1 ht).marking k hcall
  | tick => exact ((writer_cover hinv hbound).2.1 ht).marking k hcall
  | statement ok applied => exact (statement_cover hinv ht).marking k hcall
  | noteFailed => exact (note_failed_cover hinv hbound ht).marking k hcall
  | release => exact ((writer_cover hinv hbound).2.2 ht).marking k hcall

end Radar.Seen
