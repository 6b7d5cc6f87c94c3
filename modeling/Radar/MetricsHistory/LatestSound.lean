import Mathlib.Algebra.BigOperators.Ring.Finset
import Mathlib.Tactic.Ring
import Radar.MetricsHistory.Mirrors
import Radar.MetricsHistory.Quantities

/-!
# The latest usage of a pod is the usage of one sample

In a run whose texts are all of the kinds that the parsers read, and in which
no container leaves a pod that is tracked, the usage told of a pod is that of
the last list that reported it.
-/

set_option autoImplicit false

namespace Radar.MetricsHistory

section Fine

/-- The parsers read every text of the sample, and its sums are no more than an integer holds. -/
structure PodSample.Plain (s : PodSample) : Prop where
  cpu : ∀ c ∈ s.containers, c.cpu.quantity.suffix.inCPU = true
  memory : ∀ c ∈ s.containers, c.memory.quantity.suffix.inMemory = true
  cpu_fits : (s.containers.map (·.cpu.count)).sum < 2^63
  memory_fits : (s.containers.map (·.memory.count)).sum < 2^63

/-- Every container of an earlier report is in the sample. -/
def Covers (s : PodSample) (report : Report) : Prop :=
  ∀ c ∈ report.2.containers, c.name ∈ s.containers.map (·.name)

/-- No container has left a pod that is tracked since it was last reported. -/
def Fine (before : List Call) (c : Call) : Prop :=
  ∀ r, c.success = some r → ∀ s ∈ r.2.pods,
    s.Plain ∧ ∀ report ∈ (known before s.pod).head?, Covers s report

/-- Every call of the rest is so after those before it. -/
def AllFine : List Call → List Call → Prop
  | _, [] => True
  | before, c::rest => Fine before c ∧ AllFine (before++[c]) rest

/-- The newest report has the containers of all of them. -/
structure Settled (known : List Report) : Prop where
  plain : ∀ report ∈ known, report.2.Plain
  covers : ∀ report ∈ known.head?, ∀ r ∈ known, Covers report.2 r

variable {calls : List Call} {p : PodName}

theorem allFine_concat {before : List Call} {c : Call} :
    AllFine before (calls++[c]) ↔ AllFine before calls ∧ Fine (before++calls) c := by
  induction calls generalizing before with
  | nil => simp [AllFine]
  | cons c' calls ih =>
    rw [List.cons_append, AllFine, AllFine, ih, and_assoc, List.append_assoc]
    rfl

theorem covers_self (s : PodSample) (t : ℤ) : Covers s (t,s) := fun _ hc => List.mem_map_of_mem hc

theorem covers_trans {s : PodSample} {r r' : Report} (h : Covers s r) (h' : Covers r.2 r') :
    Covers s r' := by
  intro c hc
  obtain ⟨c',hc',hname⟩ := List.mem_map.mp (h' c hc)
  exact hname ▸ h c' hc'

theorem settled_listed {known : List Report} (h : Settled known) {r : ℤ × PodList}
    (hfine : ∀ s, r.2.find p = some s → s.Plain ∧ ∀ report ∈ known.head?, Covers s report) :
    Settled (track p known r) := by
  cases hfind : r.2.find p with
  | some s =>
    obtain ⟨hplain,hcovers⟩ := hfine s hfind
    have hreport : reportOf p r = some (r.1,s) := by rw [reportOf, hfind]; rfl
    rw [track_reported hreport]
    constructor
    · intro report hreport
      rcases List.mem_cons.mp hreport with rfl | hin
      · exact hplain
      · exact h.plain report hin
    · intro report hreport r' hr'
      obtain rfl := Option.some.inj hreport
      rcases List.mem_cons.mp hr' with rfl | hin
      · exact covers_self s r.1
      · cases known with
        | nil => cases hin
        | cons newest earlier => exact covers_trans (hcovers newest rfl) (h.covers newest rfl r' hin)
  | none =>
    have hreport : reportOf p r = none := by rw [reportOf, hfind]; rfl
    have hnil : Settled [] := ⟨by simp,by simp⟩
    cases known with
    | nil => rwa [track_unknown hreport]
    | cons newest earlier =>
      rw [track_unreported hreport]
      split_ifs
      · exact hnil
      · exact h

theorem known_settled (h : AllFine [] calls) (p : PodName) : Settled (known calls p) := by
  induction calls using List.reverseRecOn with
  | nil => exact ⟨fun _ hin => (nomatch hin),fun _ hin => (nomatch hin)⟩
  | append_singleton calls c ih =>
    obtain ⟨hbefore,hfine⟩ := allFine_concat.mp h
    rw [List.nil_append] at hfine
    cases hsuccess : c.success with
    | none =>
      rw [known, successes_failed hsuccess]
      exact ih hbefore
    | some r =>
      rw [known_listed hsuccess]
      apply settled_listed (ih hbefore)
      intro s hfind
      have hpod := find_pod hfind
      rw [← hpod]
      exact hfine r hsuccess s (List.mem_of_find?_eq_some hfind)

end Fine

section Values

/-- The exact usage of a container at a time. -/
def sampleOf (t : ℤ) (c : ContainerSample) : MetricsDataPoint := ⟨t,c.cpu.count,c.memory.count⟩

/-- The samples of a container in reports that are given newest first, oldest first. -/
def samplesOf (name : String) : List Report → List MetricsDataPoint
  | [] => []
  | report::earlier =>
    match report.2.find name with
    | none => samplesOf name earlier
    | some c => samplesOf name earlier++[sampleOf report.1 c]

theorem pointOf_exact {s : PodSample} (h : s.Plain) (t : ℤ) {c : ContainerSample}
    (hc : c ∈ s.containers) : pointOf t c = sampleOf t c := by
  rw [pointOf, sampleOf, parseCPU_exact c.cpu (h.cpu c hc), parseMemory_exact c.memory (h.memory c hc)]

theorem find_mem {s : PodSample} {name : String} {c : ContainerSample} (h : s.find name = some c) :
    c ∈ s.containers := List.mem_of_find?_eq_some h

theorem pointsOf_exact {known : List Report} (h : ∀ report ∈ known, report.2.Plain)
    (name : String) : pointsOf name known = samplesOf name known := by
  induction known with
  | nil => rfl
  | cons report earlier ih =>
    have hrest := ih fun r hr => h r (List.mem_cons_of_mem report hr)
    rw [pointsOf, samplesOf, hrest]
    cases hfind : report.2.find name with
    | none => rfl
    | some c =>
      show _ ++ [pointOf report.1 c] = _ ++ [sampleOf report.1 c]
      rw [pointOf_exact (h report List.mem_cons_self) report.1 (find_mem hfind)]

theorem find_iff {s : PodSample} {name : String} :
    s.find name = none ↔ name ∉ s.containers.map (·.name) := Keyed.find?_key_eq_none

/-- A container that the newest report has not has no sample. -/
theorem samplesOf_none {known : List Report} {name : String}
    (h : ∀ r ∈ known, name ∉ r.2.containers.map (·.name)) : samplesOf name known = [] := by
  induction known with
  | nil => rfl
  | cons report earlier ih =>
    rw [samplesOf, find_iff.mpr (h report List.mem_cons_self)]
    exact ih fun r hr => h r (List.mem_cons_of_mem report hr)

end Values

section Totals

theorem int64_natCast {n : ℕ} (h : n < 2^63) : int64 n = n :=
  Int.bmod_eq_of_le (by omega) (by omega)

theorem int64_add (a b : ℤ) : int64 (int64 a+b) = int64 (a+b) := Int.bmod_add_bmod

def lastOf (buf : RingBuffer) : Option MetricsDataPoint := buf.GetAll.getLast?

/-- The newest points of the rings that have one are added up. -/
theorem addLast_foldl (bufs : List RingBuffer) (a b : ℤ) :
    bufs.foldl addLast (int64 a,int64 b) = (int64 (a+((bufs.filterMap lastOf).map (·.cpu)).sum),
      int64 (b+((bufs.filterMap lastOf).map (·.memory)).sum)) := by
  induction bufs generalizing a b with
  | nil => simp
  | cons buf bufs ih =>
    rw [List.foldl_cons, List.filterMap_cons, addLast]
    cases hlast : lastOf buf with
    | none =>
      have hnone : buf.GetAll.getLast? = none := hlast
      simp only [hnone]
      exact ih a b
    | some last =>
      have hsome : buf.GetAll.getLast? = some last := hlast
      simp only [hsome]
      rw [int64_add, int64_add, ih, List.map_cons, List.map_cons, List.sum_cons, List.sum_cons,
        Int.add_assoc, Int.add_assoc]

end Totals

section Latest

variable {p : PodName} {report : Report} {earlier : List Report} {buf : PodMetricsBuffer}

theorem ringOf_getAll {points : List MetricsDataPoint} {rb : RingBuffer}
    (h : ringOf points = some rb) : points ≠ [] ∧ rb.GetAll = points.rtake MetricsHistorySize := by
  unfold ringOf at h
  split_ifs at h with hnil
  obtain rfl := Option.some.inj h
  have hadds := holds_adds (holds_new MetricsHistorySize) points
  rw [List.nil_append] at hadds
  exact ⟨hnil,getAll_holds hadds⟩

theorem getLast?_rtake {points : List MetricsDataPoint} {n : ℕ} (hn : 0 < n) :
    (points.rtake n).getLast? = points.getLast? := by
  rw [List.rtake, List.getLast?_drop]
  by_cases hnil : points = []
  · rw [hnil]
    rfl
  · have hpos := List.length_pos_iff.mpr hnil
    rw [if_neg (by omega)]

/-- A container of the newest report has its newest point in its ring, and no other container has
a ring. -/
theorem rings_settled (h : Mirrors p report earlier buf) (hsettled : Settled (report::earlier))
    (name : String) :
    match report.2.find name with
    | none => buf.containers.lookup name = none
    | some c => ∃ rb, buf.containers.lookup name = some rb ∧
        rb.GetAll.getLast? = some (sampleOf report.1 c) := by
  have hring := h.rings name
  rw [pointsOf_exact hsettled.plain] at hring
  cases hfind : report.2.find name with
  | none =>
    have hfree : samplesOf name (report::earlier) = [] := by
      apply samplesOf_none
      intro r hr hin
      obtain ⟨c,hc,hname⟩ := List.mem_map.mp hin
      exact find_iff.mp hfind (hname ▸ hsettled.covers report rfl r hr c hc)
    rw [hfree] at hring
    exact hring
  | some c =>
    have hsamples : samplesOf name (report::earlier) =
        samplesOf name earlier++[sampleOf report.1 c] := by
      rw [samplesOf, hfind]
    have hsome : ∃ rb, ringOf (samplesOf name (report::earlier)) = some rb := by
      rw [ringOf, if_neg (by rw [hsamples]; simp)]
      exact ⟨_,rfl⟩
    obtain ⟨rb,hrb⟩ := hsome
    obtain ⟨-,hall⟩ := ringOf_getAll hrb
    refine ⟨rb,hring.trans hrb,?_⟩
    rw [hall, getLast?_rtake (by decide), hsamples, List.getLast?_concat]

/-- The rings are those of the containers of the newest report. -/
theorem rings_perm (h : Mirrors p report earlier buf) (hsettled : Settled (report::earlier)) :
    (buf.containers.entries.map Sigma.fst).Perm (report.2.containers.map (·.name)) := by
  apply (List.perm_ext_iff_of_nodup (MapLoop.keys_nodup _) report.2.distinct).mpr
  intro name
  have hsome := rings_settled h hsettled name
  have hkeys : name ∈ buf.containers.entries.map Sigma.fst ↔
      (buf.containers.lookup name).isSome := AList.lookup_isSome.symm
  rw [hkeys]
  cases hfind : report.2.find name with
  | none =>
    rw [hfind] at hsome
    rw [hsome]
    exact ⟨fun hin => (nomatch hin),fun hin => absurd hin (find_iff.mp hfind)⟩
  | some c =>
    rw [hfind] at hsome
    obtain ⟨rb,hrb,-⟩ := hsome
    rw [hrb]
    have hname : c.name = name := by simpa using List.find?_some hfind
    exact ⟨fun _ => hname ▸ List.mem_map_of_mem (find_mem hfind),fun _ => rfl⟩

theorem find_of_mem {s : PodSample} {c : ContainerSample} (h : c ∈ s.containers) :
    s.find c.name = some c := (Keyed.find?_key_eq_some s.distinct).mpr ⟨h,rfl⟩

/-- The newest points of the rings, up to their order. -/
theorem lasts_perm (h : Mirrors p report earlier buf) (hsettled : Settled (report::earlier)) :
    ((buf.containers.entries.map Sigma.snd).map fun rb => rb.GetAll.getLast?).Perm
      ((report.2.containers.map (sampleOf report.1)).map some) := by
  have hrings : (buf.containers.entries.map Sigma.snd).map (fun rb => rb.GetAll.getLast?) =
      (buf.containers.entries.map Sigma.fst).map
        fun name => (report.2.find name).map (sampleOf report.1) := by
    rw [List.map_map, List.map_map]
    apply List.map_congr_left
    intro e he
    have hlookup : buf.containers.lookup e.1 = some e.2 := AList.mem_lookup_iff.mpr he
    have hsome := rings_settled h hsettled e.1
    show e.2.GetAll.getLast? = (report.2.find e.1).map (sampleOf report.1)
    cases hfind : report.2.find e.1 with
    | none =>
      rw [hfind, hlookup] at hsome
      nomatch hsome
    | some c =>
      rw [hfind, hlookup] at hsome
      obtain ⟨rb,hrb,hlast⟩ := hsome
      rw [Option.some.inj hrb, hlast]
      rfl
  have hsamples : (report.2.containers.map (sampleOf report.1)).map some =
      (report.2.containers.map (·.name)).map
        fun name => (report.2.find name).map (sampleOf report.1) := by
    rw [List.map_map, List.map_map]
    apply List.map_congr_left
    intro c hc
    show some (sampleOf report.1 c) = (report.2.find c.name).map (sampleOf report.1)
    rw [find_of_mem hc]
    rfl
  rw [hrings, hsamples]
  exact (rings_perm h hsettled).map _

/-- The usage of a sample. -/
def PodSample.top (s : PodSample) : TopPodMetrics :=
  ⟨s.pod.ns.text,s.pod.name.text,((s.containers.map (·.cpu.count)).sum : ℕ),
    ((s.containers.map (·.memory.count)).sum : ℕ)⟩

theorem topOf_settled (h : Mirrors p report earlier buf) (hsettled : Settled (report::earlier))
    (hpod : report.2.pod = p) : topOf buf = report.2.top := by
  have hplain := hsettled.plain report List.mem_cons_self
  have hperm := (lasts_perm h hsettled).filterMap id
  have hpoints : (buf.containers.entries.map Sigma.snd).filterMap lastOf =
      ((buf.containers.entries.map Sigma.snd).map fun rb => rb.GetAll.getLast?).filterMap id := by
    have hlast : lastOf = id ∘ fun rb : RingBuffer => rb.GetAll.getLast? := rfl
    rw [hlast, ← List.filterMap_map]
  have hsamples : ((report.2.containers.map (sampleOf report.1)).map some).filterMap id =
      report.2.containers.map (sampleOf report.1) := by
    rw [List.filterMap_map]
    exact List.filterMap_some
  rw [← hpoints, hsamples] at hperm
  have hcpu : (((buf.containers.entries.map Sigma.snd).filterMap lastOf).map (·.cpu)).sum =
      ((report.2.containers.map (·.cpu.count)).sum : ℕ) := by
    rw [(hperm.map _).sum_eq, List.map_map, Nat.cast_list_sum, List.map_map]
    rfl
  have hmemory : (((buf.containers.entries.map Sigma.snd).filterMap lastOf).map (·.memory)).sum =
      ((report.2.containers.map (·.memory.count)).sum : ℕ) := by
    rw [(hperm.map _).sum_eq, List.map_map, Nat.cast_list_sum, List.map_map]
    rfl
  have htotals := addLast_foldl (buf.containers.entries.map Sigma.snd) 0 0
  rw [hcpu, hmemory, Int.zero_add, Int.zero_add, int64_natCast hplain.cpu_fits,
    int64_natCast hplain.memory_fits] at htotals
  have hzero : int64 0 = 0 := rfl
  rw [hzero] at htotals
  rw [topOf, htotals, h.ns_eq, h.name_eq, ← hpod]
  rfl

/-- The usage of a container of a sample. -/
def ContainerSample.latest (c : ContainerSample) : ContainerResourceMetrics :=
  ⟨c.name,c.cpu.count,c.memory.count⟩

theorem latestOf_settled (h : Mirrors p report earlier buf) (hsettled : Settled (report::earlier))
    (name : String) :
    (latestOf buf).lookup name = (report.2.find name).map ContainerSample.latest := by
  have hsome := rings_settled h hsettled name
  rw [latestOf, MapLoop.lookup_foldl]
  · cases hfind : report.2.find name with
    | none =>
      rw [hfind] at hsome
      rw [hsome]
      rfl
    | some c =>
      rw [hfind] at hsome
      obtain ⟨rb,hrb,hlast⟩ := hsome
      have hname : c.name = name := by simpa using List.find?_some hfind
      rw [hrb]
      simp only [hlast]
      rw [AList.lookup_insert, ← hname]
      rfl
  · intro latest key rb key' hne
    cases rb.GetAll.getLast? with
    | none => rfl
    | some last => exact AList.lookup_insert_ne hne
  · intro latest latest' key rb heq
    cases rb.GetAll.getLast? with
    | none => exact heq
    | some last => rw [AList.lookup_insert, AList.lookup_insert]

theorem lookup_latest (s : MetricsHistoryStore) (key : String) :
    (GetAllPodContainerMetricsLatest s).lookup key = (s.podMetrics.lookup key).map latestOf := by
  rw [GetAllPodContainerMetricsLatest, MapLoop.lookup_foldl]
  · cases s.podMetrics.lookup key with
    | none => rfl
    | some buf => exact AList.lookup_insert _
  · exact fun _ _ _ _ hne => AList.lookup_insert_ne hne
  · intro result result' key buf _
    rw [AList.lookup_insert, AList.lookup_insert]

end Latest

section Run

/-- A buffer stands under the key of its pod. -/
def Keyed (m : AList fun _ : String => PodMetricsBuffer) : Prop :=
  ∀ key buf, m.lookup key = some buf → key = keyOf buf.ns buf.name

theorem keyed_item {m : AList fun _ : String => PodMetricsBuffer} (h : Keyed m) (now : ℤ)
    (item : Item) : Keyed (addItem now m item) := by
  intro key buf hbuf
  rw [addItem] at hbuf
  by_cases hkey : key = keyOf item.ns item.name
  · subst hkey
    rw [AList.lookup_insert] at hbuf
    obtain rfl := Option.some.inj hbuf
    cases hold : m.lookup (keyOf item.ns item.name) with
    | none => rfl
    | some old => exact h _ old hold
  · rw [AList.lookup_insert_ne hkey] at hbuf
    exact h key buf hbuf

theorem collected_keyed (calls : List Call) : Keyed (collected calls).podMetrics := by
  induction calls using List.reverseRecOn with
  | nil => exact fun _ _ h => nomatch h
  | append_singleton calls c ih =>
    cases hsuccess : c.success with
    | none =>
      rw [collected_failed hsuccess]
      exact ih
    | some r =>
      have hitems : ∀ (items : List Item) (m : AList fun _ : String => PodMetricsBuffer), Keyed m →
          Keyed (items.foldl (addItem r.1) m) := by
        intro items
        induction items with
        | nil => exact fun _ h => h
        | cons item items ih => exact fun m h => ih _ (keyed_item h r.1 item)
      rw [collected_listed hsuccess]
      intro key buf hbuf
      rw [lookup_dropStale] at hbuf
      exact hitems _ _ ih key buf (Option.filter_eq_some_iff.mp hbuf).1

/-- The readers tell of a pod the usage of a report, and of its containers the last samples of the
reports known. -/
structure OneSample (s : MetricsHistoryStore) (p : PodName) (report : Report)
    (known : List Report) : Prop where
  top : (GetAllPodMetricsLatest s).filter (fun top => top.ns = p.ns.text ∧ top.name = p.name.text) =
    [report.2.top]
  latest : ∃ latest, (GetAllPodContainerMetricsLatest s).lookup p.key = some latest ∧
    ∀ name, latest.lookup name = (report.2.find name).map ContainerSample.latest
  history : ∃ h, GetPodMetricsHistory s p.ns.text p.name.text = some h ∧
    (h.containers.map (·.name)).Nodup ∧
    ∀ name points, ⟨name,points⟩ ∈ h.containers ↔
      samplesOf name known ≠ [] ∧ points = (samplesOf name known).rtake MetricsHistorySize

/-- The readers tell nothing of a pod. -/
structure Untracked (s : MetricsHistoryStore) (p : PodName) : Prop where
  top : (GetAllPodMetricsLatest s).filter (fun top => top.ns = p.ns.text ∧ top.name = p.name.text) = []
  latest : (GetAllPodContainerMetricsLatest s).lookup p.key = none
  history : GetPodMetricsHistory s p.ns.text p.name.text = none

variable {calls : List Call} {p : PodName} {s : MetricsHistoryStore}

/-- The buffer of a pod is found by its names as by its key. -/
theorem filter_top (hkeyed : Keyed s.podMetrics)
    (hnames : ∀ buf, bufferOf s.podMetrics p = some buf → buf.ns = p.ns.text ∧ buf.name = p.name.text) :
    (GetAllPodMetricsLatest s).filter (fun top => top.ns = p.ns.text ∧ top.name = p.name.text) =
      (s.podMetrics.entries.filter fun e => decide (e.1 = p.key)).map fun e => topOf e.2 := by
  rw [GetAllPodMetricsLatest, List.filter_map]
  congr 1
  apply List.filter_congr
  intro e he
  have hlookup : s.podMetrics.lookup e.1 = some e.2 := AList.mem_lookup_iff.mpr he
  rw [Function.comp, decide_eq_decide]
  constructor
  · rintro ⟨hns,hname⟩
    have hkey := hkeyed e.1 e.2 hlookup
    rw [hkey]
    show keyOf (topOf e.2).ns (topOf e.2).name = keyOf _ _
    rw [hns, hname]
  · intro hkey
    rw [hkey] at hlookup
    exact hnames e.2 hlookup

theorem history_settled {report : Report} {earlier : List Report} {buf : PodMetricsBuffer}
    (h : Mirrors p report earlier buf) (hsettled : Settled (report::earlier)) (name : String)
    (points : List MetricsDataPoint) :
    (⟨name,points⟩ : ContainerMetricsHistory) ∈
        buf.containers.entries.map (fun e => ⟨e.1,e.2.GetAll⟩) ↔
      samplesOf name (report::earlier) ≠ [] ∧
        points = (samplesOf name (report::earlier)).rtake MetricsHistorySize := by
  have hring := h.rings name
  rw [pointsOf_exact hsettled.plain] at hring
  rw [List.mem_map]
  constructor
  · rintro ⟨e,he,heq⟩
    obtain ⟨rfl,rfl⟩ := ContainerMetricsHistory.mk.inj heq
    have hlookup : buf.containers.lookup e.1 = some e.2 := AList.mem_lookup_iff.mpr he
    exact ringOf_getAll (hring.symm.trans hlookup)
  · rintro ⟨hne,rfl⟩
    obtain ⟨rb,hrb⟩ : ∃ rb, ringOf (samplesOf name (report::earlier)) = some rb := by
      rw [ringOf, if_neg hne]
      exact ⟨_,rfl⟩
    refine ⟨⟨name,rb⟩,AList.mem_lookup_iff.mp (hring.trans hrb),?_⟩
    rw [← (ringOf_getAll hrb).2]

theorem one_sample {report : Report} {earlier : List Report} (hkeyed : Keyed s.podMetrics)
    (hkept : Kept s.podMetrics p (report::earlier)) (hsettled : Settled (report::earlier))
    (hpod : report.2.pod = p) : OneSample s p report (report::earlier) := by
  obtain ⟨buf,hbuf,hmirrors⟩ := hkept
  have hlookup : s.podMetrics.lookup p.key = some buf := hbuf
  constructor
  · rw [filter_top hkeyed, MapLoop.filter_key hlookup, List.map_singleton,
      topOf_settled hmirrors hsettled hpod]
    intro buf' hbuf'
    obtain rfl := Option.some.inj (hbuf.symm.trans hbuf')
    exact ⟨hmirrors.ns_eq,hmirrors.name_eq⟩
  · refine ⟨latestOf buf,?_,latestOf_settled hmirrors hsettled⟩
    rw [lookup_latest, hlookup]
    rfl
  · refine ⟨⟨p.ns.text,p.name.text,buf.containers.entries.map fun e => ⟨e.1,e.2.GetAll⟩⟩,?_,?_,
      history_settled hmirrors hsettled⟩
    · show (s.podMetrics.lookup p.key).map _ = _
      rw [hlookup]
      rfl
    · rw [List.map_map]
      exact MapLoop.keys_nodup buf.containers

theorem untracked (hkeyed : Keyed s.podMetrics) (hkept : Kept s.podMetrics p []) :
    Untracked s p := by
  have hlookup : s.podMetrics.lookup p.key = none := hkept
  constructor
  · rw [filter_top hkeyed fun buf hbuf => (nomatch hbuf.symm.trans hlookup), List.map_eq_nil_iff,
      List.filter_eq_nil_iff]
    intro e he hkey
    have hsome : s.podMetrics.lookup e.1 = some e.2 := AList.mem_lookup_iff.mpr he
    rw [of_decide_eq_true hkey, hlookup] at hsome
    nomatch hsome
  · rw [lookup_latest, hlookup]
    rfl
  · show (s.podMetrics.lookup p.key).map _ = _
    rw [hlookup]
    rfl

theorem report_pod {report : Report} (h : lastReport calls p = some report) :
    report.2.pod = p := by
  obtain ⟨r,-,hr⟩ := List.mem_filterMap.mp (List.mem_of_getLast? h)
  obtain ⟨s,hs,rfl⟩ := Option.map_eq_some_iff.mp hr
  exact find_pod hs

/-- What is told of a pod is its last report, if it is not older than five minutes at the last list
that succeeded, and nothing otherwise. -/
theorem usage_of_one_sample (hordered : (calls.map Call.now).Pairwise (· ≤ ·))
    (hfine : AllFine [] calls) (p : PodName) :
    (∀ report, lastReport calls p = some report → Recent calls report.1 →
      OneSample (collected calls) p report (known calls p)) ∧
    ((∀ report, lastReport calls p = some report → ¬Recent calls report.1) →
      Untracked (collected calls) p) := by
  have hkeyed := collected_keyed calls
  have hkept := collected_kept calls p
  have hsettled := known_settled hfine p
  rcases known_last hordered p with ⟨hknown,hold⟩ | ⟨report,earlier,hknown,hlast,hrecent⟩
  · rw [hknown] at hkept
    exact ⟨fun report hlast hrecent => absurd hrecent (hold report hlast),
      fun _ => untracked hkeyed hkept⟩
  · rw [hknown] at hkept hsettled ⊢
    constructor
    · intro report' hlast' _
      obtain rfl := Option.some.inj (hlast.symm.trans hlast')
      exact one_sample hkeyed hkept hsettled (report_pod hlast)
    · exact fun hold => absurd hrecent (hold report hlast)

def web : PodName := ⟨⟨"shop",by decide⟩,⟨"web",by decide⟩⟩

/-- A container with so many nanocores and a kibibyte. -/
def containerSample (name : String) (named : name ≠ "") (n : ℕ) (h : ¬1000 ∣ n) (hsmall : n < 2^53) :
    ContainerSample where
  name := name
  named := named
  cpu := ⟨⟨n,.n,h⟩,n,by rw [Quantity.value, Suffix.multiplier, nanocores]; ring,hsmall⟩
  memory := ⟨⟨1,.Ki,of_decide_eq_true (p := ¬1024 ∣ 1) rfl⟩,1024,
    by rw [Quantity.value, Suffix.multiplier, bytes]; norm_num,by decide⟩

def appSample : ContainerSample := containerSample "app" (by decide) 100 (by decide) (by decide)

def sidecarSample : ContainerSample := containerSample "sidecar" (by decide) 50 (by decide) (by decide)

/-- The pod has a sidecar in the first list and none in the second. -/
def both : PodSample := ⟨web,[appSample,sidecarSample],by decide⟩

def alone : PodSample := ⟨web,[appSample],by decide⟩

def listing (t : ℤ) (s : PodSample) : Call := ⟨t,.listed ⟨[s],List.nodup_singleton s.pod⟩⟩

theorem both_plain : both.Plain where
  cpu := by
    intro c hc
    rcases List.mem_pair.mp hc with rfl | rfl <;> rfl
  memory := by
    intro c hc
    rcases List.mem_pair.mp hc with rfl | rfl <;> rfl
  cpu_fits := by decide
  memory_fits := by decide

theorem fine_both (t : ℤ) {before : List Call}
    (h : ∀ report ∈ (known before web).head?, Covers both report) :
    Fine before (listing t both) := by
  intro r hr s hs
  obtain rfl := Option.some.inj hr
  obtain rfl := List.mem_singleton.mp hs
  exact ⟨both_plain,h⟩

theorem usage_of_one_sample_web :
    OneSample (collected [listing 0 both,listing 30 both]) web (30,both)
      (known [listing 0 both,listing 30 both] web) := by
  have hknown : known [listing 0 both] web = [(0,both)] := rfl
  have hfine : AllFine [] [listing 0 both,listing 30 both] := by
    refine ⟨fine_both 0 fun _ h => (nomatch h),fine_both 30 ?_,trivial⟩
    intro report hreport
    rw [List.nil_append, hknown] at hreport
    obtain rfl := Option.some.inj hreport
    exact covers_self both 0
  have hrecent : Recent [listing 0 both,listing 30 both] 30 := by
    intro T hT
    have hlast : (30 : ℤ) = T := Option.some.inj hT
    rw [← hlast]
    decide
  exact (usage_of_one_sample (by decide) hfine web).1 (30,both) rfl hrecent

/-- The sidecar is gone, and its last usage is still told with that of the pod. -/
theorem usage_of_two_samples : ¬∀ (calls : List Call), (calls.map Call.now).Pairwise (· ≤ ·) →
    ∀ p report, lastReport calls p = some report → Recent calls report.1 →
      OneSample (collected calls) p report (known calls p) := by
  intro h
  have hrecent : Recent [listing 0 both,listing 30 alone] 30 := by
    intro T hT
    have hlast : (30 : ℤ) = T := Option.some.inj hT
    rw [← hlast]
    decide
  have htop := (h [listing 0 both,listing 30 alone] (by decide) web (30,alone) rfl hrecent).top
  have hcomputed : (GetAllPodMetricsLatest (collected [listing 0 both,listing 30 alone])).filter
      (fun top => top.ns = web.ns.text ∧ top.name = web.name.text) =
        [⟨"shop","web",150,2048⟩] := by decide +kernel
  rw [hcomputed] at htop
  exact absurd htop (by decide)

end Run

end Radar.MetricsHistory
