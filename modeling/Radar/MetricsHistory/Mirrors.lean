import Mathlib.Data.List.Induction
import Radar.Base.Join
import Radar.MetricsHistory.Collect

/-!
# The store holds what is known

What is known of a pod by now are its reports since it is tracked. The newest
one is the last report of the run, unless that is older than five minutes at
the last list that succeeded, when nothing is known. A ring holds the last
samples that were added to it. The store holds a buffer for each pod of which
something is known, with a ring for each container in the reports known of it.
-/

set_option autoImplicit false

namespace Radar.MetricsHistory

section Samples

/-- A name of the API, which has no slash. -/
structure ObjectName where
  text : String
  plain : '/' ∉ text.toList
  deriving DecidableEq

structure PodName where
  ns : ObjectName
  name : ObjectName
  deriving DecidableEq

def PodName.key (p : PodName) : String := keyOf p.ns.text p.name.text

structure ContainerSample where
  name : String
  named : name ≠ ""
  cpu : Amount nanocores
  memory : Amount bytes

/-- A pod in a list of pod metrics, with its containers. -/
structure PodSample where
  pod : PodName
  containers : List ContainerSample
  distinct : (containers.map (·.name)).Nodup

structure PodList where
  pods : List PodSample
  distinct : (pods.map (·.pod)).Nodup

/-- As the list has it. -/
def ContainerSample.container (c : ContainerSample) : Container :=
  ⟨c.name,some ⟨c.cpu.quantity.text,c.memory.quantity.text⟩⟩

def PodSample.item (s : PodSample) : Item :=
  ⟨s.pod.ns.text,s.pod.name.text,some (s.containers.map fun c => some c.container)⟩

def PodList.items (l : PodList) : List Item := l.pods.map PodSample.item

def PodList.find (l : PodList) (p : PodName) : Option PodSample :=
  l.pods.find? fun s => decide (s.pod = p)

def PodSample.find (s : PodSample) (name : String) : Option ContainerSample :=
  s.containers.find? fun c => decide (c.name = name)

structure Call where
  now : ℤ
  answer : Listing PodList

def collected (calls : List Call) : MetricsHistoryStore :=
  calls.foldl (fun s c => collectPodMetrics s c.now (c.answer.map PodList.items))
    newMetricsHistoryStore

end Samples

section Known

def Call.success (c : Call) : Option (ℤ × PodList) :=
  match c.answer with
  | .listed l => some (c.now,l)
  | _ => none

/-- The lists that succeeded, with their times. -/
def successes (calls : List Call) : List (ℤ × PodList) := calls.filterMap Call.success

/-- A report of a pod. -/
abbrev Report : Type := ℤ × PodSample

def reportOf (p : PodName) (r : ℤ × PodList) : Option Report := (r.2.find p).map fun s => (r.1,s)

def lastReport (calls : List Call) (p : PodName) : Option Report :=
  ((successes calls).filterMap (reportOf p)).getLast?

def lastSuccess (calls : List Call) : Option ℤ := (successes calls).getLast?.map Prod.fst

/-- One list more. -/
def track (p : PodName) (known : List Report) (r : ℤ × PodList) : List Report :=
  match reportOf p r with
  | some report => report::known
  | none =>
    match known with
    | [] => []
    | report::earlier => if report.1 < r.1-staleAfter then [] else report::earlier

/-- The reports of a pod since it is tracked, newest first. -/
def known (calls : List Call) (p : PodName) : List Report := (successes calls).foldl (track p) []

/-- Reported by a list that succeeded at most five minutes before the last one. -/
def Recent (calls : List Call) (t : ℤ) : Prop := ∀ T, lastSuccess calls = some T → T-staleAfter ≤ t

variable {calls : List Call} {c : Call} {p : PodName}

theorem successes_failed (h : c.success = none) : successes (calls++[c]) = successes calls := by
  simp [successes, h]

theorem successes_listed {r : ℤ × PodList} (h : c.success = some r) :
    successes (calls++[c]) = successes calls++[r] := by
  simp [successes, h]

theorem known_listed {r : ℤ × PodList} (h : c.success = some r) :
    known (calls++[c]) p = track p (known calls p) r := by
  rw [known, successes_listed h, List.foldl_append]
  rfl

theorem track_reported {r : ℤ × PodList} {report : Report} (h : reportOf p r = some report)
    (earlier : List Report) : track p earlier r = report::earlier := by
  simp only [track, h]

theorem track_unreported {r : ℤ × PodList} (h : reportOf p r = none) (report : Report)
    (earlier : List Report) : track p (report::earlier) r =
      if report.1 < r.1-staleAfter then [] else report::earlier := by
  simp only [track, h]

theorem track_unknown {r : ℤ × PodList} (h : reportOf p r = none) : track p [] r = [] := by
  simp only [track, h]

theorem lastReport_listed {r : ℤ × PodList} (h : c.success = some r) :
    lastReport (calls++[c]) p = (reportOf p r).or (lastReport calls p) := by
  rw [lastReport, successes_listed h, List.filterMap_append, List.getLast?_append]
  cases hreport : reportOf p r with
  | none => simp [hreport, lastReport]
  | some report => simp [hreport]

theorem success_now {r : ℤ × PodList} (h : c.success = some r) : r.1 = c.now := by
  unfold Call.success at h
  split at h
  · rw [← Option.some.inj h]
  · nomatch h

theorem recent_listed {r : ℤ × PodList} (h : c.success = some r) (t : ℤ) :
    Recent (calls++[c]) t ↔ r.1-staleAfter ≤ t := by
  have hlast : lastSuccess (calls++[c]) = some r.1 := by
    simp [lastSuccess, successes_listed h]
  rw [Recent, hlast]
  exact ⟨fun hrecent => hrecent r.1 rfl,fun hle T hT => Option.some.inj hT ▸ hle⟩

/-- What is too old stays so. -/
theorem recent_of_listed {r : ℤ × PodList} (h : c.success = some r)
    (hordered : ((calls++[c]).map Call.now).Pairwise (· ≤ ·)) {t : ℤ}
    (hrecent : Recent (calls++[c]) t) : Recent calls t := by
  intro T hT
  rw [recent_listed h] at hrecent
  obtain ⟨r',hr',rfl⟩ := Option.map_eq_some_iff.mp hT
  obtain ⟨c',hc',hsuccess⟩ := List.mem_filterMap.mp (List.mem_of_getLast? hr')
  rw [List.map_append, List.pairwise_append] at hordered
  have hle := hordered.2.2 c'.now (List.mem_map_of_mem hc') c.now (by simp)
  rw [success_now h] at hrecent
  rw [success_now hsuccess]
  omega

theorem reportOf_time {r : ℤ × PodList} {report : Report} (h : reportOf p r = some report) :
    report.1 = r.1 := by
  obtain ⟨s,-,rfl⟩ := Option.map_eq_some_iff.mp h
  rfl

/-- Either nothing is known, and there is no report or too old a one, or the newest one known is
the last report. -/
theorem known_last (hordered : (calls.map Call.now).Pairwise (· ≤ ·)) (p : PodName) :
    (known calls p = [] ∧ ∀ report, lastReport calls p = some report → ¬Recent calls report.1) ∨
      ∃ report earlier, known calls p = report::earlier ∧ lastReport calls p = some report ∧
        Recent calls report.1 := by
  induction calls using List.reverseRecOn with
  | nil =>
    apply Or.inl
    exact ⟨rfl,fun _ h => nomatch h⟩
  | append_singleton calls c ih =>
    have hbefore : (calls.map Call.now).Pairwise (· ≤ ·) := by
      rw [List.map_append, List.pairwise_append] at hordered
      exact hordered.1
    cases hsuccess : c.success with
    | none =>
      simp only [known, lastReport, Recent, lastSuccess, successes_failed hsuccess]
      exact ih hbefore
    | some r =>
      rw [known_listed hsuccess, lastReport_listed hsuccess]
      cases hreport : reportOf p r with
      | some report =>
        apply Or.inr
        have hrecent : Recent (calls++[c]) report.1 := by
          rw [recent_listed hsuccess, reportOf_time hreport, staleAfter]
          omega
        exact ⟨report,known calls p,track_reported hreport _,rfl,hrecent⟩
      | none =>
        rw [Option.none_or]
        rcases ih hbefore with ⟨hknown,hold⟩ | ⟨report,earlier,hknown,hlast,hrecent⟩
        · apply Or.inl
          rw [hknown, track_unknown hreport]
          exact ⟨rfl,fun report hlast hrecent =>
            hold report hlast (recent_of_listed hsuccess hordered hrecent)⟩
        · rw [hknown, track_unreported hreport]
          by_cases hstale : report.1 < r.1-staleAfter
          · apply Or.inl
            rw [if_pos hstale]
            refine ⟨rfl,fun report' hlast' hrecent' => ?_⟩
            obtain rfl := Option.some.inj (hlast.symm.trans hlast')
            rw [recent_listed hsuccess] at hrecent'
            omega
          · apply Or.inr
            rw [if_neg hstale]
            exact ⟨report,earlier,rfl,hlast,(recent_listed hsuccess _).mpr (by omega)⟩

end Known

end Radar.MetricsHistory

namespace Radar.MetricsHistory

section Rings

/-- The points that were added, of which the last ones are in the slots. -/
structure Holds (rb : RingBuffer) (n : ℕ) (points : List MetricsDataPoint) : Prop where
  size_eq : rb.size = n
  head_eq : rb.head = points.length % n
  count_eq : rb.count = min points.length n
  slot : ∀ w point, points[w]? = some point → points.length ≤ w+n → rb.data (w % n) = point

variable {rb : RingBuffer} {n : ℕ} {points : List MetricsDataPoint}

theorem holds_new (n : ℕ) : Holds (newRingBuffer n) n [] where
  size_eq := rfl
  head_eq := (Nat.zero_mod n).symm
  count_eq := (Nat.zero_min n).symm
  slot := fun _ _ h => nomatch h

theorem holds_add (h : Holds rb n points) (point : MetricsDataPoint) :
    Holds (rb.Add point) n (points++[point]) where
  size_eq := h.size_eq
  head_eq := by
    rw [RingBuffer.Add, h.head_eq, h.size_eq, List.length_append, List.length_singleton,
      Nat.mod_add_mod]
  count_eq := by
    rw [RingBuffer.Add, h.count_eq, h.size_eq, List.length_append, List.length_singleton]
    dsimp only
    split_ifs <;> omega
  slot := by
    intro w q hw hwindow
    rw [List.length_append, List.length_singleton] at hwindow
    rw [RingBuffer.Add, h.head_eq]
    rcases Nat.lt_trichotomy w points.length with hlt | heq | hgt
    · have hne : w % n ≠ points.length % n := Ring.slot_ne hlt (by omega)
      rw [List.getElem?_append_left hlt] at hw
      show Function.update rb.data _ point (w % n) = q
      rw [Function.update_of_ne hne]
      exact h.slot w q hw (by omega)
    · rw [heq, List.getElem?_concat_length] at hw
      rw [heq]
      show Function.update rb.data _ point _ = q
      rw [Function.update_self]
      exact Option.some.inj hw
    · rw [List.getElem?_eq_none (by simp; omega)] at hw
      cases hw

theorem holds_adds (h : Holds rb n points) (more : List MetricsDataPoint) :
    Holds (more.foldl RingBuffer.Add rb) n (points++more) := by
  induction more generalizing rb points with
  | nil => rwa [List.append_nil]
  | cons point more ih =>
    rw [List.append_cons]
    exact ih (holds_add h point)

/-- The last points, oldest first. -/
theorem getAll_holds (h : Holds rb n points) : rb.GetAll = points.rtake n := by
  have hslot : ∀ i, i < min points.length n → points[points.length-min points.length n+i]? =
      some (rb.data ((points.length-min points.length n+i) % n)) := by
    intro i hi
    have hlt : points.length-min points.length n+i < points.length := by omega
    rw [List.getElem?_eq_getElem hlt]
    exact congrArg some (h.slot _ _ (List.getElem?_eq_getElem hlt) (by omega)).symm
  have hwindow : points.rtake n = (List.range (min points.length n)).map
      fun i => rb.data ((points.length-min points.length n+i) % n) := by
    apply List.ext_getElem?
    intro i
    rw [List.rtake, List.getElem?_drop]
    by_cases hi : i < min points.length n
    · rw [List.getElem?_map, List.getElem?_range hi, Option.map_some, ← hslot i hi]
      congr 1
      omega
    · rw [List.getElem?_eq_none (by omega), List.getElem?_eq_none (by simp; omega)]
  rw [hwindow, RingBuffer.GetAll, h.count_eq, h.size_eq]
  split_ifs with hempty hpartial
  · rw [hempty]
    rfl
  · apply List.map_congr_left
    intro i hi
    rw [List.mem_range] at hi
    congr 1
    have hzero : points.length-min points.length n+i = i := by omega
    rw [hzero, Nat.mod_eq_of_lt (by omega)]
  · apply List.map_congr_left
    intro i hi
    rw [List.mem_range] at hi
    have hwalk := Ring.head_walk (n := n) (w := points.length) (i := i) hi
    have hfull : min points.length n = n := by omega
    rw [h.head_eq, ← hwalk, hfull]
    congr 2
    omega

end Rings

section Lists

/-- The point that is added for a container. -/
def pointOf (now : ℤ) (c : ContainerSample) : MetricsDataPoint :=
  ⟨now,parseCPU c.cpu.quantity.text,parseMemory c.memory.quantity.text⟩

def addPoint (buf : Option RingBuffer) (point : MetricsDataPoint) : RingBuffer :=
  (buf.getD (newRingBuffer MetricsHistorySize)).Add point

theorem addContainer_sample (now : ℤ) (containers : AList fun _ : String => RingBuffer)
    (c : ContainerSample) : addContainer now containers (some c.container) =
      containers.insert c.name (addPoint (containers.lookup c.name) (pointOf now c)) := by
  rw [addContainer]
  exact if_neg c.named

/-- What stands under a name. -/
def ringAt (containers : AList fun _ : String => RingBuffer) (name : String) : Option RingBuffer :=
  containers.lookup name

theorem lookup_addContainers (now : ℤ) (containers : AList fun _ : String => RingBuffer)
    (s : PodSample) (name : String) :
    (addContainers now containers s.item.containers).lookup name =
      match s.find name with
      | none => containers.lookup name
      | some c => some (addPoint (containers.lookup name) (pointOf now c)) := by
  have hother : ∀ (m : AList fun _ : String => RingBuffer) (c : ContainerSample) (name : String),
      name ≠ c.name → ringAt (addContainer now m (some c.container)) name = ringAt m name := by
    intro m c name hne
    rw [addContainer_sample]
    exact AList.lookup_insert_ne hne
  have hadded : ∀ (m : AList fun _ : String => RingBuffer) (c : ContainerSample),
      ringAt (addContainer now m (some c.container)) c.name =
        some (addPoint (ringAt m c.name) (pointOf now c)) := by
    intro m c
    rw [addContainer_sample]
    exact AList.lookup_insert m
  have hfold := Keyed.foldl_find hother
    (fun m m' c heq => by rw [hadded, hadded, heq]) s.distinct containers name
  show ringAt ((s.containers.map fun c => some c.container).foldl (addContainer now) containers) name = _
  rw [List.foldl_map, hfold, PodSample.find]
  cases hfind : s.containers.find? fun c => decide (c.name = name) with
  | none => rfl
  | some c =>
    have hname : c.name = name := by simpa using List.find?_some hfind
    subst hname
    exact hadded containers c

theorem key_inj {p q : PodName} (h : p.key = q.key) : p = q := by
  obtain ⟨hns,hname⟩ := Join.part_inj p.ns.plain q.ns.plain h
  cases p with
  | mk pns pname =>
    cases q with
    | mk qns qname =>
      cases pns
      cases qns
      cases pname
      cases qname
      dsimp only at hns hname
      subst hns hname
      rfl

/-- What the store has of a pod. -/
def bufferOf (podMetrics : AList fun _ : String => PodMetricsBuffer) (p : PodName) :
    Option PodMetricsBuffer := podMetrics.lookup p.key

/-- The buffer of a pod after one more report. -/
def reported (now : ℤ) (s : PodSample) (buf : Option PodMetricsBuffer) : PodMetricsBuffer :=
  let podBuf := buf.getD ⟨s.pod.ns.text,s.pod.name.text,∅,0⟩
  { podBuf with
    lastSeen := now
    containers := addContainers now podBuf.containers s.item.containers }

theorem bufferOf_items (now : ℤ) (podMetrics : AList fun _ : String => PodMetricsBuffer)
    (l : PodList) (p : PodName) : bufferOf (l.items.foldl (addItem now) podMetrics) p =
      match l.find p with
      | none => bufferOf podMetrics p
      | some s => some (reported now s (bufferOf podMetrics p)) := by
  have hother : ∀ (m : AList fun _ : String => PodMetricsBuffer) (s : PodSample) (q : PodName),
      q ≠ s.pod → bufferOf (addItem now m s.item) q = bufferOf m q :=
    fun m s q hne => AList.lookup_insert_ne fun hkey => hne (key_inj hkey)
  have hadded : ∀ (m : AList fun _ : String => PodMetricsBuffer) (s : PodSample),
      bufferOf (addItem now m s.item) s.pod = some (reported now s (bufferOf m s.pod)) :=
    fun m s => AList.lookup_insert m
  have hfold := Keyed.foldl_find hother
    (fun m m' s heq => by rw [hadded, hadded, heq]) l.distinct podMetrics p
  rw [PodList.items, List.foldl_map, hfold, PodList.find]
  cases hfind : l.pods.find? fun s => decide (s.pod = p) with
  | none => rfl
  | some s =>
    have hpod : s.pod = p := by simpa using List.find?_some hfind
    subst hpod
    exact hadded podMetrics s

theorem lookup_dropStale (threshold : ℤ) (podMetrics : AList fun _ : String => PodMetricsBuffer)
    (key : String) : (dropStale threshold podMetrics).lookup key =
      (podMetrics.lookup key).filter fun podBuf => decide (threshold ≤ podBuf.lastSeen) := by
  rw [dropStale, MapLoop.lookup_foldl]
  · cases hlookup : podMetrics.lookup key with
    | none => rfl
    | some podBuf =>
      by_cases hstale : podBuf.lastSeen < threshold
      · have hnot : ¬threshold ≤ podBuf.lastSeen := by omega
        simp [hstale, Option.filter, hnot]
      · have hkept : threshold ≤ podBuf.lastSeen := by omega
        simp [hstale, Option.filter, hkept, hlookup]
  · intro kept key podBuf key' hne
    split_ifs
    · exact AList.lookup_erase_ne hne
    · rfl
  · intro kept kept' key podBuf heq
    split_ifs
    · rw [AList.lookup_erase, AList.lookup_erase]
    · exact heq

end Lists

section Mirrors

/-- The points of a container in reports that are given newest first. -/
def pointsOf (name : String) : List Report → List MetricsDataPoint
  | [] => []
  | report::earlier =>
    match report.2.find name with
    | none => pointsOf name earlier
    | some c => pointsOf name earlier++[pointOf report.1 c]

def ringOf (points : List MetricsDataPoint) : Option RingBuffer :=
  if points = [] then none
  else some (points.foldl RingBuffer.Add (newRingBuffer MetricsHistorySize))

theorem ringOf_add (points : List MetricsDataPoint) (point : MetricsDataPoint) :
    some (addPoint (ringOf points) point) = ringOf (points++[point]) := by
  have hadded : ringOf (points++[point]) =
      some ((points.foldl RingBuffer.Add (newRingBuffer MetricsHistorySize)).Add point) := by
    rw [ringOf, if_neg (by simp), List.foldl_append]
    rfl
  rw [hadded]
  by_cases hnil : points = []
  · rw [hnil]
    rfl
  · rw [ringOf, if_neg hnil]
    rfl

/-- The buffer of a pod of which that much is known. -/
structure Mirrors (p : PodName) (report : Report) (earlier : List Report)
    (buf : PodMetricsBuffer) : Prop where
  ns_eq : buf.ns = p.ns.text
  name_eq : buf.name = p.name.text
  seen : buf.lastSeen = report.1
  rings : ∀ name, buf.containers.lookup name = ringOf (pointsOf name (report::earlier))

/-- What is known of a pod is what the store holds of it. -/
def Kept (m : AList fun _ : String => PodMetricsBuffer) (p : PodName) : List Report → Prop
  | [] => bufferOf m p = none
  | report::earlier => ∃ buf, bufferOf m p = some buf ∧ Mirrors p report earlier buf

theorem find_pod {l : PodList} {p : PodName} {s : PodSample} (h : l.find p = some s) : s.pod = p := by
  simpa using List.find?_some h

theorem mirrors_reported {m : AList fun _ : String => PodMetricsBuffer} {s : PodSample} (now : ℤ)
    {earlier : List Report} (h : Kept m s.pod earlier) :
    Mirrors s.pod (now,s) earlier (reported now s (bufferOf m s.pod)) := by
  have hrings : ∀ containers : AList fun _ : String => RingBuffer,
      (∀ name, containers.lookup name = ringOf (pointsOf name earlier)) → ∀ name,
      (addContainers now containers s.item.containers).lookup name =
        ringOf (pointsOf name ((now,s)::earlier)) := by
    intro containers hbefore name
    rw [lookup_addContainers, pointsOf]
    cases s.find name with
    | none => exact hbefore name
    | some c =>
      show some (addPoint _ _) = _
      rw [hbefore name]
      exact ringOf_add _ _
  cases earlier with
  | nil =>
    have hnone : bufferOf m s.pod = none := h
    rw [hnone]
    exact ⟨rfl,rfl,rfl,hrings ∅ fun _ => rfl⟩
  | cons report earlier =>
    obtain ⟨buf,hbuf,hmirrors⟩ := h
    rw [hbuf]
    exact ⟨hmirrors.ns_eq,hmirrors.name_eq,rfl,hrings buf.containers hmirrors.rings⟩

variable {calls : List Call}

theorem collected_concat (calls : List Call) (c : Call) : collected (calls++[c]) =
    collectPodMetrics (collected calls) c.now (c.answer.map PodList.items) := by
  rw [collected, List.foldl_append]
  rfl

theorem collected_failed {c : Call} (h : c.success = none) :
    (collected (calls++[c])).podMetrics = (collected calls).podMetrics := by
  rw [collected_concat]
  cases hanswer : c.answer with
  | noClient => rfl
  | notDiscovered => rfl
  | failed err => rfl
  | listed l => simp [Call.success, hanswer] at h

theorem collected_listed {c : Call} {r : ℤ × PodList} (h : c.success = some r) :
    (collected (calls++[c])).podMetrics =
      dropStale (r.1-staleAfter) (r.2.items.foldl (addItem r.1) (collected calls).podMetrics) := by
  rw [collected_concat]
  cases hanswer : c.answer with
  | noClient => simp [Call.success, hanswer] at h
  | notDiscovered => simp [Call.success, hanswer] at h
  | failed err => simp [Call.success, hanswer] at h
  | listed l =>
    rw [Call.success, hanswer] at h
    obtain rfl := Option.some.inj h
    rfl

theorem kept_listed {m : AList fun _ : String => PodMetricsBuffer} {p : PodName}
    {known : List Report} (h : Kept m p known) (r : ℤ × PodList) :
    Kept (dropStale (r.1-staleAfter) (r.2.items.foldl (addItem r.1) m)) p (track p known r) := by
  have hdropped : bufferOf (dropStale (r.1-staleAfter) (r.2.items.foldl (addItem r.1) m)) p =
      (bufferOf (r.2.items.foldl (addItem r.1) m) p).filter
        fun podBuf => decide (r.1-staleAfter ≤ podBuf.lastSeen) := lookup_dropStale _ _ _
  rw [bufferOf_items] at hdropped
  cases hfind : r.2.find p with
  | some s =>
    obtain rfl := find_pod hfind
    have hreport : reportOf s.pod r = some (r.1,s) := by rw [reportOf, hfind]; rfl
    have hmirrors := mirrors_reported r.1 h
    have hfresh : r.1-staleAfter ≤ (reported r.1 s (bufferOf m s.pod)).lastSeen := by
      rw [hmirrors.seen, staleAfter]
      dsimp only
      omega
    rw [hfind, Option.filter_some, if_pos (decide_eq_true hfresh)] at hdropped
    rw [track_reported hreport]
    exact ⟨_,hdropped,hmirrors⟩
  | none =>
    have hreport : reportOf p r = none := by rw [reportOf, hfind]; rfl
    rw [hfind] at hdropped
    cases known with
    | nil =>
      have hnone : bufferOf m p = none := h
      rw [hnone] at hdropped
      rw [track_unknown hreport]
      exact hdropped
    | cons report earlier =>
      obtain ⟨buf,hbuf,hmirrors⟩ := h
      rw [hbuf, Option.filter_some, hmirrors.seen] at hdropped
      rw [track_unreported hreport]
      by_cases hstale : report.1 < r.1-staleAfter
      · rw [if_pos hstale]
        rw [if_neg (by rw [decide_eq_true_eq]; omega)] at hdropped
        exact hdropped
      · rw [if_neg hstale]
        rw [if_pos (by rw [decide_eq_true_eq]; omega)] at hdropped
        exact ⟨buf,hdropped,hmirrors⟩

/-- The store of a run holds what is known after it. -/
theorem collected_kept (calls : List Call) (p : PodName) :
    Kept (collected calls).podMetrics p (known calls p) := by
  induction calls using List.reverseRecOn with
  | nil => exact (rfl : bufferOf ∅ p = none)
  | append_singleton calls c ih =>
    cases hsuccess : c.success with
    | none =>
      rw [collected_failed hsuccess, known, successes_failed hsuccess]
      exact ih
    | some r =>
      rw [collected_listed hsuccess, known_listed hsuccess]
      exact kept_listed ih r

end Mirrors

end Radar.MetricsHistory
