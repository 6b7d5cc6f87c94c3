import Mathlib.Algebra.Ring.Int.Defs
import Mathlib.Data.Int.Notation
import Mathlib.Logic.Function.Basic
import Radar.Base.Run

/-!
# The PolicyReport index

A warm-up decides whether Kyverno is there, lists its reports, registers for
changes and publishes an index; changes rebuild it later, one rebuild at a
time. A context switch resets the index first, then the caches, and installs
the caches of the new cluster, which are named here by the generation they
are installed in. `sources` records the clusters something was computed from.
-/

set_option autoImplicit false

namespace Radar.Policy

abbrev GVR := String

inductive KyvernoStatus where
  | notInstalled
  | deferred
  | warmup
  | ready
  deriving DecidableEq, Repr

structure PolicyReportStatus where
  status : KyvernoStatus
  reasonCode : String := ""
  observedCount : ℤ := 0
  watchedGroups : List String := []
  deniedGroups : List String := []
  liveUpdates : Bool := false
  deriving DecidableEq, Repr

structure ReportGroup where
  group : String
  namespaced : List GVR
  cluster : List GVR
  deriving Repr

def reportGroups : List ReportGroup :=
  [⟨"wgpolicyk8s.io",["wgpolicyk8s.io/v1alpha2/policyreports","wgpolicyk8s.io/v1beta1/policyreports"],
    ["wgpolicyk8s.io/v1alpha2/clusterpolicyreports","wgpolicyk8s.io/v1beta1/clusterpolicyreports"]⟩,
  ⟨"openreports.io",["openreports.io/v1alpha1/reports"],["openreports.io/v1alpha1/clusterreports"]⟩]

structure ReportSelection where
  gvrs : List GVR := []
  groups : List String := []
  total : ℤ := 0
  reason : String := ""
  deniedGroups : List String := []
  deriving DecidableEq, Repr

def ReportSelection.readyStatus (sel : ReportSelection) (live : Bool) : PolicyReportStatus where
  status := .ready
  observedCount := sel.total
  watchedGroups := sel.groups
  deniedGroups := sel.deniedGroups
  liveUpdates := live

structure Selecting where
  selection : ReportSelection := {}
  fallback : List GVR := []
  fallbackGroups : List String := []
  servedAnything : Bool := false
  anyDenied : Bool := false
  anyProbeFailed : Bool := false

/-- A count of -1 is a denial, another negative one a failure. -/
def Selecting.family (served : GVR → Bool) (probeCount : GVR → ℤ) (s : Selecting)
    (family : ReportGroup) : Selecting :=
  let candidates := (family.namespaced.find? served).toList++(family.cluster.find? served).toList
  if candidates = [] then s
  else
    let readable := candidates.filter fun gvr => 0 ≤ probeCount gvr
    let total := (readable.map probeCount).sum
    let denied := candidates.any fun gvr => probeCount gvr < 0
    let s := { s with
      servedAnything := true
      anyDenied := s.anyDenied || candidates.any fun gvr => probeCount gvr = -1
      anyProbeFailed := s.anyProbeFailed || candidates.any fun gvr => probeCount gvr < -1
      fallback := s.fallback++readable
      fallbackGroups := s.fallbackGroups++if readable = [] then [] else [family.group] }
    let selection := { s.selection with
      deniedGroups := s.selection.deniedGroups++if denied then [family.group] else [] }
    if total = 0 then { s with selection := selection }
    else
      { s with selection := { selection with
          gvrs := selection.gvrs++readable
          groups := selection.groups++[family.group]
          total := selection.total+total } }

def selectReportGVRs (served : GVR → Bool) (probeCount : GVR → ℤ) : ReportSelection :=
  let s := reportGroups.foldl (Selecting.family served probeCount) {}
  if s.selection.gvrs ≠ [] then s.selection
  else if s.anyDenied then { total := -1, reason := "rbac_denied" }
  else if s.anyProbeFailed then { total := -1, reason := "probe_failed" }
  else if ¬s.servedAnything then { total := 0, reason := "no_report_crds" }
  else
    { gvrs := s.fallback
      groups := s.fallbackGroups
      deniedGroups := s.selection.deniedGroups }

/-- One report resource of the four is served. -/
def onlyPolicyReports (gvr : GVR) : Bool := gvr = "wgpolicyk8s.io/v1alpha2/policyreports"

example : selectReportGVRs onlyPolicyReports (fun _ => 1) =
    { gvrs := ["wgpolicyk8s.io/v1alpha2/policyreports"], groups := ["wgpolicyk8s.io"], total := 1 } := by
  decide

example : selectReportGVRs (fun _ => true) (fun _ => -1) = { total := -1, reason := "rbac_denied" } := by
  decide

/-- Reports by the GVR they were listed for. -/
abbrev Listed (R : Type) := List (GVR × List R)

/-- `ptr` tells one index object from another. -/
structure Index (R : Type) where
  ptr : ℕ
  reports : Listed R
  sources : List ℕ

/-- Decision and reason are stored together. -/
structure Decision where
  status : PolicyReportStatus
  sources : List ℕ
  deriving DecidableEq, Repr

/-- The once and the generation that a warm-up took, and what it has read from. -/
structure Pass where
  once : ℕ
  gen : ℕ
  sources : List ℕ := []
  deriving DecidableEq, Repr

/-- A sequence of one cluster, and the warm-up it comes to. -/
inductive Warmup (R : Type) where
  | idle
  | spawned (cluster : ℕ)
  | gated (cluster ctx : ℕ)
  | checked (cluster : ℕ)
  | entered (cluster : ℕ) (p : Pass)
  | discovering (p : Pass)
  | caching (p : Pass)
  | selecting (p : Pass) (cache : ℕ)
  | warmed (p : Pass) (cache : ℕ) (sel : ReportSelection)
  | listing (p : Pass) (cache : ℕ) (sel : ReportSelection) (listed : ℕ) (done : Listed R)
      (todo : List GVR)
  | registering (p : Pass) (cache : ℕ) (sel : ReportSelection) (done : Listed R) (todo : List GVR)
      (handlersRegistered : Bool)
  | recording (p : Pass) (status : PolicyReportStatus)
  | returned

inductive Rebuild (R : Type) where
  | idle
  | requested
  | starting
  | captured (gen : ℕ) (idx : Index R) (gvrs : List GVR)
  | listing (gen : ℕ) (idx : Index R) (cache : ℕ) (done : Listed R) (todo : List GVR)
  | built (gen : ℕ) (idx : Index R) (sources : List ℕ) (done : Listed R)
  | judging
  | sleeping

/-- A reader knows the generation in which it began. -/
inductive Reader where
  | idle
  | sampled (since : ℕ) (reason : Option Decision)
  | rereading (since : ℕ) (sources : List ℕ)
  | undecided (since : ℕ)
  | deciding (since : ℕ)
  | returned (since : ℕ) (status : PolicyReportStatus) (sources : List ℕ)
  deriving DecidableEq, Repr

inductive Switch where
  | stable
  | cancelled
  | indexReset
  | dynamicReset
  | discoveryReset
  deriving DecidableEq, Repr

/-- Whose warm-up runs a once, and whether it has returned. -/
structure OnceRun where
  cluster : ℕ
  returned : Bool
  deriving DecidableEq, Repr

structure State (R : Type) where
  switch : Switch := .discoveryReset
  /-- The number of cancelled operation contexts. -/
  operation : ℕ := 0
  discovery : Option ℕ := none
  dynamicCache : Option ℕ := none
  store : ℕ → GVR → List R
  handlers : ℕ → GVR → Bool := fun _ _ => false
  /-- Changes whose handler has not run yet. -/
  notified : ℕ := 0
  index : Option (Index R) := none
  watched : List GVR := []
  decision : Option Decision := none
  warmupGen : ℕ := 0
  init : ℕ := 0
  onces : ℕ → Option OnceRun := fun _ => none
  pending : Bool := false
  timers : ℕ := 0
  rebuilding : Bool := false
  rebuildAgain : Bool := false
  nextPtr : ℕ := 0
  warmups : ℕ → Warmup R := fun _ => .idle
  rebuilds : ℕ → Rebuild R := fun _ => .idle
  readers : ℕ → Reader := fun _ => .idle

inductive Act (R : Type) where
  | cancelOperations
  | resetPolicyReportIndex
  | resetDynamicCache
  | resetDiscovery
  | installDiscovery
  | installDynamicCache (i : ℕ)
  | change (cluster : ℕ) (gvr : GVR) (reports : List R)
  | scheduleRebuild
  | fire (i : ℕ)
  | rebuild (i : ℕ)
  /-- A warm-up's next step, or one with an answer of the cluster. -/
  | warm (i : ℕ)
  | discover (i : ℕ) (kyverno : Bool)
  | select (i : ℕ) (served : GVR → Bool) (probeCount : GVR → ℤ)
  | register (i : ℕ) (ok : Bool)
  | getPolicyReportStatus (i : ℕ)
  | getKyvernoStatus (i : ℕ)
  | read (i : ℕ) (kyverno : Bool)

namespace State

variable {R : Type}

def setWarmup (s : State R) (i : ℕ) (w : Warmup R) : State R :=
  { s with warmups := Function.update s.warmups i w }

def setRebuild (s : State R) (i : ℕ) (r : Rebuild R) : State R :=
  { s with rebuilds := Function.update s.rebuilds i r }

def setReader (s : State R) (i : ℕ) (r : Reader) : State R :=
  { s with readers := Function.update s.readers i r }

def resetPolicyReportIndex (s : State R) : State R :=
  { s with
    switch := .indexReset
    warmupGen := s.warmupGen+1
    index := none
    watched := []
    pending := false
    decision := none
    init := s.warmupGen+1 }

/-- A change is seen by the informer's handler, if one is registered. -/
def change (s : State R) (cluster : ℕ) (gvr : GVR) (reports : List R) : State R :=
  { s with
    store := Function.update s.store cluster (Function.update (s.store cluster) gvr reports)
    notified := if s.handlers cluster gvr then s.notified+1 else s.notified }

def scheduleRebuild (s : State R) : State R :=
  let s := { s with notified := s.notified-1 }
  if s.pending then s else { s with pending := true, timers := s.timers+1 }

/-- A new handler is told of every object the informer holds. -/
def addHandler (s : State R) (cluster : ℕ) (gvr : GVR) : State R :=
  { s with
    handlers := Function.update s.handlers cluster (Function.update (s.handlers cluster) gvr true)
    notified := s.notified+(s.store cluster gvr).length }

def setStatus (s : State R) (p : Pass) (status : PolicyReportStatus) : State R :=
  if s.warmupGen ≠ p.gen then s else { s with decision := some ⟨status,p.sources⟩ }

def publishReady (s : State R) (p : Pass) (sel : ReportSelection) (done : Listed R)
    (live : Bool) : State R :=
  if s.warmupGen ≠ p.gen then s
  else
    { s with
      index := some ⟨s.nextPtr,done,p.sources⟩
      nextPtr := s.nextPtr+1
      watched := sel.gvrs
      decision := some ⟨sel.readyStatus live,p.sources⟩ }

/-- The once is done when the warm-up returns. -/
def returnOnce (s : State R) (i : ℕ) (once : ℕ) : State R :=
  { s.setWarmup i .returned with
    onces := Function.update s.onces once
      ((s.onces once).map fun o => { o with returned := true }) }

/-- The steps that need no answer of the cluster. `listPolicyReportsAll` reads the cache again, and
without one it lists nothing. -/
def warm (s : State R) (i : ℕ) : Option (State R) :=
  match s.warmups i with
  | .spawned cluster => some (s.setWarmup i (.gated cluster s.operation))
  | .gated cluster ctx =>
    if ctx = s.operation ∧ s.dynamicCache = some cluster then some (s.setWarmup i (.checked cluster))
    else some (s.setWarmup i .returned)
  | .checked cluster => some (s.setWarmup i (.entered cluster ⟨s.init,s.warmupGen,[]⟩))
  | .entered cluster p =>
    match s.onces p.once with
    | none =>
      some { s.setWarmup i (.discovering p) with
        onces := Function.update s.onces p.once (some ⟨cluster,false⟩) }
    | some o => if o.returned then some (s.setWarmup i .returned) else none
  | .caching p =>
    match s.dynamicCache with
    | none => some (s.setWarmup i (.recording p
        { status := .deferred, reasonCode := "cache_unavailable", observedCount := -1 }))
    | some cache => some (s.setWarmup i (.selecting { p with sources := cache::p.sources } cache))
  | .warmed p cache sel =>
    match s.dynamicCache with
    | none => some (s.setWarmup i (.registering p cache sel [] sel.gvrs true))
    | some listed =>
      some (s.setWarmup i
        (.listing { p with sources := listed::p.sources } cache sel listed [] sel.gvrs))
  | .listing p cache sel listed done (gvr::todo) =>
    some (s.setWarmup i (.listing p cache sel listed (done++[(gvr,s.store listed gvr)]) todo))
  | .listing p cache sel _ done [] => some (s.setWarmup i (.registering p cache sel done sel.gvrs true))
  | .recording p status => some ((s.setStatus p status).returnOnce i p.once)
  | .registering p _ sel done [] live => some ((s.publishReady p sel done live).returnOnce i p.once)
  | _ => none

def register (s : State R) (i : ℕ) (ok : Bool) : Option (State R) :=
  match s.warmups i with
  | .registering p cache sel done (gvr::todo) live =>
    if ok then some ((s.addHandler cache gvr).setWarmup i (.registering p cache sel done todo live))
    else some (s.setWarmup i (.registering p cache sel done todo false))
  | _ => none

def discover (s : State R) (i : ℕ) (kyverno : Bool) : Option (State R) :=
  match s.warmups i with
  | .discovering p =>
    match s.discovery with
    | none => some (s.setWarmup i (.recording p
        { status := .notInstalled, reasonCode := "discovery_unavailable" }))
    | some d =>
      let p := { p with sources := d::p.sources }
      if kyverno then some (s.setWarmup i (.caching p))
      else some (s.setWarmup i (.recording p
        { status := .notInstalled, reasonCode := "kyverno_not_installed" }))
  | _ => none

def select (s : State R) (i : ℕ) (served : GVR → Bool) (probeCount : GVR → ℤ) : Option (State R) :=
  match s.warmups i with
  | .selecting p cache =>
    let sel := selectReportGVRs served probeCount
    if sel.gvrs ≠ [] then some (s.setWarmup i (.warmed p cache sel))
    else if sel.reason = "rbac_denied" ∨ sel.reason = "probe_failed" then
      some (s.setWarmup i (.recording p
        { status := .deferred, reasonCode := sel.reason, observedCount := sel.total }))
    else some (s.setWarmup i (.recording p
      { status := .notInstalled, reasonCode := "no_report_crds" }))
  | _ => none

/-- `rebuildPolicyReportIndex`, one step of its coordinator or of `rebuildPolicyReportIndexOnce`. -/
def rebuild (s : State R) (i : ℕ) : Option (State R) :=
  match s.rebuilds i with
  | .requested =>
    if s.rebuilding then some { s.setRebuild i .idle with rebuildAgain := true }
    else some { s.setRebuild i .starting with rebuilding := true }
  | .starting =>
    match s.index with
    | none => some (s.setRebuild i .judging)
    | some idx => some (s.setRebuild i (.captured s.warmupGen idx s.watched))
  | .captured gen idx gvrs =>
    match s.dynamicCache with
    | none => some (s.setRebuild i (.built gen idx idx.sources []))
    | some cache => some (s.setRebuild i (.listing gen idx cache [] gvrs))
  | .listing gen idx cache done (gvr::todo) =>
    some (s.setRebuild i (.listing gen idx cache (done++[(gvr,s.store cache gvr)]) todo))
  | .listing gen idx cache done [] => some (s.setRebuild i (.built gen idx (cache::idx.sources) done))
  | .built gen idx sources done =>
    if s.warmupGen ≠ gen ∨ s.index.map Index.ptr ≠ some idx.ptr then some (s.setRebuild i .judging)
    else
      some { s.setRebuild i .judging with
        index := some ⟨s.nextPtr,done,sources⟩
        nextPtr := s.nextPtr+1 }
  | .judging =>
    if s.rebuildAgain then some (s.setRebuild i .sleeping)
    else some { s.setRebuild i .idle with rebuilding := false }
  | .sleeping => some { s.setRebuild i .starting with rebuildAgain := false }
  | .idle => none

/-- `GetPolicyReportStatus` and `GetKyvernoStatus` load one thing at a time. -/
def read (s : State R) (i : ℕ) (kyverno : Bool) : Option (State R) :=
  match s.readers i with
  | .sampled since reason =>
    match s.index, reason with
    | some idx, none => some (s.setReader i (.rereading since idx.sources))
    | some idx, some d => some (s.setReader i
        (.returned since { d.status with status := .ready, reasonCode := "" }
          (idx.sources++d.sources)))
    | none, some d => some (s.setReader i (.returned since d.status d.sources))
    | none, none => some (s.setReader i (.undecided since))
  | .rereading since sources =>
    match s.decision with
    | none => some (s.setReader i (.returned since { status := .ready } sources))
    | some d => some (s.setReader i
        (.returned since { d.status with status := .ready, reasonCode := "" } (sources++d.sources)))
  | .undecided since =>
    match s.discovery with
    | none => some (s.setReader i (.returned since
        { status := .notInstalled, reasonCode := "discovery_unavailable" } []))
    | some d =>
      if kyverno then some (s.setReader i (.returned since { status := .warmup } [d]))
      else some (s.setReader i (.returned since
        { status := .notInstalled, reasonCode := "kyverno_not_installed" } [d]))
  | .deciding since =>
    match s.decision with
    | none => some (s.setReader i (.returned since { status := .warmup } []))
    | some d => some (s.setReader i (.returned since { status := d.status.status } d.sources))
  | _ => none

/-- A read changes nothing but its reader. -/
theorem read_only {s t : State R} {i : ℕ} {kyverno : Bool} (ht : s.read i kyverno = some t) :
    ∃ readers, t = { s with readers := readers } := by
  unfold read at ht
  split at ht <;> try split at ht
  all_goals first
    | exact ⟨_,(Option.some.inj ht).symm⟩
    | (split at ht <;> exact ⟨_,(Option.some.inj ht).symm⟩)
    | nomatch ht

def step (s : State R) : Act R → Option (State R)
  | .cancelOperations =>
    if s.switch = .stable ∨ s.switch = .discoveryReset then
      some { s with switch := .cancelled, operation := s.operation+1 }
    else none
  | .resetPolicyReportIndex =>
    if s.switch = .cancelled then some s.resetPolicyReportIndex else none
  | .resetDynamicCache =>
    if s.switch = .indexReset then some { s with switch := .dynamicReset, dynamicCache := none }
    else none
  | .resetDiscovery =>
    if s.switch = .dynamicReset then some { s with switch := .discoveryReset, discovery := none }
    else none
  | .installDiscovery =>
    if s.switch = .discoveryReset ∨ s.switch = .stable then
      some { s with discovery := some s.warmupGen }
    else none
  | .installDynamicCache i =>
    match s.switch, s.warmups i with
    | .discoveryReset, .idle =>
      some { s.setWarmup i (.spawned s.warmupGen) with
        switch := .stable
        dynamicCache := some s.warmupGen }
    | _, _ => none
  | .change cluster gvr reports => some (s.change cluster gvr reports)
  | .scheduleRebuild => if s.notified = 0 then none else some s.scheduleRebuild
  | .fire i =>
    match s.rebuilds i with
    | .idle =>
      if s.timers = 0 then none
      else some { s.setRebuild i .requested with timers := s.timers-1, pending := false }
    | _ => none
  | .rebuild i => s.rebuild i
  | .warm i => s.warm i
  | .discover i kyverno => s.discover i kyverno
  | .select i served probeCount => s.select i served probeCount
  | .register i ok => s.register i ok
  | .getPolicyReportStatus i =>
    match s.readers i with
    | .idle => some (s.setReader i (.sampled s.warmupGen s.decision))
    | _ => none
  | .getKyvernoStatus i =>
    match s.readers i with
    | .idle =>
      match s.index with
      | some idx => some (s.setReader i (.returned s.warmupGen { status := .ready } idx.sources))
      | none => some (s.setReader i (.deciding s.warmupGen))
    | _ => none
  | .read i kyverno => s.read i kyverno

end State

end Radar.Policy
