import Radar.Base.Keyed
import Radar.Base.Ring
import Radar.MetricsHistory.Quantities

/-!
# The collection of pod metrics

Each container of a pod has a ring with its last samples. A list that succeeds
adds a sample to the ring of every container in it; a pod that no list has
reported for five minutes is dropped by the next list that succeeds.
-/

set_option autoImplicit false

namespace Radar.MetricsHistory

section Rings

structure MetricsDataPoint where
  timestamp : ℤ
  cpu : ℤ
  memory : ℤ
  deriving DecidableEq, Repr

/-- The number of samples kept, an hour of them. -/
def MetricsHistorySize : ℕ := 120

/-- The slots are a function, of which those below the size are used. -/
structure RingBuffer where
  data : ℕ → MetricsDataPoint
  head : ℕ
  count : ℕ
  size : ℕ

def newRingBuffer (size : ℕ) : RingBuffer where
  data := fun _ => ⟨0,0,0⟩
  head := 0
  count := 0
  size := size

namespace RingBuffer

def Add (rb : RingBuffer) (point : MetricsDataPoint) : RingBuffer :=
  { rb with
    data := Function.update rb.data rb.head point
    head := (rb.head+1) % rb.size
    count := if rb.count < rb.size then rb.count+1 else rb.count }

def GetAll (rb : RingBuffer) : List MetricsDataPoint :=
  if rb.count = 0 then []
  else if rb.count < rb.size then (List.range rb.count).map rb.data
  else (List.range rb.count).map fun i => rb.data ((rb.head+i) % rb.size)

end RingBuffer

end Rings

section Collection

/-- The usage texts of a container; a text that is missing is empty. -/
structure Usage where
  cpu : List Char
  memory : List Char
  deriving DecidableEq, Repr

structure Container where
  name : String
  usage : Option Usage
  deriving DecidableEq, Repr

/-- An item of a list of pod metrics. What is no list of containers, and in it no object, is none. -/
structure Item where
  ns : String
  name : String
  containers : Option (List (Option Container))
  deriving DecidableEq, Repr

structure PodMetricsBuffer where
  ns : String
  name : String
  containers : AList fun _ : String => RingBuffer
  lastSeen : ℤ

structure MetricsHistoryStore where
  podMetrics : AList fun _ : String => PodMetricsBuffer
  lastSuccessfulPodCollection : Option ℤ
  consecutivePodErrors : ℕ
  lastPodError : String

def newMetricsHistoryStore : MetricsHistoryStore := ⟨∅,none,0,""⟩

/-- What comes of the request for a list. -/
inductive Listing (α : Type) where
  | noClient
  | notDiscovered
  | failed (err : String)
  | listed (items : α)

def Listing.map {α β : Type} (f : α → β) : Listing α → Listing β
  | noClient => noClient
  | notDiscovered => notDiscovered
  | failed err => failed err
  | listed items => listed (f items)

def addContainer (now : ℤ) (containers : AList fun _ : String => RingBuffer) :
    Option Container → AList fun _ : String => RingBuffer
  | none => containers
  | some container =>
    if container.name = "" then containers
    else
      match container.usage with
      | none => containers
      | some usage =>
        let containerBuf :=
          (containers.lookup container.name).getD (newRingBuffer MetricsHistorySize)
        containers.insert container.name
          (containerBuf.Add ⟨now,parseCPU usage.cpu,parseMemory usage.memory⟩)

def addContainers (now : ℤ) (containers : AList fun _ : String => RingBuffer) :
    Option (List (Option Container)) → AList fun _ : String => RingBuffer
  | none => containers
  | some reported => reported.foldl (addContainer now) containers

def keyOf (ns name : String) : String := ns++"/"++name

def addItem (now : ℤ) (podMetrics : AList fun _ : String => PodMetricsBuffer) (item : Item) :
    AList fun _ : String => PodMetricsBuffer :=
  let podBuf := (podMetrics.lookup (keyOf item.ns item.name)).getD ⟨item.ns,item.name,∅,0⟩
  podMetrics.insert (keyOf item.ns item.name)
    { podBuf with
      lastSeen := now
      containers := addContainers now podBuf.containers item.containers }

/-- Five minutes in nanoseconds. -/
def staleAfter : ℤ := 5*60*1000000000

def dropStale (staleThreshold : ℤ) (podMetrics : AList fun _ : String => PodMetricsBuffer) :
    AList fun _ : String => PodMetricsBuffer :=
  podMetrics.foldl (fun kept key podBuf =>
    if podBuf.lastSeen < staleThreshold then kept.erase key else kept) podMetrics

def recordPodCollectionError (s : MetricsHistoryStore) (errMsg : String) : MetricsHistoryStore :=
  { s with
    consecutivePodErrors := s.consecutivePodErrors+1
    lastPodError := errMsg }

def collectPodMetrics (s : MetricsHistoryStore) (now : ℤ) : Listing (List Item) → MetricsHistoryStore
  | .noClient => recordPodCollectionError s "dynamic client not initialized"
  | .notDiscovered => recordPodCollectionError s "metrics API is not discovered"
  | .failed err => recordPodCollectionError s err
  | .listed items =>
    { podMetrics := dropStale (now-staleAfter) (items.foldl (addItem now) s.podMetrics)
      lastSuccessfulPodCollection := some now
      consecutivePodErrors := 0
      lastPodError := "" }

end Collection

section Readers

structure ContainerMetricsHistory where
  name : String
  dataPoints : List MetricsDataPoint
  deriving DecidableEq, Repr

structure PodMetricsHistory where
  ns : String
  name : String
  containers : List ContainerMetricsHistory
  deriving DecidableEq, Repr

def GetPodMetricsHistory (s : MetricsHistoryStore) (ns name : String) : Option PodMetricsHistory :=
  (s.podMetrics.lookup (keyOf ns name)).map fun podBuf =>
    ⟨ns,name,podBuf.containers.entries.map fun e => ⟨e.1,e.2.GetAll⟩⟩

/-- The usage of a pod, before its requests and limits are filled in. -/
structure TopPodMetrics where
  ns : String
  name : String
  cpu : ℤ
  memory : ℤ
  deriving DecidableEq, Repr

/-- The newest sample of every container of a pod is added to the totals. -/
def addLast (totals : ℤ × ℤ) (containerBuf : RingBuffer) : ℤ × ℤ :=
  match containerBuf.GetAll.getLast? with
  | none => totals
  | some last => (int64 (totals.1+last.cpu),int64 (totals.2+last.memory))

def topOf (podBuf : PodMetricsBuffer) : TopPodMetrics :=
  let totals := (podBuf.containers.entries.map Sigma.snd).foldl addLast (0,0)
  ⟨podBuf.ns,podBuf.name,totals.1,totals.2⟩

def GetAllPodMetricsLatest (s : MetricsHistoryStore) : List TopPodMetrics :=
  s.podMetrics.entries.map fun e => topOf e.2

/-- The usage of a container, before its requests and limits are filled in. -/
structure ContainerResourceMetrics where
  name : String
  cpu : ℤ
  memory : ℤ
  deriving DecidableEq, Repr

def latestOf (podBuf : PodMetricsBuffer) : AList fun _ : String => ContainerResourceMetrics :=
  podBuf.containers.foldl (fun latest name buf =>
    match buf.GetAll.getLast? with
    | none => latest
    | some last => latest.insert name ⟨name,last.cpu,last.memory⟩) ∅

def GetAllPodContainerMetricsLatest (s : MetricsHistoryStore) :
    AList fun _ : String => AList fun _ : String => ContainerResourceMetrics :=
  s.podMetrics.foldl (fun result key podBuf => result.insert key (latestOf podBuf)) ∅

end Readers

end Radar.MetricsHistory
