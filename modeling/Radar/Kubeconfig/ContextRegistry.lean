import Mathlib.Data.Finset.Preimage
import Mathlib.Data.Fintype.EquivFin
import Mathlib.Data.List.AList
import Mathlib.Data.List.DropRight
import Mathlib.Data.List.Lex
import Radar.Base.Decimal
import Radar.Base.Names
import Radar.Base.Store

/-!
# The registry of kubeconfig contexts

Every context of every watched file is registered under a name of its own. The
registry is built once and then brought up to date file by file. Its maps lie in
cells that callers share; a refresh writes to a copy that it makes when the first
thing changes.
-/

set_option autoImplicit false

namespace Radar.Kubeconfig

abbrev Text := List Char

section Label

/-- `filepath.Base` -/
def pathBase (path : Text) : Text :=
  if path = [] then ".".toList
  else
    let trimmed := path.rdropWhile (· = '/')
    if trimmed = [] then "/".toList else trimmed.rtakeWhile (· ≠ '/')

/-- `filepath.Ext` -/
def pathExt (path : Text) : Text :=
  let element := path.rtakeWhile (· ≠ '/')
  if '.' ∈ element then '.'::element.rtakeWhile (· ≠ '.') else []

/-- The elements that stay when a path is cleaned, the last one first. -/
def cleanElements (rooted : Bool) (elements : List Text) : List Text :=
  elements.foldl (fun out element =>
    if element = [] ∨ element = ".".toList then out
    else if element = "..".toList then
      match out with
      | last::rest => if last = "..".toList then element::out else rest
      | [] => if rooted then [] else [element]
    else element::out) []

/-- `filepath.Clean` -/
def pathClean (path : Text) : Text :=
  let rooted := path.head? = some '/'
  let cleaned := "/".toList.intercalate (cleanElements rooted (path.splitOn '/')).reverse
  if rooted then '/'::cleaned else if cleaned = [] then ".".toList else cleaned

/-- `filepath.Dir` -/
def pathDir (path : Text) : Text := pathClean (path.rdropWhile (· ≠ '/'))

def trimSuffix (s suffix : Text) : Text :=
  if suffix <:+ s then s.take (s.length-suffix.length) else s

def trimDot : Text → Text
  | '.'::s => s
  | s => s

def kubeconfigSourceLabel (path : Text) : Text :=
  let base := trimSuffix (pathBase path) (pathExt path)
  let parent := pathBase (pathDir path)
  if base = "config".toList ∨ base = "kubeconfig".toList then
    if parent ≠ [] ∧ parent ≠ ".".toList ∧ parent ≠ "/".toList then trimDot parent else base
  else base

end Label

structure ContextEntry where
  sourceFile : Text
  inFileName : Text
  deriving DecidableEq

/-- Of a parsed file, the names of its contexts. -/
structure Config where
  contexts : List Text
  distinct : contexts.Nodup

abbrev Registry := AList fun _ : Text => ContextEntry

/-- What a path leads to; the content of a regular file may not parse. -/
inductive File where
  | missing
  | special (mtime : ℤ)
  | regular (mtime : ℤ) (content : Option Config)

abbrev FileSystem := Text → File

structure Maps where
  registry : Registry
  fileConfigs : AList fun _ : Text => Config
  fileMtimes : AList fun _ : Text => ℤ

section Names

def qualified (name base : Text) : Text := name++" (".toList++base++")".toList

def numbered (name base : Text) (i : ℕ) : Text :=
  name++" (".toList++base++" #".toList++(toString i).toList++")".toList

theorem numbered_injective (name base : Text) : Function.Injective (numbered name base) := by
  intro i j h
  have htail := List.append_cancel_left (List.append_cancel_right h)
  exact Decimal.nat_text_inj (String.ext htail)

/-- Some number is free. -/
theorem exists_numbered (registry : Registry) (name base : Text) :
    ∃ i, 2 ≤ i ∧ numbered name base i ∉ registry := by
  have hinj := (numbered_injective name base).comp (add_left_injective 2)
  obtain ⟨i,hi⟩ := Infinite.exists_notMem_finset (registry.keys.toFinset.preimage _ hinj.injOn)
  refine ⟨i+2,by omega,fun hmem => hi ?_⟩
  rw [Finset.mem_preimage, List.mem_toFinset]
  exact hmem

def qualifyContextName (registry : Registry) (name path : Text) : Text :=
  if name ∉ registry then name
  else
    let base := kubeconfigSourceLabel path
    if qualified name base ∉ registry then qualified name base
    else numbered name base (Nat.find (exists_numbered registry name base))

def sortedContextNames (cfg : Config) : List Text := Names.sorted cfg.contexts

end Names

section Build

def register (path : Text) (registry : Registry) (name : Text) : Registry :=
  registry.insert (qualifyContextName registry name path) ⟨path,name⟩

/-- A path that is no regular file or does not parse is skipped. -/
def loadFile (fs : FileSystem) (path : Text) : Option Config :=
  match fs path with
  | .regular _ content => content
  | _ => none

def addFile (fs : FileSystem) (out : Registry × AList fun _ : Text => Config) (path : Text) :
    Registry × AList fun _ : Text => Config :=
  match loadFile fs path with
  | none => out
  | some cfg => ((sortedContextNames cfg).foldl (register path) out.1,out.2.insert path cfg)

/-- The registry and the parsed files. -/
def buildContextRegistry (fs : FileSystem) (paths : List Text) :
    Registry × AList fun _ : Text => Config := paths.foldl (addFile fs) (∅,∅)

end Build

section Refresh

/-- The maps that a refresh returns so far, and whether they are its own. -/
structure Work where
  store : Store Maps
  held : ℕ
  changed : Bool

/-- The first change copies the maps. -/
def Work.cloneOnce (w : Work) (input : ℕ) : Work :=
  if w.changed then w
  else
    let (held,store) := w.store.alloc (w.store.cell input)
    ⟨store,held,true⟩

def Work.modify (w : Work) (f : Maps → Maps) : Work :=
  { w with store := w.store.write w.held (f (w.store.cell w.held)) }

/-- The names under which a file's contexts are registered. -/
def namesOf (registry : Registry) (path : Text) : List Text :=
  Names.sorted (registry.keys.filter fun q => (registry.lookup q).any (·.sourceFile = path))

def dropFile (path : Text) (qNames : List Text) (m : Maps) : Maps where
  registry := qNames.foldl (fun r q => r.erase q) m.registry
  fileConfigs := m.fileConfigs.erase path
  fileMtimes := m.fileMtimes.erase path

/-- Adds a context unless one of the file's names has it already. -/
def addContext (path : Text) (qNames : List Text) (registry : Registry) (name : Text) : Registry :=
  if qNames.any fun q => registry.lookup q = some ⟨path,name⟩ then registry
  else register path registry name

/-- Whether a text is listed is decided by comparing. -/
local instance : LawfulBEq Text := inferInstance

def dropDead (cfg : Config) (qNames : List Text) (registry : Registry) : Registry :=
  qNames.foldl (fun r q =>
    if (r.lookup q).any (·.inFileName ∈ cfg.contexts) then r else r.erase q) registry

def replaceFile (path : Text) (qNames : List Text) (mtime : ℤ) (cfg : Config) (m : Maps) : Maps where
  registry := (sortedContextNames cfg).foldl (addContext path qNames) (dropDead cfg qNames m.registry)
  fileConfigs := m.fileConfigs.insert path cfg
  fileMtimes := m.fileMtimes.insert path mtime

/-- The watched paths in order, then the other known ones. -/
def refreshPaths (m : Maps) (sourceOrder : List Text) : List Text :=
  let sources := m.registry.entries.map fun e => e.2.sourceFile
  let known := (sources++m.fileMtimes.keys).dedup
  sourceOrder++Names.sorted (known.filter (· ∉ sourceOrder))

def refreshPath (fs : FileSystem) (input : ℕ) (byFile : Text → List Text) (w : Work) (path : Text) :
    Work :=
  let inputs := w.store.cell input
  let qNames := byFile path
  match fs path with
  | .regular mtime content =>
    if inputs.fileMtimes.lookup path = some mtime then w
    else
      match content with
      | none => (w.cloneOnce input).modify fun m =>
        { m with fileMtimes := m.fileMtimes.insert path mtime }
      | some cfg => (w.cloneOnce input).modify (replaceFile path qNames mtime cfg)
  | _ =>
    if qNames = [] ∧ path ∉ inputs.fileConfigs ∧ path ∉ inputs.fileMtimes then w
    else (w.cloneOnce input).modify (dropFile path qNames)

/-- The cell of the returned maps, and whether they changed. Without a registry or times the
inputs are returned. -/
def refreshContextRegistry (fs : FileSystem) (store : Store Maps) (input : Option ℕ)
    (sourceOrder : List Text) : Store Maps × Option ℕ × Bool :=
  match input with
  | none => (store,none,false)
  | some input =>
    let m := store.cell input
    let w := (refreshPaths m sourceOrder).foldl (refreshPath fs input (namesOf m.registry))
      ⟨store,input,false⟩
    (w.store,some w.held,w.changed)

end Refresh

end Radar.Kubeconfig
