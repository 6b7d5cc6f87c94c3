import Radar.Base.JsonText
import Radar.Base.JsonTree
import Radar.Base.Names
import Radar.Base.Runes

/-!
# Drift between a desired and a live tree

Two trees are walked together and every difference is told with its dotted path.
Pointers to what should be ignored are turned into dotted paths as well. The
order in which the keys of a map are ranged over is given for every place.
-/

set_option autoImplicit false

namespace Radar.Drift
open Radar.JsonTree

section JsonString

/-- HTML is not escaped. -/
def escapeText (c : Char) : Text :=
  if c = '<' ∨ c = '>' ∨ c = '&' then [c] else JsonText.escape c

def quoteText (s : Text) : Text := '"'::(s.flatMap escapeText++['"'])

/-- The keys of a map are sorted. -/
def sortedKeys (fs : List (Text × Value)) : List Text := Names.sorted (fs.map Prod.fst).dedup

def jsonString : Value → Text
  | .null => "null".toList
  | .bool b => (if b then "true" else "false").toList
  | .num n => n.text
  | .str s => quoteText s
  | .arr vs =>
    let items := (List.range vs.length).map fun i => jsonString ((Value.arr vs).child (.index i))
    '['::(",".toList.intercalate items++[']'])
  | .obj fs =>
    let items := (sortedKeys fs).map fun k =>
      quoteText k++ ':'::jsonString ((Value.obj fs).child (.key k))
    '{'::(",".toList.intercalate items++['}'])
termination_by v => sizeOf v
decreasing_by all_goals exact Value.sizeOf_child _ trivial

end JsonString

section Paths

def isAllDigits (s : Text) : Bool := !s.isEmpty && s.all fun r => !(r < '0' || '9' < r)

def joinPath (path segment : Text) : Text :=
  if path = [] then segment
  else if isAllDigits segment then path++ ".[".toList++segment++"]".toList
  else path++ ".".toList++segment

def indexText (i : ℕ) : Text := (toString i).toList

end Paths

inductive DriftOp where
  | added
  | removed
  | changed
  deriving DecidableEq, Repr

structure DriftEntry where
  path : Text
  op : DriftOp
  desired : Text := []
  live : Text := []
  deriving DecidableEq

section Diff

/-- For the place of a map and its keys, the order they are ranged over. -/
abbrev Ranging := Place → List Text → List Text

/-- The orders below a child. -/
def Ranging.below (range : Ranging) (t : Token) : Ranging := fun p => range (t::p)

def unionKeys (dMap lMap : List (Text × Value)) : List Text :=
  (dMap.map Prod.fst++lMap.map Prod.fst).dedup

/-- What is appended to the entries. -/
def diffValues (range : Ranging) (path : Text) (desired live : Value) : List DriftEntry :=
  if desired.isNilish && live.isNilish then []
  else if desired.isNilish then [{ path, op := .added, live := jsonString live }]
  else if live.isNilish then [{ path, op := .removed, desired := jsonString desired }]
  else
    match desired,live with
    | .obj dMap,.obj lMap =>
      (range [] (unionKeys dMap lMap)).flatMap fun k =>
        diffValues (range.below (.key k)) (joinPath path k) ((Value.obj dMap).child (.key k))
          ((Value.obj lMap).child (.key k))
    | .arr dArr,.arr lArr =>
      (List.range (max dArr.length lArr.length)).flatMap fun i =>
        diffValues (range.below (.index i)) (joinPath path (indexText i))
          ((Value.arr dArr).child (.index i)) ((Value.arr lArr).child (.index i))
    | desired,live =>
      if jsonString desired = jsonString live then []
      else [{ path, op := .changed, desired := jsonString desired, live := jsonString live }]
termination_by sizeOf desired
decreasing_by all_goals exact Value.sizeOf_child _ trivial

end Diff

section Ignore

/-- `strings.ReplaceAll` of a tilde and a digit. -/
def replaceTilde (digit new : Char) : Text → Text
  | [] => []
  | '~'::c::s =>
    if c = digit then new::replaceTilde digit new s else '~'::replaceTilde digit new (c::s)
  | c::s => c::replaceTilde digit new s

def decodeJSONPointerSegment (seg : Text) : Text :=
  replaceTilde '0' '~' (replaceTilde '1' '/' seg)

def trimPrefix (c : Char) : Text → Text
  | [] => []
  | d::s => if d = c then s else d::s

def pointerToDotPath (pointer : Text) : Text :=
  ((trimPrefix '/' pointer).splitOn '/').foldl
    (fun out seg => joinPath out (decodeJSONPointerSegment seg)) []

def pathMatchesAnyPrefix (path : Text) (prefixes : List Text) : Bool :=
  prefixes.any fun p =>
    path == p || (p++ ".".toList).isPrefixOf path || (p++ ".[".toList).isPrefixOf path

def filterIgnoredPaths (entries : List DriftEntry) (pointers : List Text) : List DriftEntry :=
  if pointers = [] then entries
  else
    let prefixes := ((pointers.map Runes.trimSpace).filter (· ≠ [])).map pointerToDotPath
    entries.filter fun e => !pathMatchesAnyPrefix e.path prefixes

end Ignore

end Radar.Drift
