import Mathlib.Data.Int.Notation
import Mathlib.Logic.Function.Basic
import Radar.Base.CharRuns
import Radar.Base.Runes
import Radar.Story.Markers

/-!
# The parser's side: canonical story markers

`canonicalStoryMarkers` over a report that is the list of its characters. An
item is what `parseCaseItem` returns: its ref was matched against `refRe`, or
it is the zero value.
-/

set_option autoImplicit false

namespace Radar.Story

open Radar.Scan Radar.CharRuns Radar.Runes

structure CaseItemRequest where
  ref : Text
  ok : ref = [] ∨ ∃ r : Ref, ref = r.text

/-- One item of the loop over `indexByRef`: a ref that is cited again names no item. -/
def addRef (indexByRef : Text → Option ℤ) (item : CaseItemRequest × ℕ) : Text → Option ℤ :=
  Function.update indexByRef item.1.ref
    (some (if (indexByRef item.1.ref).isSome then -1 else (item.2 : ℤ)))

def indexByRef (items : List CaseItemRequest) : Text → Option ℤ :=
  items.zipIdx.foldl addRef fun _ => none

def rewriteMarker (items : List CaseItemRequest) (m : RefMarker) : Text :=
  match indexByRef items m.ref.text with
  | some i =>
    if 0 ≤ i then "[[radar:evidence=".toList++((toString i).toList++closing m.compact) else m.text
  | none => m.text

def rewrite (items : List CaseItemRequest) (text : Text) : Text :=
  storyRefMarkerRe.replaceAll (rewriteMarker items) text

def leadingRun (text : Text) : ℕ :=
  match text with
  | [] => 0
  | c::_ => (text.takeWhile (· = c)).length

/-- `^( {0,3}>| {4,}|\t)` -/
def quotedLineRe (line : Text) : Bool :=
  let indent := (line.takeWhile (· = ' ')).length
  (indent ≤ 3 && (line.dropWhile (· = ' ')).head? = some '>') || 4 ≤ indent ||
    line.head? = some '\t'

/-- What a run of backticks makes of the open run. -/
def toggle (openRun run : ℕ) : ℕ :=
  if openRun = 0 then run else if run = openRun then 0 else openRun

/-- The loop over the runs, with the text before each, and the tail. -/
def rewriteSegments (rewrite : Text → Text) : List (Text × ℕ) → Text → ℕ → Text × ℕ
  | [], tail, openRun => (if openRun = 0 then rewrite tail else tail,openRun)
  | (segment,run)::runs, tail, openRun =>
    let rest := rewriteSegments rewrite runs tail (toggle openRun run)
    ((if openRun = 0 then rewrite segment else segment)++(List.replicate run '`'++rest.1),rest.2)

def rewriteOutsideCodeSpans (line : Text) (openRun : ℕ) (rewrite : Text → Text) : Text × ℕ :=
  rewriteSegments rewrite (splitRuns '`' line).1 (splitRuns '`' line).2 openRun

structure LineState where
  fenceChar : Char := '\x00'
  fenceLen : ℕ := 0
  openRun : ℕ := 0
  deriving DecidableEq

/-- The rest of the loop's body, for a line that neither opens nor closes a fence. -/
def canonicalProse (items : List CaseItemRequest) (st : LineState) (line : Text) :
    Text × LineState :=
  if 0 < st.fenceLen then (line,st)
  else if trimSpace line = [] then (line,{ st with openRun := 0 })
  else if quotedLineRe line then (line,st)
  else
    let rewritten := rewriteOutsideCodeSpans line st.openRun (rewrite items)
    (rewritten.1,{ st with openRun := rewritten.2 })

def canonicalLine (items : List CaseItemRequest) (st : LineState) (line : Text) :
    Text × LineState :=
  let trimmed := line.dropWhile (· = ' ')
  let run := leadingRun trimmed
  if line.length-trimmed.length ≤ 3 ∧ 3 ≤ run ∧
      (trimmed.head? = some '`' ∨ trimmed.head? = some '~') then
    if st.fenceLen = 0 then
      (line,{ fenceChar := trimmed.headD '\x00', fenceLen := run, openRun := 0 })
    else if trimmed.head? = some st.fenceChar ∧ st.fenceLen ≤ run ∧
        trimSpace (trimmed.drop run) = [] then
      (line,{ st with fenceChar := '\x00', fenceLen := 0 })
    else canonicalProse items st line
  else canonicalProse items st line

def canonicalLines (items : List CaseItemRequest) : LineState → List Text → List Text
  | _, [] => []
  | st, line::lines =>
    let done := canonicalLine items st line
    done.1::canonicalLines items done.2 lines

def canonicalStoryMarkers (report : Text) (items : List CaseItemRequest) : Text :=
  if refOpening <:+: report then
    ['\n'].intercalate (canonicalLines items {} (report.splitOn '\n'))
  else report

end Radar.Story
