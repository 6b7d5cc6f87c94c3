import Radar.Story.CanonicalMarkers

/-!
# The renderer's side: the story tokenizer

`splitStory` over a report that is the list of its characters. A number that a
marker names is exact here: the texts that both sides read it from are the
same, or it is the index of an item.
-/

set_option autoImplicit false

namespace Radar.Story

open Radar.Scan Radar.CharRuns Radar.Runes

/-- The white space of `\s` and of `trim`. -/
def isWhiteSpace (c : Char) : Bool :=
  c ∈ [ '\t', '\n', '\x0b', '\x0c', '\r', ' ', '\u00a0', '\u1680', '\u2028', '\u2029', '\u202f',
    '\u205f', '\u3000', '\ufeff'] || ('\u2000' ≤ c && c ≤ '\u200a')

def trimEnd (s : Text) : Text := s.rdropWhile isWhiteSpace

def unresolvedStoryIndex : ℤ := -1

abbrev StoryRefResolver := Text → Option ℤ

/-- `Number` of a text of digits. -/
def number (digits : Text) : ℤ := (Nat.ofDigitChars 10 digits 0 : ℤ)

def markerIndex (resolveRef : Option StoryRefResolver) (m : Marker) : ℤ :=
  match m.target with
  | .index digits => number digits.text
  | .ref name =>
    match resolveRef.bind fun resolve => resolve name.text with
    | some resolved => if resolved < 0 then unresolvedStoryIndex else resolved
    | none => unresolvedStoryIndex

/-- ``^ {0,3}(`{3,}|~{3,})``, with its group. -/
def fenceRe (line : Text) : Option Text :=
  let rest := line.dropWhile (· = ' ')
  match rest with
  | [] => none
  | c::_ =>
    let run := rest.takeWhile (· = c)
    if (line.takeWhile (· = ' ')).length ≤ 3 ∧ (c = '`' ∨ c = '~') ∧ 3 ≤ run.length then some run
    else none

/-- ``^ {0,3}(`{3,}|~{3,})\s*$``, with its group. -/
def fenceCloseRe (line : Text) : Option Text :=
  (fenceRe line).filter fun run =>
    ((line.dropWhile (· = ' ')).drop run.length).all isWhiteSpace

/-- `^ {0,3}>` -/
def blockquoteRe (line : Text) : Bool :=
  (line.takeWhile (· = ' ')).length ≤ 3 && (line.dropWhile (· = ' ')).head? = some '>'

/-- `^( {4,}|\t)` -/
def indentedCodeRe (line : Text) : Bool :=
  4 ≤ (line.takeWhile (· = ' ')).length || line.head? = some '\t'

/-- `^\s{0,3}`, a marker, `\s*$`. -/
def blockPlacementRe (line : Text) : Option Marker :=
  if (line.takeWhile isWhiteSpace).length ≤ 3 then
    (readMarker (line.dropWhile isWhiteSpace)).filter fun m =>
      ((line.dropWhile isWhiteSpace).drop m.text.length).all isWhiteSpace
  else none

inductive StorySegment where
  | prose (markdown : Text)
  | placement (index : ℤ) (compact : Bool)
  deriving DecidableEq

def storyReferenceHref (index : ℤ) : Text := "#radar-evidence-".toList++(toString index).toList

/-- The open run after a text. -/
def codeSpanAfter (text : Text) (openRun : ℕ) : ℕ :=
  ((splitRuns '`' text).1.map (·.2)).foldl toggle openRun

/-- The matches of a scan, each with the text before it, and the tail. -/
def groups {μ : Type*} : List (Char ⊕ μ) → List (Text × μ) × Text
  | [] => ([],[])
  | .inl c::ts =>
    match groups ts with
    | ([],tail) => ([],c::tail)
    | ((before,m)::rest,tail) => ((c::before,m)::rest,tail)
  | .inr m::ts => (([],m)::(groups ts).1,(groups ts).2)

/-- `matchAll` of `STORY_PLACEMENT_RE` -/
def matchAll (line : Text) : List (Text × Marker) × Text := groups (storyPlacementRe.scan line)

/-- A reference link, shown by the marker's own text. -/
def referenceLink (shown : Marker) (index : ℤ) : Text :=
  '['::(shown.text++("](".toList++(storyReferenceHref index++")".toList)))

/-- The loop over the matches, with the text before each, and the tail. -/
def rewriteMatches (resolveRef : Option StoryRefResolver) :
    List (Text × Marker) → Text → ℕ → Text × ℕ
  | [], tail, openRun => (tail,codeSpanAfter tail openRun)
  | (before,m)::rest, tail, openRun =>
    let inSpan := codeSpanAfter before openRun
    let shown := if 0 < inSpan then m.text else referenceLink m (markerIndex resolveRef m)
    let next := rewriteMatches resolveRef rest tail inSpan
    (before++(shown++next.1),next.2)

def rewriteInlineMarkers (line : Text) (resolveRef : Option StoryRefResolver) (openRun : ℕ) :
    Text × ℕ :=
  rewriteMatches resolveRef (matchAll line).1 (matchAll line).2 openRun

/-- `split` at `\r?\n` -/
def splitLines : Text → List Text
  | [] => [[]]
  | '\n'::s => []::splitLines s
  | '\r':: '\n'::s => []::splitLines s
  | c::s => (splitLines s).modifyHead (c::·)

/-- What is written: the segments, and the lines of the one to come. -/
structure Page where
  segments : List StorySegment := []
  prose : List Text := []
  deriving DecidableEq

/-- Blank lines are trimmed, not indentation. -/
def markdownOf (prose : List Text) : Text :=
  trimEnd ((['\n'].intercalate prose).dropWhile (· = '\n'))

def Page.flush (p : Page) : Page where
  segments :=
    if markdownOf p.prose = [] then p.segments else p.segments++[.prose (markdownOf p.prose)]
  prose := []

def Page.push (p : Page) (line : Text) : Page := { p with prose := p.prose++[line] }

def Page.place (p : Page) (index : ℤ) (compact : Bool) : Page :=
  { p with segments := p.segments++[.placement index compact] }

structure Tokenizer extends Page where
  fence : Option Text := none
  openRun : ℕ := 0
  deriving DecidableEq

def Tokenizer.write (t : Tokenizer) (p : Page) : Tokenizer := { t with toPage := p }

/-- Whether the line closes the fence. -/
def closes (fence line : Text) : Bool :=
  match fenceCloseRe line with
  | some close => close.head? = fence.head? && fence.length ≤ close.length
  | none => false

/-- The body of the loop over the lines. -/
def Tokenizer.step (resolveRef : Option StoryRefResolver) (t : Tokenizer) (line : Text) :
    Tokenizer :=
  match t.fence with
  | some fence =>
    if closes fence line then { t.write (t.push line) with fence := none }
    else t.write (t.push line)
  | none =>
    match fenceRe line with
    | some fence => { t.write (t.push line) with fence := some fence, openRun := 0 }
    | none =>
      if trim isWhiteSpace line = [] then { t.write t.flush with openRun := 0 }
      else if blockquoteRe line || indentedCodeRe line then t.write (t.push line)
      else
        match if t.openRun = 0 then blockPlacementRe line else none with
        | some m =>
          { t.write (t.flush.place (markerIndex resolveRef m) m.compact) with openRun := 0 }
        | none =>
          let rewritten := rewriteInlineMarkers line resolveRef t.openRun
          { t.write (t.push rewritten.1) with openRun := rewritten.2 }

def splitStory (report : Text) (resolveRef : Option StoryRefResolver) : List StorySegment :=
  ((splitLines report).foldl (Tokenizer.step resolveRef) {}).flush.segments

end Radar.Story
