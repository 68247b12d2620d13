import BuildScript.Diff.Alignment
import BuildScript.Text.Lines
/-!
# Unified diffs

A unified diff shows the display lines of two texts in hunks: lines that went, marked `-`, lines
that came, marked `+`, and around them up to `context` lines that stayed, marked by a space.
Changes stand in one hunk if no more than twice as many lines lie between them. Two header lines
name the texts, and a header in front of each hunk gives its first line and its number of lines in
either text. Texts without a difference give no diff.

Lines are shown as they are, whatever boundary they end with, the last line of a text also without
one.
-/
namespace BuildScript.Diff

/-- How a hunk header gives the lines from `start` up to `stop`: the number of the first line,
counting from one, and how many there are unless it is one. No lines are placed behind the line in
front of them. -/
def lineSpan (start stop : Int) : Text :=
  let length := stop - start
  if length = 1 then Text.ofInt (start + 1)
  else
    let first := if length = 0 then start else start + 1
    Text.ofInt first ++ ',' :: Text.ofInt length

/-- A stretch without all but its last `context` items. -/
def Stretch.last (context : Int) (s : Stretch) : Stretch :=
  { s with
    oldStart := max s.oldStart (s.oldStop - context)
    newStart := max s.newStart (s.newStop - context) }

/-- A stretch without all but its first `context` items. -/
def Stretch.first (context : Int) (s : Stretch) : Stretch :=
  { s with
    oldStop := min s.oldStop (s.oldStart + context)
    newStop := min s.newStop (s.newStart + context) }

/-- Shortens a stretch in front that stayed the same. -/
def trimFront (context : Int) : List Stretch → List Stretch
  | s :: rest => if s.same then s.last context :: rest else s :: rest
  | [] => []

/-- Shortens a stretch at the end that stayed the same. -/
def trimBack (context : Int) : List Stretch → List Stretch
  | [] => []
  | [s] => if s.same then [s.first context] else [s]
  | s :: t :: rest => s :: trimBack context (t :: rest)

/-- Distributes stretches over hunks, the first of which has begun with `hunk`. A long stretch that
stayed the same ends one hunk and begins another. -/
def hunksFrom (context : Int) (hunk : List Stretch) : List Stretch → List (List Stretch)
  | [] =>
    match hunk with
    | [] => []
    | [s] => if s.same then [] else [hunk]
    | _ => [hunk]
  | s :: rest =>
    if s.same ∧ s.oldStop - s.oldStart > context + context then
      (hunk ++ [s.first context]) :: hunksFrom context [s.last context] rest
    else hunksFrom context (hunk ++ [s]) rest

/-- The hunks of a list of stretches. Two texts without lines count as one line that stayed. -/
def hunks (context : Int) (stretches : List Stretch) : List (List Stretch) :=
  let stretches := if stretches = [] then [⟨true, 0, 1, 0, 1⟩] else stretches
  hunksFrom context [] (trimBack context (trimFront context stretches))

/-- Lines behind a mark. -/
def markLines (mark : Char) (lines : List Text) : Text := lines.flatMap fun line => mark :: line

def showStretch (old new : List Text) (s : Stretch) : Text :=
  if s.same then markLines ' ' (Text.slice old s.oldStart s.oldStop)
  else
    markLines '-' (Text.slice old s.oldStart s.oldStop) ++
      markLines '+' (Text.slice new s.newStart s.newStop)

def showHunk (old new : List Text) (hunk : List Stretch) : Text :=
  match hunk.head?, hunk.getLast? with
  | some first, some last =>
    "@@ -".toList ++ lineSpan first.oldStart last.oldStop ++ " +".toList ++
      lineSpan first.newStart last.newStop ++ " @@\n".toList ++
      hunk.flatMap (showStretch old new)
  | _, _ => []

/-- The unified diff of two texts (`unified_diff`). -/
def unified (old new oldName newName : Text) (context : Int) : Text :=
  let oldLines := Text.displayLines old
  let newLines := Text.displayLines new
  match hunks context (stretches oldLines newLines) with
  | [] => []
  | hunks =>
    "--- ".toList ++ oldName ++ "\n+++ ".toList ++ newName ++
      '\n' :: hunks.flatMap (showHunk oldLines newLines)

/-- The number of context lines unless another is asked for. -/
def defaultContext : Int := 3

end BuildScript.Diff
