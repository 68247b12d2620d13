import BuildScript.Text.Lines
/-!
# Positions and regions

A position names a boundary of a span twice: by line and column, which count from one and are for
display, and by offset. A region runs from a start position up to an end position; its text is
what lies between the two offsets.

**Checks.** A position has a line and a column of at least one, a start offset that is not
negative, an end offset not before it, and the length that these two give. A region does not end
before it starts. `Region.check` says which of these fails first, the start position coming before
the end position and both before the region.

**Display.** The end column of a region on a line is the column of its last character, and one for
a region without characters, so `Region.contains` includes both ends.

Results:
* `Position.check_of_bounds`: a position whose numbers are in order passes its checks.
* `check_onLine`: a region on a line passes its checks when line and local bounds are in order.
-/
namespace BuildScript

/-- A boundary of a span of text (`SourcePosition`). -/
structure Position where
  line : Int
  column : Int
  /-- The offset of the boundary. -/
  start : Int
  /-- The offset at which the span behind the boundary ends. -/
  stop : Int
  length : Int
deriving DecidableEq, Repr

/-- A span of text between two boundaries (`SourceRange`). -/
structure Region where
  first : Position
  last : Position
deriving DecidableEq, Repr

/-- What is wrong with a position or a region. -/
inductive PlaceFault where
  | beforeFirst (line column : Int)
  | negativeStart (start : Int)
  | stopBeforeStart (stop start : Int)
  | wrongLength (length actual : Int)
  | lastBeforeFirst (first last : Int)
deriving DecidableEq, Repr

namespace PlaceFault

def message : PlaceFault → Text
  | beforeFirst line column =>
    "line/column must be >= 1, got ".toList ++ Text.ofInt line ++ '/' :: Text.ofInt column
  | negativeStart start => "start_byte must be >= 0, got ".toList ++ Text.ofInt start
  | stopBeforeStart stop start =>
    "end_byte must be >= start_byte, got ".toList ++ Text.ofInt stop ++ " < ".toList ++
      Text.ofInt start
  | wrongLength length actual =>
    "length must equal end_byte - start_byte, got ".toList ++ Text.ofInt length ++
      " != ".toList ++ Text.ofInt actual
  | lastBeforeFirst first last =>
    "range start ".toList ++ Text.ofInt first ++ " is after range end ".toList ++ Text.ofInt last

end PlaceFault

namespace Position

/-- A boundary with nothing behind it. -/
def point (line column offset : Int) : Position := ⟨line, column, offset, offset, 0⟩

/-- The first thing wrong with a position, if anything is. -/
def check (p : Position) : Except PlaceFault Unit :=
  if p.line < 1 ∨ p.column < 1 then .error (.beforeFirst p.line p.column)
  else if p.start < 0 then .error (.negativeStart p.start)
  else if p.stop < p.start then .error (.stopBeforeStart p.stop p.start)
  else if p.length ≠ p.stop - p.start then .error (.wrongLength p.length (p.stop - p.start))
  else .ok ()

def text (p : Position) : Text :=
  "line ".toList ++ Text.ofInt p.line ++ ", col ".toList ++ Text.ofInt p.column

theorem check_of_bounds {p : Position} (hline : 1 ≤ p.line) (hcolumn : 1 ≤ p.column)
    (hstart : 0 ≤ p.start) (hstop : p.start ≤ p.stop) (hlength : p.length = p.stop - p.start) :
    p.check = .ok () := by
  unfold check
  rw [if_neg (by omega), if_neg (by omega), if_neg (by omega), if_neg (by omega)]

end Position

namespace Region

def start (r : Region) : Int := r.first.start

def stop (r : Region) : Int := r.last.start

def length (r : Region) : Int := r.stop - r.start

/-- Whether a region only marks a place between two characters (`is_point`). -/
def isPoint (r : Region) : Bool := r.length == 0

/-- A region on one line, by its bounds within the line (`on_line`). -/
def onLine (line lineStart localStart localStop : Int) : Region where
  first := ⟨line, localStart + 1, lineStart + localStart, lineStart + localStop,
    (lineStart + localStop) - (lineStart + localStart)⟩
  last := .point line (max localStop 1) (lineStart + localStop)

/-- A region without characters. -/
def point (line column offset : Int) : Region :=
  ⟨.point line column offset, .point line column offset⟩

/-- A region of a script by its two offsets, lines and columns taken from the line starts
(`_range_between`). -/
def between (starts : List Nat) (start stop : Nat) : Region :=
  let column (index offset : Nat) : Int := (offset : Int) - (starts.getD index 0 : Int) + 1
  let firstLine := Text.lineIndexAt starts start
  let lastLine := Text.lineIndexAt starts stop
  { first := ⟨firstLine + 1, column firstLine start, start, stop, (stop : Int) - start⟩
    last := .point (lastLine + 1) (column lastLine stop) stop }

def check (r : Region) : Except PlaceFault Unit := do
  r.first.check
  r.last.check
  if r.start > r.stop then .error (.lastBeforeFirst r.start r.stop) else .ok ()

/-- Whether a line and column fall on a character of the region. -/
def contains (r : Region) (line column : Int) : Bool :=
  !(line < r.first.line || line > r.last.line
    || (line == r.first.line && column < r.first.column)
    || (line == r.last.line && column > r.last.column))

def text (r : Region) : Text := r.first.text ++ " - ".toList ++ r.last.text

/-- A region on a line passes its checks when line and local bounds are in order. -/
theorem check_onLine {line lineStart localStart localStop : Int} (hline : 1 ≤ line)
    (hstart : 0 ≤ lineStart) (hlocal : 0 ≤ localStart) (hle : localStart ≤ localStop) :
    (onLine line lineStart localStart localStop).check = .ok () := by
  have hfirst : (onLine line lineStart localStart localStop).first.check = .ok () :=
    Position.check_of_bounds hline (by dsimp only [onLine]; omega) (by dsimp only [onLine]; omega)
      (by dsimp only [onLine]; omega) rfl
  have hlast : (onLine line lineStart localStart localStop).last.check = .ok () :=
    Position.check_of_bounds hline (Int.le_max_right localStop 1)
      (by dsimp only [onLine, Position.point]; omega) (Int.le_refl _)
      (by dsimp only [onLine, Position.point]; omega)
  unfold check
  rw [hfirst, hlast]
  refine if_neg ?_
  dsimp only [onLine, Position.point, Region.start, Region.stop]
  omega

end Region

end BuildScript
