import BuildScript.Fault
import BuildScript.Text.Search
import BuildScript.Text.Literal
/-!
# Blocks

A block is opened by its name and a brace, and closed by the brace that matches. Braces count only
in the code portion of a line, outside string literals and comments.

**Choice.** A script may open a block of one name several times, as with the dependencies of a
build script proper and those inside another block. The first opener at depth zero is meant, or
the first of all if none stands there. The depth of an opener counts the braces opened and closed
on the lines before it and the braces opened in front of it on its own line. A line shows its
first opener only.

**Closing line.** `Block.closingLine` is the line that an insertion into the block goes in front
of. A block that closes on the line it opens on has none.

Results:
* `lt_of_closingLine`: the closing line is a line of the script.
-/
namespace BuildScript

namespace Block

/-- A place that opens a block: its line, its column in the code portion of the line, and the
depth it stands at. Lines and columns count from zero. -/
structure Opener where
  line : Nat
  column : Nat
  depth : Int
deriving DecidableEq, Repr

/-- Reads the name of a block and the opening brace. -/
def readOpener? (block : Text) (before : Option Char) (s : Text) : Option (Unit × Text) := do
  if !Text.startsName before then none
  match Text.trimLeft (← Text.after? block s) with
  | '\x7b' :: rest => some ((), rest)
  | _ => none

/-- The openers of a block on consecutive lines, given the number of the first line and the depth
in front of it. -/
def openersFrom (block : Text) : (number : Nat) → (depth : Int) → List Text → List Opener
  | _, _, [] => []
  | number, depth, line :: rest =>
    let code := Text.codePortion line
    let later :=
      openersFrom block (number + 1) (depth + code.count '\x7b' - code.count '\x7d') rest
    match Text.searchIn (readOpener? block) code with
    | some found =>
      ⟨number, found.start, depth + (code.take found.start).count '\x7b'⟩ :: later
    | none => later

/-- The openers of a block in a script. -/
def openers (block : Text) (lines : List Text) : List Opener := openersFrom block 0 0 lines

/-- The opener that is meant. -/
def choose? (openers : List Opener) : Option Opener :=
  (openers.find? (·.depth = 0)).or openers.head?

/-- The number of braces left open behind a piece of code, or `none` if the last one is closed in
it. Closing braces in front of the first opening one are passed over. -/
def openBraces? : (depth : Nat) → Text → Option Nat
  | depth, [] => some depth
  | depth, c :: s =>
    if c = '\x7b' then openBraces? (depth + 1) s
    else if c = '\x7d' then
      match depth with
      | 0 => openBraces? 0 s
      | 1 => none
      | d + 2 => openBraces? (d + 1) s
    else openBraces? depth s

/-- The line on which the last open brace is closed, given the number of the first line and the
number of braces open in front of it. -/
def closingFrom? : (number : Nat) → (depth : Nat) → List Text → Option Nat
  | _, _, [] => none
  | number, depth, line :: rest =>
    match openBraces? depth (Text.codePortion line) with
    | none => some number
    | some depth => closingFrom? (number + 1) depth rest

/-- The line on which the block that is meant is closed, counting from zero (`_find_block_end`). -/
def closingLine (block : Text) (lines : List Text) : Except Fault Nat :=
  match choose? (openers block lines) with
  | none => .error (.blockMissing block)
  | some opener =>
    let opening := (Text.codePortion (lines.getD opener.line [])).drop opener.column
    match openBraces? 0 opening with
    | none => .error (.blockOnOneLine block (opener.line + 1))
    | some depth =>
      match closingFrom? (opener.line + 1) depth (lines.drop (opener.line + 1)) with
      | none => .error (.blockUnclosed block (opener.line + 1))
      | some number => .ok number

theorem closingFrom?_bounds {number depth n : Nat} {lines : List Text}
    (h : closingFrom? number depth lines = some n) :
    number ≤ n ∧ n < number + lines.length := by
  induction lines generalizing number depth with
  | nil => cases h
  | cons line rest ih =>
    rw [closingFrom?] at h
    split at h
    · cases h; simp
    · have := ih h; simp; omega

/-- The closing line is a line of the script. -/
theorem lt_of_closingLine {block : Text} {lines : List Text} {n : Nat}
    (h : closingLine block lines = .ok n) : n < lines.length := by
  unfold closingLine at h
  split at h
  · cases h
  · dsimp only at h
    split at h
    · cases h
    · split at h
      · cases h
      · next hc =>
        cases h
        have := closingFrom?_bounds hc
        simp at this
        omega

end Block

end BuildScript
