import BuildScript.Text.Basic
/-!
# Lines

Lines end at a line feed and nowhere else, so that line numbers and offsets stay in step; a text
has one line more than it has line feeds, and the last line may be empty.

**Display lines.** A diff shows a text in the smaller pieces that a terminal or an editor may break
it into. `displayLines` cuts behind every line boundary of Unicode and keeps the boundary at the
end of its piece, a carriage return with the line feed behind it counting as one.

Results:
* `length_lineStarts`: there is one start for each line.
* `flatten_displayLines`: the display lines of a text are the text.
-/
namespace BuildScript.Text

/-- The lines of a text, without their line feeds (`split_lines`). -/
def lines (s : Text) : List Text := fields '\n' s

/-- The offsets behind the line feeds of a text that begins at `offset`. -/
def lineStartsFrom (offset : Nat) : Text → List Nat
  | [] => []
  | c :: s =>
    if c = '\n' then (offset + 1) :: lineStartsFrom (offset + 1) s
    else lineStartsFrom (offset + 1) s

/-- The offset of the first character of every line (`compute_line_starts`). -/
def lineStarts (s : Text) : List Nat := 0 :: lineStartsFrom 0 s

/-- The index of the line that an offset falls on: the last start not beyond it, and the first line
for a negative offset (`line_index_for_offset`). -/
def lineIndexAt (starts : List Nat) (offset : Int) : Nat :=
  starts.countP (fun (start : Nat) => decide ((start : Int) ≤ offset)) - 1

/-- An offset moved to the nearer end if it lies outside the text. -/
def clamp (s : Text) (offset : Int) : Nat := min offset.toNat s.length

/-- Where the line holding `offset` begins and where it ends, its line feed left out
(`line_bounds`). -/
def lineBounds (s : Text) (offset : Int) : Nat × Nat :=
  let here := clamp s offset
  (here - ((s.take here).reverse.takeWhile (· != '\n')).length,
   here + ((s.drop here).takeWhile (· != '\n')).length)

/-- The line that holds `offset` (`line_text_at`). -/
def lineAt (s : Text) (offset : Int) : Text :=
  let bounds := lineBounds s offset
  (s.take bounds.2).drop bounds.1

/-- A character at which a display line ends. -/
def isLineBoundary (c : Char) : Bool :=
  let n := c.toNat
  (10 ≤ n && n ≤ 13) || (28 ≤ n && n ≤ 30) || n == 0x85 || n == 0x2028 || n == 0x2029

/-- A text cut behind every line boundary. -/
def displayLines : Text → List Text
  | [] => []
  | '\r' :: '\n' :: s => ['\r', '\n'] :: displayLines s
  | c :: s =>
    if isLineBoundary c then [c] :: displayLines s
    else
      match displayLines s with
      | [] => [[c]]
      | l :: ls => (c :: l) :: ls

theorem length_lineStartsFrom (offset : Nat) (s : Text) :
    (lineStartsFrom offset s).length = s.count '\n' := by
  induction s generalizing offset with
  | nil => rfl
  | cons c s ih => by_cases h : c = '\n' <;> simp [lineStartsFrom, h, ih]

/-- There is one start for each line. -/
theorem length_lineStarts (s : Text) : (lineStarts s).length = (lines s).length := by
  simp [lineStarts, lines, length_lineStartsFrom, length_fields]

/-- The display lines of a text are the text. -/
theorem flatten_displayLines (s : Text) : (displayLines s).flatten = s := by
  fun_induction displayLines s with
  | case1 => rfl
  | case2 s ih => simp [ih]
  | case3 c s _ h ih => simp [ih]
  | case4 c s _ h hs ih => simpa [hs] using ih
  | case5 c s _ h l ls hs ih => simpa [hs] using ih

end BuildScript.Text
