import BuildScript.Text.Word
/-!
# Reading and searching a line

A reader looks at the front of a text and returns what it read together with the rest. The pieces
that the declarations of a build script are made of are read here: blanks, an optional call
parenthesis, a quoted argument. Each piece takes as much as it can, and in all of them what may
follow a piece can never belong to it, so there is nothing to go back to.

**Search.** `search read` tries a reader at every place of a text from the left and reports the
first success as a `Found`: its bounds and its value. The reader also sees the character in front,
which is how words are told from the tails of longer words.

Results:
* `search_bounds`: what is found lies inside the text.
-/
namespace BuildScript

/-- A value read from the part of a text between two offsets. -/
structure Found (α : Type) where
  start : Nat
  stop : Nat
  value : α
deriving DecidableEq

namespace Found

def text {α : Type} (found : Found α) (s : Text) : Text := (s.take found.stop).drop found.start

def map {α β : Type} (f : α → β) (found : Found α) : Found β :=
  ⟨found.start, found.stop, f found.value⟩

end Found

namespace Text

/-- Nothing or something other than a word character stands in front. -/
def startsWord : Option Char → Bool
  | none => true
  | some c => !isWord c

/-- Like `startsWord`, and no full stop stands in front either. -/
def startsName : Option Char → Bool
  | none => true
  | some c => !isWord c && c != '.'

/-- A word character or a full stop, as dotted names are made of. -/
def isDotted (c : Char) : Bool := isWord c || c == '.'

/-- Skips blanks and, if there is one, an opening parenthesis and the blanks behind it. -/
def skipCallOpening (s : Text) : Text :=
  match trimLeft s with
  | '(' :: r => trimLeft r
  | r => r

/-- Skips blanks and a closing parenthesis, or nothing if no parenthesis follows the blanks. -/
def skipCallClosing (s : Text) : Text :=
  match trimLeft s with
  | ')' :: r => r
  | _ => s

/-- A body between two equal quotation marks: the mark, the body and what follows. The body holds
neither mark. -/
def readQuoted? : Text → Option (Char × Text × Text)
  | [] => none
  | mark :: s =>
    if isQuote mark then
      match s.dropWhile (!isQuote ·) with
      | [] => none
      | c :: rest => if c = mark then some (mark, s.takeWhile (!isQuote ·), rest) else none
    else none

/-- A quoted body that may stand behind an opening parenthesis. -/
def readArgument? (s : Text) : Option (Char × Text × Text) := readQuoted? (skipCallOpening s)

/-- Tries a reader at every place of a text that begins at `offset` behind the character `before`,
and reports the leftmost success. -/
def search {α : Type} (read : Option Char → Text → Option (α × Text)) (before : Option Char)
    (offset : Nat) : Text → Option (Found α)
  | [] => none
  | c :: s =>
    match read before (c :: s) with
    | some (value, rest) => some ⟨offset, offset + ((s.length + 1) - rest.length), value⟩
    | none => search read (some c) (offset + 1) s

/-- Searches a whole text. -/
def searchIn {α : Type} (read : Option Char → Text → Option (α × Text)) (s : Text) :
    Option (Found α) :=
  search read none 0 s

/-- What is found lies inside the text. -/
theorem search_bounds {α : Type} {read : Option Char → Text → Option (α × Text)}
    {before : Option Char} {offset : Nat} {s : Text} {found : Found α}
    (h : search read before offset s = some found) :
    offset ≤ found.start ∧ found.start ≤ found.stop ∧ found.stop ≤ offset + s.length := by
  induction s generalizing before offset with
  | nil => cases h
  | cons c s ih =>
    rw [search] at h
    split at h
    · cases h; simp
    · have := ih h; simp; omega

end Text

end BuildScript
