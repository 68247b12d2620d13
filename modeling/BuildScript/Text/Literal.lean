import BuildScript.Text.Basic
/-!
# String literals and comments

**Literals.** A string literal runs from a quotation mark to the next mark of the same kind. Inside
it a backslash takes the next character with it, which may be anything but a line feed. A mark
that opens no literal is an ordinary character.

**Comments.** A comment begins at the first `//` that stands outside quotation marks. An opening
mark without a closing one keeps the rest of the line, `//` and all.

**Code.** `codePortion` is what the braces of a line are counted in: the line up to its comment,
its literals taken out.

Results:
* `length_of_closeLiteral?`: a literal takes at least its closing mark.
* `commentStart_lt`: a comment starts inside its line.
-/
namespace BuildScript.Text

/-- Reads a literal behind its opening mark and returns what follows the closing one. -/
def closeLiteral? (mark : Char) : Text → Option Text
  | [] => none
  | [c] => if c = mark then some [] else none
  | c :: d :: s =>
    if c = mark then some (d :: s)
    else if c = '\\' then (if d = '\n' then none else closeLiteral? mark s)
    else closeLiteral? mark (d :: s)

/-- Whether the text is exactly one string literal (`is_quoted_literal`). -/
def isLiteral : Text → Bool
  | [] => false
  | c :: s => isQuote c && closeLiteral? c s == some []

/-- Leaves out the first `skip` characters and every string literal behind them. -/
def outsideLiteralsFrom : (skip : Nat) → Text → Text
  | _, [] => []
  | k + 1, _ :: s => outsideLiteralsFrom k s
  | 0, c :: s =>
    match if isQuote c then closeLiteral? c s else none with
    | some rest => outsideLiteralsFrom (s.length - rest.length) s
    | none => c :: outsideLiteralsFrom 0 s

/-- A text without its string literals. -/
def outsideLiterals (s : Text) : Text := outsideLiteralsFrom 0 s

/-- Looks for a comment in a text that begins at `offset`, inside the quotation mark `quote` if
there is one. -/
def commentFrom (quote : Option Char) (offset : Nat) : Text → Option Nat
  | [] => none
  | [_] => none
  | c :: d :: s =>
    match quote with
    | some mark =>
      if c = '\\' then commentFrom quote (offset + 2) s
      else commentFrom (if c = mark then none else quote) (offset + 1) (d :: s)
    | none =>
      if isQuote c then commentFrom (some c) (offset + 1) (d :: s)
      else if c = '/' ∧ d = '/' then some offset
      else commentFrom none (offset + 1) (d :: s)

/-- The place of the two slashes that begin a line's comment (`comment_start`). -/
def commentStart (line : Text) : Option Nat := commentFrom none 0 line

/-- A line up to its comment. -/
def beforeComment (line : Text) : Text :=
  match commentStart line with
  | some i => line.take i
  | none => line

/-- A line up to its comment and without string literals (`_code_portion`). -/
def codePortion (line : Text) : Text := outsideLiterals (beforeComment line)

/-- A literal takes at least its closing mark. -/
theorem length_of_closeLiteral? {mark : Char} {s r : Text} (h : closeLiteral? mark s = some r) :
    r.length < s.length := by
  fun_induction closeLiteral? mark s with
  | case1 => cases h
  | case2 => simp at h; subst h; simp
  | case3 => cases h
  | case4 => simp at h; subst h; simp
  | case5 => cases h
  | case6 d s _ _ ih => have := ih h; simp; omega
  | case7 c d s _ _ ih => have := ih h; simp at this ⊢; omega

theorem commentFrom_lt {quote : Option Char} {offset i : Nat} {s : Text}
    (h : commentFrom quote offset s = some i) : offset ≤ i ∧ i + 1 < offset + s.length := by
  fun_induction commentFrom quote offset s with
  | case1 => cases h
  | case2 => cases h
  | case3 offset mark d s ih => have := ih h; simp; omega
  | case4 offset c d s mark _ ih => have := ih h; simp at this ⊢; omega
  | case5 offset c d s _ ih => have := ih h; simp at this ⊢; omega
  | case6 offset c d s _ _ => simp at h; subst h; simp
  | case7 offset c d s _ _ ih => have := ih h; simp at this ⊢; omega

/-- A comment starts inside its line, and both its slashes are there. -/
theorem commentStart_lt {line : Text} {i : Nat} (h : commentStart line = some i) :
    i + 1 < line.length := by
  have := (commentFrom_lt h).2; omega

end BuildScript.Text
