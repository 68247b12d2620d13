import BuildScript.Text.Basic
/-!
# Text for a terminal

What is printed goes to files and pipes as well as to terminals, so control sequences that colour
or move are left out of it: an escape character, an opening bracket, parameters and a letter.
-/
namespace BuildScript.Text

/-- A parameter of a control sequence. -/
def isControlParameter (c : Char) : Bool := c == ';' || c == '?' || c.isDigit

/-- The number of characters that a control sequence takes behind its escape character, or none if
no sequence stands there. -/
def controlLength? : Text → Option Nat
  | '[' :: s =>
    let parameters := s.takeWhile isControlParameter
    match s.dropWhile isControlParameter with
    | c :: _ => if c.isAlpha then some (parameters.length + 2) else none
    | [] => none
  | _ => none

/-- Leaves out the first `skip` characters and every control sequence behind them. -/
def plainFrom : (skip : Nat) → Text → Text
  | _, [] => []
  | k + 1, _ :: s => plainFrom k s
  | 0, c :: s =>
    match if c = '\x1b' then controlLength? s else none with
    | some length => plainFrom length s
    | none => c :: plainFrom 0 s

/-- A text without control sequences. -/
def plain (s : Text) : Text := plainFrom 0 s

end BuildScript.Text
