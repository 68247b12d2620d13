import BuildScript.Text.Search
import BuildScript.Text.Literal
/-!
# Properties

A property is an assignment `key = value` that a line begins with. The key is a dotted name. The
value is the rest of the line up to its comment, blanks on both sides left out, and it is not
empty; when it is exactly one string literal the quotation marks do not belong to it. The clause
found runs from the key to the end of the value, marks included.

An assignment to `url` belongs to a repository and is not a property.
-/
namespace BuildScript

/-- An assignment of a value to a key. -/
structure Property where
  key : Text
  value : Text := []
deriving DecidableEq, Repr

namespace Property

/-- Keys whose assignments are not properties. -/
def reservedKeys : List Text := ["url".toList]

/-- A value without the quotation marks around it if it is a string literal. -/
def unquote (value : Text) : Text :=
  if Text.isLiteral value then value.dropLast.drop 1 else value

/-- Reads the clause of an assignment: the key, and what stands behind the equals sign without the
blanks there. A second equals sign makes it a comparison. -/
def readAssignment? : Text → Option (Text × Text)
  | [] => none
  | c :: s =>
    if Text.isIdentifierStart c then
      match Text.trimLeft (s.dropWhile Text.isDotted) with
      | '=' :: '=' :: _ => none
      | '=' :: rest => some (c :: s.takeWhile Text.isDotted, Text.trimLeft rest)
      | _ => none
    else none

/-- The value expression in what stands behind the equals sign. A line feed inside it leaves
nothing to assign. -/
def valueOf? (rest : Text) : Option Text :=
  let clause := Text.trimRight rest
  if '\n' ∈ clause then none
  else
    match Text.trimRight (Text.beforeComment clause) with
    | [] => none
    | value => some value

/-- The property that a line assigns (`PropertyRecognizer`). -/
def find? (line : Text) : Option (Found Property) := do
  let clause := Text.trimLeft line
  let (key, rest) ← readAssignment? clause
  let value ← valueOf? rest
  if key ∈ reservedKeys then none
  else some ⟨line.length - clause.length, line.length - rest.length + value.length,
    ⟨key, unquote value⟩⟩

end Property

end BuildScript
