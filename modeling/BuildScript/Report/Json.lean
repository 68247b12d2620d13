import BuildScript.Value
import BuildScript.Text.Quoted
/-!
# JSON

Structured values written as JSON: one item or field a line, two spaces of indentation for each
level, empty collections as a pair of brackets. A text is written in ASCII: the quotation mark,
the backslash and the common control characters by a letter behind a backslash, everything else
beyond the printable characters by its UTF-16 units behind `\u`.
-/
namespace BuildScript.Json

/-- A UTF-16 unit behind a backslash. -/
def escapeUnit (n : Nat) : Text := '\\' :: 'u' :: Text.hexadecimal 4 n

/-- How one character of a text is written. -/
def writeChar (c : Char) : Text :=
  let n := c.toNat
  if c = '"' ∨ c = '\\' then ['\\', c]
  else if c = '\n' then ['\\', 'n']
  else if c = '\r' then ['\\', 'r']
  else if c = '\t' then ['\\', 't']
  else if c = '\x08' then ['\\', 'b']
  else if c = '\x0c' then ['\\', 'f']
  else if 32 ≤ n ∧ n < 127 then [c]
  else if n < 0x10000 then escapeUnit n
  else
    escapeUnit (0xD800 + (n - 0x10000) / 0x400) ++ escapeUnit (0xDC00 + (n - 0x10000) % 0x400)

def writeText (s : Text) : Text := '"' :: s.flatMap writeChar ++ ['"']

/-- A line break and the indentation of a level. -/
def newLine (level : Nat) : Text := '\n' :: List.replicate (2 * level) ' '

/-- The items of a collection between its brackets. -/
def bracket (left right : Char) (level : Nat) (items : List Text) : Text :=
  if items.isEmpty then [left, right]
  else
    left :: Text.joinWith [','] (items.map fun item => newLine (level + 1) ++ item) ++
      newLine level ++ [right]

mutual

/-- A value as JSON, at a level of indentation. -/
def write (level : Nat) : Value → Text
  | .null => "null".toList
  | .bool b => if b then "true".toList else "false".toList
  | .int n => Text.ofInt n
  | .fraction written _ => written
  | .other written => written
  | .text s => writeText s
  | .list items => bracket '[' ']' level (writeItems (level + 1) items)
  | .mapping fields => bracket '\x7b' '\x7d' level (writeFields (level + 1) fields)

def writeItems (level : Nat) : List Value → List Text
  | [] => []
  | item :: rest => write level item :: writeItems level rest

def writeFields (level : Nat) : List (Key × Value) → List Text
  | [] => []
  | (key, value) :: rest =>
    (writeText key.written ++ ": ".toList ++ write level value) :: writeFields level rest

end

end BuildScript.Json
