import BuildScript.Text.Printable
/-!
# Quoted texts in messages

A text that a message mentions stands between apostrophes, or between double quotes if it holds an
apostrophe and no double quote. The mark itself and the backslash are written behind a backslash,
tab, line feed and carriage return as `\t`, `\n` and `\r`, and any other character that is not
printable by its code point: two hexadecimal digits behind `\x`, four behind `\u` or eight behind
`\U`, whichever is the first that fits.
-/
namespace BuildScript.Text

/-- The lower-case hexadecimal digits of `n`, at least `width` of them. -/
def hexadecimal (width n : Nat) : Text :=
  let digits := Nat.toDigits 16 n
  List.replicate (width - digits.length) '0' ++ digits

/-- The code point of a character behind a backslash. -/
def escapeCodePoint (n : Nat) : Text :=
  if n < 0x100 then '\\' :: 'x' :: hexadecimal 2 n
  else if n < 0x10000 then '\\' :: 'u' :: hexadecimal 4 n
  else '\\' :: 'U' :: hexadecimal 8 n

/-- How one character is written inside the quotation mark `mark`. -/
def quoteChar (mark c : Char) : Text :=
  if c = mark ∨ c = '\\' then ['\\', c]
  else if c = '\t' then ['\\', 't']
  else if c = '\n' then ['\\', 'n']
  else if c = '\r' then ['\\', 'r']
  else if isPrintable c then [c]
  else escapeCodePoint c.toNat

/-- The quotation mark that a text is written in. -/
def quotationMark (s : Text) : Char :=
  if '\'' ∈ s ∧ '"' ∉ s then '"' else '\''

/-- A text as messages quote it. -/
def quoted (s : Text) : Text :=
  let mark := quotationMark s
  mark :: s.flatMap (quoteChar mark) ++ [mark]

end BuildScript.Text
