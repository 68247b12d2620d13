import BuildScript.Value
import BuildScript.Yaml.Moment
/-!
# Scalars of YAML

The text of a scalar, read from where it begins, and the value that a plain scalar stands for.

**Places.** Indentation is meaningful, so a scalar is read with a `Cursor` that counts lines and
columns.

**Folding.** A line break inside a scalar becomes a space, and a line break followed by empty lines
becomes as many line breaks as there are empty lines. Blanks around a break are dropped.

**Plain scalars** end at a comment, at a colon that a blank follows, in a flow collection also at
its punctuation, and otherwise at the first line that is not indented enough.

**Types.** A plain scalar may stand for null, a truth value, a number or a moment; anything else is
text. A quoted scalar is always text. A scalar may have the form of a number or a moment and yet
stand for none; `Fault` says why.
-/
namespace BuildScript.Yaml

inductive Fault where
  /-- The text breaks the rules of the format. -/
  | malformed
  /-- Collections are nested too deeply. -/
  | tooDeep
  /-- A code behind a backslash is beyond the last code point. -/
  | codeBeyondLast
  /-- A code behind a backslash does not fit into 31 binary digits. -/
  | codeOverflow
  /-- A number of the given base has no digits. -/
  | noDigits (base : Nat)
  /-- A decimal number has too many digits. -/
  | tooManyDigits (count : Nat)
  /-- There is no such moment. -/
  | noSuchMoment (fault : MomentFault)
deriving DecidableEq, Repr

/-- A place in a text: what follows it, and how many characters, lines and columns lie in front. -/
structure Cursor where
  rest : Text
  index : Nat := 0
  line : Nat := 0
  column : Nat := 0

def isBreak (c : Char) : Bool :=
  c == '\n' || c == '\r' || c == '\x85' || c == '\u2028' || c == '\u2029'

/-- Whether a text is at its end or begins with a blank or a line break. -/
def atSpace : Text → Bool
  | [] => true
  | c :: _ => c == ' ' || c == '\t' || isBreak c

namespace Cursor

/-- One character further. A byte order mark takes no column. -/
def next (cursor : Cursor) : Cursor :=
  match cursor.rest with
  | [] => cursor
  | c :: rest =>
    let breaks := isBreak c && !(c == '\r' && rest.head? == some '\n')
    { rest
      index := cursor.index + 1
      line := if breaks then cursor.line + 1 else cursor.line
      column :=
        if breaks then 0 else if c == '\ufeff' then cursor.column else cursor.column + 1 }

def skip (cursor : Cursor) : Nat → Cursor
  | 0 => cursor
  | n + 1 => cursor.next.skip n

/-- At the place where only `rest` is left. -/
def moveTo (cursor : Cursor) (rest : Text) : Cursor :=
  cursor.skip (cursor.rest.length - rest.length)

end Cursor

/-- Whether a document marker begins here. -/
def atDocumentMarker (s : Text) : Bool :=
  match Text.after? "---".toList s, Text.after? "...".toList s with
  | some rest, _ => atSpace rest
  | none, some rest => atSpace rest
  | none, none => false

/-- Reads one line break; the common ones count as line feeds. -/
def readBreak : Text → Text × Text
  | '\r' :: '\n' :: s => (['\n'], s)
  | c :: s =>
    if c == '\n' || c == '\r' || c == '\x85' then (['\n'], s)
    else if isBreak c then ([c], s)
    else ([], c :: s)
  | [] => ([], [])

/-- What a line break and the empty lines behind it fold to. -/
def foldBreaks (first : Text) (others : List Text) : Text :=
  (if first ≠ ['\n'] then first else if others.isEmpty then [' '] else []) ++ others.flatten

/-! ### Quoted scalars -/

/-- Reads the empty lines behind a line break and the blanks in front of the next text. A document
marker may not stand there. -/
def readEmptyLines? : (fuel : Nat) → Text → Option (List Text × Text)
  | 0, _ => none
  | fuel + 1, s =>
    if atDocumentMarker s then none
    else
      let s := s.dropWhile fun c => c == ' ' || c == '\t'
      match s with
      | c :: _ =>
        if isBreak c then
          let (first, rest) := readBreak s
          (readEmptyLines? fuel rest).map fun (others, rest) => (first :: others, rest)
        else some ([], s)
      | [] => some ([], s)

/-- The characters that a letter behind a backslash stands for. -/
def escapes : List (Char × Char) :=
  [('0', '\x00'), ('a', '\x07'), ('b', '\x08'), ('t', '\x09'), ('\t', '\x09'), ('n', '\x0a'),
   ('v', '\x0b'), ('f', '\x0c'), ('r', '\x0d'), ('e', '\x1b'), (' ', ' '), ('"', '"'),
   ('\\', '\\'), ('/', '/'), ('N', '\x85'), ('_', '\xa0'), ('L', '\u2028'), ('P', '\u2029')]

/-- How many hexadecimal digits follow a letter behind a backslash. -/
def codeLength? (c : Char) : Option Nat :=
  if c = 'x' then some 2 else if c = 'u' then some 4 else if c = 'U' then some 8 else none

/-- The value of a digit of a base up to sixteen. -/
def digit? (base : Nat) (c : Char) : Option Nat :=
  let n := c.toNat
  let value :=
    if 48 ≤ n ∧ n ≤ 57 then some (n - 48)
    else if 97 ≤ n ∧ n ≤ 102 then some (n - 87)
    else if 65 ≤ n ∧ n ≤ 70 then some (n - 55)
    else none
  value.filter (· < base)

/-- The number that digits of a base stand for. -/
def number? (base : Nat) (digits : Text) : Option Nat :=
  digits.foldl (fun n c => n.bind fun n => (digit? base c).map (base * n + ·)) (some 0)

/-- The character of a code point; a code point that has none is shown by the character for
replacements. -/
def character (n : Nat) : Except Fault Char :=
  if 0x7FFFFFFF < n then .error .codeOverflow
  else if 0x10FFFF < n then .error .codeBeyondLast
  else .ok (if n.isValidChar then Char.ofNat n else '\ufffd')

/-- Reads a scalar behind its opening mark, up to and with the closing one. -/
def readQuoted (mark : Char) : (fuel : Nat) → Text → Except Fault (Text × Text)
  | 0, _ => .error .malformed
  | _ + 1, [] => .error .malformed
  | fuel + 1, c :: s =>
    let goOn (read : Text) (rest : Text) : Except Fault (Text × Text) :=
      (readQuoted mark fuel rest).map fun (value, rest) => (read ++ value, rest)
    let behindBreak (rest : Text) (fold : List Text → Text) : Except Fault (Text × Text) :=
      match readEmptyLines? fuel rest with
      | some (others, rest) => goOn (fold others) rest
      | none => .error .malformed
    if c == ' ' || c == '\t' || isBreak c then
      let blanks := (c :: s).takeWhile fun c => c == ' ' || c == '\t'
      let behind := (c :: s).dropWhile fun c => c == ' ' || c == '\t'
      match behind with
      | [] => .error .malformed
      | b :: _ =>
        if isBreak b then
          let (first, rest) := readBreak behind
          behindBreak rest (foldBreaks first)
        else goOn blanks behind
    else if c = mark then
      if mark = '\'' ∧ s.head? = some '\'' then goOn ['\''] (s.drop 1) else .ok ([], s)
    else if mark = '"' ∧ c = '\\' then
      match s with
      | [] => .error .malformed
      | e :: rest =>
        if isBreak e then behindBreak (readBreak s).2 List.flatten
        else
          match escapes.lookup e, codeLength? e with
          | some c, _ => goOn [c] rest
          | none, some length =>
            match if rest.length < length then none else number? 16 (rest.take length) with
            | some code => do goOn [← character code] (rest.drop length)
            | none => .error .malformed
          | none, none => .error .malformed
    else goOn [c] s

/-! ### Plain scalars -/

/-- Whether a character may begin a plain scalar, given what follows it. -/
def startsPlain (inFlow : Bool) : Text → Bool
  | [] => false
  | c :: s =>
    !(atSpace [c] || "-?:,[]\x7b\x7d#&*!|>'\"%@\x60".toList.elem c)
      || (!atSpace s && (c == '-' || (!inFlow && (c == '?' || c == ':'))))

/-- Whether a plain scalar ends in front of a text. -/
def endsPlain (inFlow : Bool) (s : Text) : Bool :=
  match s with
  | [] => true
  | c :: rest =>
    atSpace s
      || (c == ':' && (atSpace rest || (inFlow && (rest.head?.any ",[]\x7b\x7d".toList.elem))))
      || (inFlow && ",?[]\x7b\x7d".toList.elem c)

/-- Reads a piece of a plain scalar without blanks. -/
def readPiece (inFlow : Bool) : Text → Text × Text
  | [] => ([], [])
  | c :: s =>
    if endsPlain inFlow (c :: s) then ([], c :: s)
    else
      let (piece, rest) := readPiece inFlow s
      (c :: piece, rest)

/-- Reads the empty lines behind a line break in a plain scalar. A document marker ends it. -/
def readPlainLines? : (fuel : Nat) → Text → Option (List Text) × Text
  | 0, s => (none, s)
  | fuel + 1, s =>
    match s with
    | ' ' :: rest => readPlainLines? fuel rest
    | c :: _ =>
      if isBreak c then
        let (first, rest) := readBreak s
        if atDocumentMarker rest then (none, rest)
        else
          let (others, rest) := readPlainLines? fuel rest
          (others.map (first :: ·), rest)
      else (some [], s)
    | [] => (some [], s)

/-- What lies between two pieces of a plain scalar: the text it folds to, unless the scalar has to
end, whether there is a line break in it, and what follows. -/
def readPlainSpaces (s : Text) : Option Text × Bool × Text :=
  let blanks := s.takeWhile (· == ' ')
  let behind := s.dropWhile (· == ' ')
  match behind with
  | [] => (some blanks, false, behind)
  | c :: _ =>
    if isBreak c then
      let (first, rest) := readBreak behind
      if atDocumentMarker rest then (none, true, rest)
      else
        let (others, rest) := readPlainLines? (rest.length + 1) rest
        (others.map (foldBreaks first), true, rest)
    else (some blanks, false, behind)

/-- Reads a plain scalar, pieces at `indent` or deeper. Returns its text, the place behind it, and
whether a line break was the last thing read. -/
def readPlain (inFlow : Bool) (indent : Int) :
    (fuel : Nat) → (cursor : Cursor) → (spaces : Text) → (broken : Bool) → Text × Cursor × Bool
  | 0, cursor, _, broken => ([], cursor, broken)
  | fuel + 1, cursor, spaces, broken =>
    match (if cursor.rest.head? = some '#' then [] else (readPiece inFlow cursor.rest).1) with
    | [] => ([], cursor, broken)
    | c :: cs =>
      let piece := spaces ++ c :: cs
      let (folded, broken, rest) := readPlainSpaces (readPiece inFlow cursor.rest).2
      let cursor := cursor.moveTo rest
      match folded with
      | none | some [] => (piece, cursor, broken)
      | some folded =>
        if rest.head? = some '#' ∨ (!inFlow ∧ (cursor.column : Int) < indent) then
          (piece, cursor, broken)
        else
          let (value, cursor, broken) := readPlain inFlow indent fuel cursor folded broken
          (piece ++ value, cursor, broken)

/-! ### Types -/

/-- The spellings of a word in lower case, capitalised and in upper case. -/
def spellings (word : String) : List Text :=
  let lower := word.toList
  [lower, (lower.take 1).map Char.toUpper ++ lower.drop 1, lower.map Char.toUpper]

def nullWords : List Text := [] :: ['~'] :: spellings "null"

def trueWords : List Text := ["yes", "true", "on"].flatMap spellings

def falseWords : List Text := ["no", "false", "off"].flatMap spellings

/-- A text without its sign, and whether the sign was a minus. -/
def readSign : Text → Bool × Text
  | '-' :: s => (true, s)
  | '+' :: s => (false, s)
  | s => (false, s)

/-- Whether all characters are digits of a base or underscores, and there is one. -/
def isDigits (base : Nat) (s : Text) : Bool :=
  !s.isEmpty && s.all fun c => c == '_' || (digit? base c).isSome

/-- Whether a text is a decimal number: digits and underscores behind a leading digit. -/
def isDecimal (s : Text) : Bool :=
  isDigits 10 s && s.head? != some '_'

/-- Whether a text is one or two digits below sixty. -/
def isSixtieth (s : Text) : Bool :=
  match s with
  | [c] => (digit? 10 c).isSome
  | [c, d] => (digit? 6 c).isSome && (digit? 10 d).isSome
  | _ => false

/-- How many decimal digits a whole number may be written with. -/
def mostDigits : Nat := 4300

/-- The number that digits of a base stand for, underscores between them dropped. -/
def digits (base : Nat) (s : Text) : Except Fault Nat :=
  let s := s.filter (· != '_')
  if s = [] then .error (.noDigits base)
  else if base = 10 ∧ mostDigits < s.length then .error (.tooManyDigits s.length)
  else .ok ((number? base s).getD 0)

/-- The number that digits in sixtieths stand for, given the number in front of them. -/
def sixtieths (whole : Nat) : List Text → Except Fault Nat
  | [] => .ok whole
  | part :: rest => do sixtieths (60 * whole + (← digits 10 part)) rest

/-- The size of a whole number: binary, octal, hexadecimal, decimal or in sixtieths. -/
def magnitude? (s : Text) : Option (Except Fault Nat) :=
  match s with
  | ['0'] => some (.ok 0)
  | '0' :: 'b' :: t => if isDigits 2 t then some (digits 2 t) else none
  | '0' :: 'x' :: t => if isDigits 16 t then some (digits 16 t) else none
  | '0' :: t => if isDigits 8 t then some (digits 8 s) else none
  | _ =>
    match Text.fields ':' s with
    | first :: rest =>
      if isDecimal first && rest.all isSixtieth then
        some ((digits 10 first).bind fun whole => sixtieths whole rest)
      else none
    | [] => none

def wholeNumber? (s : Text) : Option (Except Fault Int) :=
  let (negative, rest) := readSign s
  (magnitude? rest).map fun n => n.map fun n => if negative then -(n : Int) else n

/-- Whether a text is an exponent: a letter, a sign and digits. -/
def isExponent (s : Text) : Bool :=
  match s with
  | [] => true
  | e :: sign :: rest =>
    (e == 'e' || e == 'E') && (sign == '+' || sign == '-') && !rest.isEmpty &&
      rest.all fun c => (digit? 10 c).isSome
  | _ => false

/-- Whether a plain scalar stands for a number with a fraction, or none. -/
def isFraction (s : Text) : Bool :=
  let rest := (readSign s).2
  let isFractional (c : Char) := c == '_' || (digit? 10 c).isSome
  let whole := rest.takeWhile (· != '.')
  match rest.dropWhile (· != '.') with
  | [] => false
  | _ :: behind =>
    let exponent := behind.dropWhile isFractional
    let special := (spellings "inf").elem behind && whole.isEmpty
      || ("nan".toList == behind || "NaN".toList == behind || "NAN".toList == behind)
        && s.head? == some '.'
    let inSixtieths := match Text.fields ':' whole with
      | first :: part :: parts =>
        isDecimal first && (part :: parts).all isSixtieth && exponent.isEmpty
      | _ => false
    special || inSixtieths
      || (isDecimal whole && isExponent exponent)
      || (s.head? == some '.' && isDecimal (behind.takeWhile isFractional) && isExponent exponent)

/-- The whole number that a text of decimal digits stands for, whatever else is in the text. -/
def decimal (s : Text) : Nat := (number? 10 (s.filter fun c => (digit? 10 c).isSome)).getD 0

def fraction (s : Text) : Binary64 :=
  let (negative, rest) := readSign s
  let whole := rest.takeWhile (· != '.')
  let behind := (rest.dropWhile (· != '.')).drop 1
  if (spellings "inf").elem behind then .infinite negative
  else if behind.head?.any fun c => c == 'n' || c == 'N' then .undefined
  else
    let places := (behind.takeWhile fun c => c != 'e' && c != 'E').filter (· != '_')
    let (negativeExponent, exponent) :=
      readSign ((behind.dropWhile fun c => c != 'e' && c != 'E').drop 1)
    let exponent : Int := if negativeExponent then -(decimal exponent : Int) else decimal exponent
    let whole := (Text.fields ':' whole).foldl (fun n part => 60 * n + decimal part) 0
    .ofDecimal negative (whole * Nat.pow 10 places.length + decimal places)
      (exponent - places.length)

def plainValue (s : Text) : Except Fault Value :=
  if nullWords.elem s then .ok .null
  else if trueWords.elem s then .ok (.bool true)
  else if falseWords.elem s then .ok (.bool false)
  else
    match wholeNumber? s with
    | some n => n.map .int
    | none =>
      if isFraction s then .ok (.fraction s (fraction s))
      else
        match Moment.read? s with
        | some moment =>
          match moment.check with
          | .ok () => .ok (.other s)
          | .error fault => .error (.noSuchMoment fault)
        | none => .ok (.text s)

end BuildScript.Yaml
