import BuildScript.Yaml.Scalar
/-!
# Tokens of YAML

A text as scalars and the punctuation between them, indentation made explicit: a block collection
stands between a start token and an end token, and a key is announced by a token in front of it.

**Simple keys.** Whether a scalar is a key is known only at the colon behind it. The place of the
last token that could be one is remembered for each level of flow collections; a colon puts the key
token there. A key has to stand on one line, within 1024 characters of its colon. In a block
mapping a scalar at the indentation of the keys has to be a key.

**Faults.** Where a text cannot be read any further its tokens end with the fault, so that what is
wrong with the tokens in front of it is found first.

**What is left out.** Anchors, aliases, tags, directives and block scalars do not occur in settings
files and are refused.
-/
namespace BuildScript.Yaml

inductive Token where
  | streamEnd
  | documentStart
  | documentEnd
  | blockSequenceStart
  | blockMappingStart
  | blockEnd
  | flowSequenceStart
  | flowSequenceEnd
  | flowMappingStart
  | flowMappingEnd
  | blockEntry
  | flowEntry
  | key
  | value
  | scalar (text : Text) (plain : Bool)
  /-- The text cannot be read any further. -/
  | fault (fault : Fault)
deriving DecidableEq, Repr

/-- A token that may turn out to be a key: its number among the tokens, and where it stands. -/
structure SimpleKey where
  number : Nat
  required : Bool
  index : Nat
  line : Nat
  column : Nat

/-- How far a text has been read. -/
structure Scan where
  cursor : Cursor
  /-- The tokens so far, the last one first. -/
  tokens : List Token := []
  /-- The possible simple keys by level of flow collections. -/
  keys : List (Int × SimpleKey) := []
  allowKey : Bool := true
  indent : Int := -1
  indents : List Int := []
  flowLevel : Int := 0

namespace Scan

def inFlow (scan : Scan) : Bool := scan.flowLevel != 0

def emit (scan : Scan) (token : Token) : Scan := { scan with tokens := token :: scan.tokens }

/-- Puts a token in front of the one with the given number. -/
def emitAt (scan : Scan) (number : Nat) (token : Token) : Scan :=
  let behind := scan.tokens.length - number
  { scan with tokens := scan.tokens.take behind ++ token :: scan.tokens.drop behind }

def skip (scan : Scan) (n : Nat) : Scan := { scan with cursor := scan.cursor.skip n }

/-- Closes the block collections that are indented deeper than `column`. -/
def unwind (scan : Scan) (column : Int) : Scan :=
  if scan.inFlow then scan
  else
    let closed := (scan.indent :: scan.indents).takeWhile (· > column)
    let left := (scan.indent :: scan.indents).dropWhile (· > column)
    { scan with
      tokens := closed.map (fun _ => Token.blockEnd) ++ scan.tokens
      indent := left.headD (-1)
      indents := left.drop 1 }

/-- Opens a block collection at `column` if none is that deep, with the token in front of the one
of the given number. -/
def openBlock (scan : Scan) (column : Int) (number : Nat) (token : Token) : Scan :=
  if scan.indent < column then
    { scan.emitAt number token with indent := column, indents := scan.indent :: scan.indents }
  else scan

/-- Forgets the possible simple key of the current level, which must not have to be a key. -/
def forgetKey (scan : Scan) : Except Fault Scan :=
  match scan.keys.lookup scan.flowLevel with
  | some key =>
    if key.required then .error .malformed
    else .ok { scan with keys := scan.keys.filter fun (level, _) => level != scan.flowLevel }
  | none => .ok scan

/-- Forgets the possible simple keys that can no longer be keys. -/
def forgetStale (scan : Scan) : Except Fault Scan :=
  let isStale (key : SimpleKey) :=
    key.line != scan.cursor.line || decide (scan.cursor.index > key.index + 1024)
  if scan.keys.any fun (_, key) => isStale key && key.required then .error .malformed
  else .ok { scan with keys := scan.keys.filter fun (_, key) => !isStale key }

/-- Notes that the next token may be a simple key. -/
def noteKey (scan : Scan) : Except Fault Scan :=
  if scan.allowKey then do
    let required := !scan.inFlow && scan.indent == scan.cursor.column
    let scan ← scan.forgetKey
    let cursor := scan.cursor
    let key : SimpleKey :=
      ⟨scan.tokens.length, required, cursor.index, cursor.line, cursor.column⟩
    .ok { scan with keys := (scan.flowLevel, key) :: scan.keys }
  else .ok scan

/-- Skips blanks, comments and line breaks. A line break allows a key in block context. -/
def skipToToken (scan : Scan) : (fuel : Nat) → Scan
  | 0 => scan
  | fuel + 1 =>
    let rest := scan.cursor.rest.dropWhile (· == ' ')
    let rest := if rest.head? == some '#' then rest.dropWhile (!isBreak ·) else rest
    match rest with
    | c :: _ =>
      if isBreak c then
        let scan := { scan with
          cursor := scan.cursor.moveTo (readBreak rest).2
          allowKey := scan.allowKey || !scan.inFlow }
        skipToToken scan fuel
      else { scan with cursor := scan.cursor.moveTo rest }
    | [] => { scan with cursor := scan.cursor.moveTo rest }

def readMarker (scan : Scan) (token : Token) : Except Fault Scan := do
  let scan ← (scan.unwind (-1)).forgetKey
  .ok (({ scan with allowKey := false }.skip 3).emit token)

def readOpening (scan : Scan) (token : Token) : Except Fault Scan := do
  let scan ← scan.noteKey
  .ok (({ scan with flowLevel := scan.flowLevel + 1, allowKey := true }.skip 1).emit token)

def readClosing (scan : Scan) (token : Token) : Except Fault Scan := do
  let scan ← scan.forgetKey
  .ok (({ scan with flowLevel := scan.flowLevel - 1, allowKey := false }.skip 1).emit token)

def readFlowEntry (scan : Scan) : Except Fault Scan := do
  let scan ← { scan with allowKey := true }.forgetKey
  .ok ((scan.skip 1).emit .flowEntry)

def readBlockEntry (scan : Scan) : Except Fault Scan := do
  if !scan.inFlow && !scan.allowKey then .error .malformed
  let scan :=
    if scan.inFlow then scan
    else scan.openBlock scan.cursor.column scan.tokens.length .blockSequenceStart
  let scan ← { scan with allowKey := true }.forgetKey
  .ok ((scan.skip 1).emit .blockEntry)

def readKey (scan : Scan) : Except Fault Scan := do
  if !scan.inFlow && !scan.allowKey then .error .malformed
  let scan :=
    if scan.inFlow then scan
    else scan.openBlock scan.cursor.column scan.tokens.length .blockMappingStart
  let scan ← { scan with allowKey := !scan.inFlow }.forgetKey
  .ok ((scan.skip 1).emit .key)

def readValue (scan : Scan) : Except Fault Scan :=
  match scan.keys.lookup scan.flowLevel with
  | some key =>
    let scan := { scan with keys := scan.keys.filter fun (level, _) => level != scan.flowLevel }
    let scan := scan.emitAt key.number .key
    let scan :=
      if scan.inFlow then scan else scan.openBlock key.column key.number .blockMappingStart
    .ok (({ scan with allowKey := false }.skip 1).emit .value)
  | none => do
    if !scan.inFlow && !scan.allowKey then .error .malformed
    let scan :=
      if scan.inFlow then scan
      else scan.openBlock scan.cursor.column scan.tokens.length .blockMappingStart
    let scan ← { scan with allowKey := !scan.inFlow }.forgetKey
    .ok ((scan.skip 1).emit .value)

def readQuotedScalar (scan : Scan) (mark : Char) : Except Fault Scan := do
  let scan ← scan.noteKey
  let body := scan.cursor.rest.drop 1
  let (text, rest) ← readQuoted mark (body.length + 1) body
  .ok ({ scan with allowKey := false, cursor := scan.cursor.moveTo rest }.emit
    (.scalar text false))

def readPlainScalar (scan : Scan) : Except Fault Scan := do
  let scan ← scan.noteKey
  let (text, cursor, broken) :=
    readPlain scan.inFlow (scan.indent + 1) (scan.cursor.rest.length + 1) scan.cursor [] false
  .ok ({ scan with allowKey := broken, cursor }.emit (.scalar text true))

def finish (scan : Scan) : Except Fault Scan := do
  let scan ← (scan.unwind (-1)).forgetKey
  .ok (scan.emit .streamEnd)

/-- Reads the token that begins with `c` in front of `rest`. -/
def readToken (scan : Scan) (c : Char) (rest : Text) : Except Fault Scan :=
  let atMarker := scan.cursor.column == 0 && atDocumentMarker (c :: rest)
  if c == '%' && scan.cursor.column == 0 then .error .malformed
  else if c == '-' && atMarker then scan.readMarker .documentStart
  else if c == '.' && atMarker then scan.readMarker .documentEnd
  else if c == '[' then scan.readOpening .flowSequenceStart
  else if c == '\x7b' then scan.readOpening .flowMappingStart
  else if c == ']' then scan.readClosing .flowSequenceEnd
  else if c == '\x7d' then scan.readClosing .flowMappingEnd
  else if c == ',' then scan.readFlowEntry
  else if c == '-' && atSpace rest then scan.readBlockEntry
  else if c == '?' && (scan.inFlow || atSpace rest) then scan.readKey
  else if c == ':' && (scan.inFlow || atSpace rest) then scan.readValue
  else if c == '\'' || c == '"' then scan.readQuotedScalar c
  else if startsPlain scan.inFlow (c :: rest) then scan.readPlainScalar
  else .error .malformed

def step (scan : Scan) : Except Fault Scan := do
  let scan ← (scan.skipToToken (scan.cursor.rest.length + 1)).forgetStale
  let scan := scan.unwind scan.cursor.column
  match scan.cursor.rest with
  | [] => scan.finish
  | c :: rest => scan.readToken c rest

/-- The tokens that are settled, the last one first: a token that may still turn out to be a key is
not, nor are those behind it. -/
def settled (scan : Scan) : List Token :=
  match (scan.keys.map fun (_, key) => key.number).min? with
  | some number => scan.tokens.drop (scan.tokens.length - number)
  | none => scan.tokens

/-- Reads tokens to the end of the text, or up to a fault. -/
def readAll : (fuel : Nat) → Scan → List Token
  | 0, _ => [.fault .malformed]
  | fuel + 1, scan =>
    match scan.forgetStale with
    | .error fault => scan.settled.reverse ++ [.fault fault]
    | .ok scan =>
      match scan.step with
      | .error fault => scan.settled.reverse ++ [.fault fault]
      | .ok next =>
        if next.tokens.head? = some .streamEnd then next.tokens.reverse else readAll fuel next

end Scan

/-- Whether a character may stand in a text at all. -/
def isAllowed (c : Char) : Bool :=
  let n := c.toNat
  n == 9 || n == 10 || n == 13 || (0x20 ≤ n && n ≤ 0x7E) || n == 0x85 ||
    (0xA0 ≤ n && n ≤ 0xFFFD) || 0x10000 ≤ n

/-- The tokens of a text. A byte order mark in front is passed over. -/
def tokens (text : Text) : List Token :=
  if text.all isAllowed then
    let start : Cursor := ⟨text, 0, 0, 0⟩
    let start := if text.head? == some '\ufeff' then start.next else start
    Scan.readAll (text.length + 2) { cursor := start }
  else [.fault .malformed]

end BuildScript.Yaml
