import BuildScript.Yaml.Token
/-!
# The structure of a YAML text

A text holds one document or none, and a document is a scalar, a sequence or a mapping. A node
that is left out is an empty plain scalar.

**Values.** `Node.value` turns a document into a structured value. Keys have to be scalars, and of
several values under one key the last counts. The fields of a mapping under the key `<<`, or of
each in a sequence of mappings, are put in front of the fields they stand beside. A lone `=` is no
value.

**Which fault counts.** Tokens are read from first to last. Values are found collection by
collection, those less deeply nested first, and the fields of a mapping are put together before
the scalars among them are read.
-/
namespace BuildScript.Yaml

inductive Node where
  | scalar (text : Text) (plain : Bool)
  | sequence (items : List Node)
  | mapping (fields : List (Node × Node))

namespace Node

/-- A node that is left out. -/
def absent : Node := .scalar [] true

/-- What is being read: a node, or what remains of a collection. -/
inductive Goal where
  /-- A node; in block context or not, and with a sequence allowed that is not indented. -/
  | node (block indentless : Bool)
  | blockEntries
  | indentlessEntries
  | blockFields
  | flowEntries (first : Bool)
  | flowFields (first : Bool)

/-- A node that may be left out in front of some tokens. -/
def isLeftOut (before : List Token) (tokens : List Token) : Bool :=
  match tokens with
  | token :: _ => before.elem token
  | [] => true

/-- Why no node can be read off some tokens. -/
def obstacle : List Token → Fault
  | .fault fault :: _ => fault
  | _ => .malformed

/-- How deeply collections may be nested. -/
def mostNested : Nat := 485

/-- Reads what a goal asks for and returns the rest of the tokens, with `room` for that many
collections inside one another. The nodes of a collection are returned as a sequence or mapping. -/
def read : (fuel : Nat) → (room : Nat) → Goal → List Token → Except Fault (Node × List Token)
  | 0, _, _, tokens => .error (obstacle tokens)
  | fuel + 1, room, goal, tokens =>
    let nodeUnless (before : List Token) (block indentless : Bool) (tokens : List Token) :
        Except Fault (Node × List Token) :=
      if isLeftOut before tokens then .ok (absent, tokens)
      else read fuel room (.node block indentless) tokens
    let collection (goal : Goal) (tokens : List Token) : Except Fault (Node × List Token) :=
      match room with
      | 0 => .error .tooDeep
      | room + 1 => read fuel room goal tokens
    let addItem (item : Node) (found : Node × List Token) : Except Fault (Node × List Token) :=
      match found with
      | (.sequence items, rest) => .ok (.sequence (item :: items), rest)
      | _ => .error .malformed
    let addField (key value : Node) (found : Node × List Token) :
        Except Fault (Node × List Token) :=
      match found with
      | (.mapping fields, rest) => .ok (.mapping ((key, value) :: fields), rest)
      | _ => .error .malformed
    let blockValue (tokens : List Token) : Except Fault (Node × List Token) :=
      match tokens with
      | .value :: rest => nodeUnless [.key, .value, .blockEnd] true true rest
      | _ => .ok (absent, tokens)
    let flowValue (closing : Token) (tokens : List Token) : Except Fault (Node × List Token) :=
      match tokens with
      | .value :: rest => nodeUnless [.flowEntry, closing] false false rest
      | _ => .ok (absent, tokens)
    let behindComma (first : Bool) (tokens : List Token) : Except Fault (List Token) :=
      if first then .ok tokens
      else
        match tokens with
        | .flowEntry :: rest => .ok rest
        | _ => .error (obstacle tokens)
    match goal, tokens with
    | .node _ true, .blockEntry :: _ => collection .indentlessEntries tokens
    | .node _ _, .scalar text plain :: rest => .ok (.scalar text plain, rest)
    | .node _ _, .flowSequenceStart :: rest => collection (.flowEntries true) rest
    | .node _ _, .flowMappingStart :: rest => collection (.flowFields true) rest
    | .node true _, .blockSequenceStart :: rest => collection .blockEntries rest
    | .node true _, .blockMappingStart :: rest => collection .blockFields rest
    | .node _ _, _ => .error (obstacle tokens)
    | .blockEntries, .blockEntry :: rest => do
      let (item, rest) ← nodeUnless [.blockEntry, .blockEnd] true false rest
      addItem item (← read fuel room .blockEntries rest)
    | .blockEntries, .blockEnd :: rest => .ok (.sequence [], rest)
    | .blockEntries, _ => .error (obstacle tokens)
    | .indentlessEntries, .blockEntry :: rest => do
      let (item, rest) ← nodeUnless [.blockEntry, .key, .value, .blockEnd] true false rest
      addItem item (← read fuel room .indentlessEntries rest)
    | .indentlessEntries, _ => .ok (.sequence [], tokens)
    | .blockFields, .key :: rest => do
      let (key, rest) ← nodeUnless [.key, .value, .blockEnd] true true rest
      let (value, rest) ← blockValue rest
      addField key value (← read fuel room .blockFields rest)
    | .blockFields, .blockEnd :: rest => .ok (.mapping [], rest)
    | .blockFields, _ => .error (obstacle tokens)
    | .flowEntries _, .flowSequenceEnd :: rest => .ok (.sequence [], rest)
    | .flowEntries first, _ => do
      let rest ← behindComma first tokens
      match rest with
      | .flowSequenceEnd :: rest => .ok (.sequence [], rest)
      | .key :: rest =>
        let (key, rest) ← nodeUnless [.value, .flowEntry, .flowSequenceEnd] false false rest
        let (value, rest) ← flowValue .flowSequenceEnd rest
        addItem (.mapping [(key, value)]) (← read fuel room (.flowEntries false) rest)
      | _ =>
        let (item, rest) ← read fuel room (.node false false) rest
        addItem item (← read fuel room (.flowEntries false) rest)
    | .flowFields _, .flowMappingEnd :: rest => .ok (.mapping [], rest)
    | .flowFields first, _ => do
      let rest ← behindComma first tokens
      match rest with
      | .flowMappingEnd :: rest => .ok (.mapping [], rest)
      | .key :: rest =>
        let (key, rest) ← nodeUnless [.value, .flowEntry, .flowMappingEnd] false false rest
        let (value, rest) ← flowValue .flowMappingEnd rest
        addField key value (← read fuel room (.flowFields false) rest)
      | _ =>
        let (key, rest) ← read fuel room (.node false false) rest
        addField key absent (← read fuel room (.flowFields false) rest)

/-- Reads a document to the end of the text, markers in front of it and behind it included. A text
without a document gives none. -/
def ofTokens (tokens : List Token) : Except Fault (Option Node) := do
  let readNode := read (2 * tokens.length + 2) mostNested (.node true false)
  let (node, rest) ←
    match tokens with
    | [.streamEnd] => return none
    | .documentStart :: rest =>
      if isLeftOut [.documentStart, .documentEnd, .streamEnd] rest then pure (absent, rest)
      else readNode rest
    | _ => readNode tokens
  match rest.dropWhile (· == .documentEnd) with
  | [.streamEnd] => return some node
  | rest => throw (obstacle rest)

/-! ### Values -/

/-- A fault in the value of a node, and its rank among several: the lowest rank counts, and the
first fault of that rank. -/
structure Ranked where
  rank : Nat
  fault : Fault

/-- The outcome of finding a value. -/
abbrev Valued (α : Type) := Except Ranked α

/-- Two values together, or the fault that counts. -/
def both {α β : Type} (a : Valued α) (b : Valued β) : Valued (α × β) :=
  match a, b with
  | .ok a, .ok b => .ok (a, b)
  | .ok _, .error e => .error e
  | .error e, .ok _ => .error e
  | .error e, .error e' => .error (if e'.rank < e.rank then e' else e)

/-- The rank of faults in the fields that are put together as a mapping at some depth. -/
def shapeRank (depth : Nat) : Nat := 2 * depth

/-- The rank of faults in the scalars of a collection at some depth. -/
def scalarRank (depth : Nat) : Nat := 2 * depth + 1

/-- Whether a node is the key that stands for the fields of other mappings. -/
def isMergeKey : Node → Bool
  | .scalar text true => text = "<<".toList
  | _ => false

def scalarValue (text : Text) (plain : Bool) : Except Fault Value :=
  if !plain then .ok (.text text)
  else if text = "<<".toList ∨ text = "=".toList then .error .malformed
  else plainValue text

def key : Node → Except Fault Key
  | .scalar text plain =>
    if plain ∧ text = "=".toList then .ok (.text text)
    else do
      match (← scalarValue text plain).key? with
      | some key => .ok key
      | none => .error .malformed
  | _ => .error .malformed

mutual

/-- The value that a node in a collection at some depth stands for. -/
def value (depth : Nat) : Node → Valued Value
  | .scalar text plain => (scalarValue text plain).mapError (Ranked.mk (scalarRank depth))
  | .sequence items => (values (depth + 1) items).map .list
  | .mapping fields => (pairs (depth + 1) fields).map fun pairs => .mapping (Fields.ofPairs pairs)

def values (depth : Nat) : List Node → Valued (List Value)
  | [] => .ok []
  | item :: rest => (both (value depth item) (values depth rest)).map fun (v, vs) => v :: vs

/-- The pairs that the fields of a mapping stand for, those merged in before its own. -/
def pairs (depth : Nat) (fields : List (Node × Node)) : Valued (List (Key × Value)) :=
  (both (mergedPairs depth fields) (ownPairs depth fields)).map fun (merged, own) => merged ++ own

/-- The pairs that are merged into a mapping. -/
def mergedPairs (depth : Nat) : List (Node × Node) → Valued (List (Key × Value))
  | [] => .ok []
  | (key, node) :: rest =>
    if key.isMergeKey then
      let merging :=
        match node with
        | .mapping fields => pairs depth fields
        | .sequence items => (itemPairs depth items).map fun lists => lists.reverse.flatten
        | .scalar _ _ => .error ⟨shapeRank depth, .malformed⟩
      (both merging (mergedPairs depth rest)).map fun (first, others) => first ++ others
    else mergedPairs depth rest

/-- The pairs of each of several mappings that are merged into one. -/
def itemPairs (depth : Nat) : List Node → Valued (List (List (Key × Value)))
  | [] => .ok []
  | item :: rest =>
    let own :=
      match item with
      | .mapping fields => pairs depth fields
      | _ => .error ⟨shapeRank depth, .malformed⟩
    (both own (itemPairs depth rest)).map fun (first, others) => first :: others

/-- The pairs of a mapping that are not merged in. -/
def ownPairs (depth : Nat) : List (Node × Node) → Valued (List (Key × Value))
  | [] => .ok []
  | (key, node) :: rest =>
    if key.isMergeKey then ownPairs depth rest
    else
      let found := both (key.key.mapError (Ranked.mk (scalarRank depth))) (value depth node)
      (both found (ownPairs depth rest)).map fun (pair, others) => pair :: others

end

end Node

/-- The value of a text, null if it holds no document. -/
def read (text : Text) : Except Fault Value := do
  match ← Node.ofTokens (tokens text) with
  | none => return .null
  | some node => (node.value 0).mapError (·.fault)

end BuildScript.Yaml
