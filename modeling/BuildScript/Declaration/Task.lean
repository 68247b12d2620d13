import BuildScript.Text.Search
/-!
# Tasks

A task is declared by the keyword form `task name`, perhaps with `(type: Name)` behind it, on a
line that begins with the keyword and a space, or by a call of `task`, `tasks.register` or
`tasks.create` with the quoted name. In a call the type is a type argument in angle brackets, or
else a class name behind the task's name.
-/
namespace BuildScript

structure Task where
  name : Text
  type : Text := []
deriving DecidableEq, Repr

namespace Task

/-- Reads one character behind blanks. -/
def readMark? (mark : Char) (s : Text) : Option Text :=
  match Text.trimLeft s with
  | c :: r => if c = mark then some r else none
  | [] => none

/-- Reads the clause `(type: Name)`. -/
def readTypeClause? (s : Text) : Option (Text × Text) := do
  let r ← readMark? '(' s
  let r ← Text.after? "type".toList (Text.trimLeft r)
  let r ← readMark? ':' r
  let r := Text.trimLeft r
  let rest ← readMark? ')' (r.dropWhile Text.isDotted)
  match r.takeWhile Text.isDotted with
  | [] => none
  | type => some (type, rest)

def readKeyword? (before : Option Char) (s : Text) : Option (Task × Text) := do
  if !Text.startsName before then none
  match ← Text.after? "task".toList s with
  | [] => none
  | blank :: r =>
    if !Text.isBlank blank then none
    match Text.trimLeft r with
    | [] => none
    | c :: t =>
      if !Text.isIdentifierStart c then none
      let name := c :: t.takeWhile Text.isWord
      let rest := t.dropWhile Text.isWord
      match readTypeClause? rest with
      | some (type, rest) => some (⟨name, type⟩, rest)
      | none => some (⟨name, []⟩, rest)

/-- The functions that declare a task. -/
def functions : List Text := ["tasks.register".toList, "tasks.create".toList, "task".toList]

/-- Reads a type argument in angle brackets, if there is one. A bracket that opens none is left
for the opening parenthesis to fail on. -/
def readTypeArgument (s : Text) : Text × Text :=
  match s with
  | '<' :: r =>
    match r.takeWhile Text.isDotted, r.dropWhile Text.isDotted with
    | c :: cs, '>' :: rest => (c :: cs, rest)
    | _, _ => ([], s)
  | _ => ([], s)

/-- Skips what turns a class name into a class value. -/
def skipClassSuffix (s : Text) : Text :=
  match Text.after? "::class".toList s with
  | some r => (Text.after? ".java".toList r).getD r
  | none => s

/-- Reads a class name behind a comma, if there is one, and the closing parenthesis. -/
def readClassAndClosing? (s : Text) : Option (Text × Text) :=
  match readMark? ',' s with
  | none => (readMark? ')' s).map fun rest => ([], rest)
  | some r =>
    match Text.trimLeft r with
    | [] => none
    | c :: t =>
      if 'A' ≤ c ∧ c ≤ 'Z' then
        (readMark? ')' (skipClassSuffix (t.dropWhile Text.isDotted))).map fun rest =>
          (c :: t.takeWhile Text.isDotted, rest)
      else none

/-- Reads the call form behind the name of the function. -/
def readCallTail? (s : Text) : Option (Task × Text) := do
  let (argument, r) := readTypeArgument s
  let r ← Text.after? ['('] r
  let (_, name, r) ← Text.readQuoted? (Text.trimLeft r)
  if name = [] then none
  let (className, rest) ← readClassAndClosing? r
  some (⟨name, if argument = [] then className else argument⟩, rest)

def readCall? (before : Option Char) (s : Text) : Option (Task × Text) :=
  if Text.startsName before then
    functions.findSome? fun function => (Text.after? function s).bind readCallTail?
  else none

/-- The task that a line declares (`TaskRecognizer`). The keyword form is looked for on lines that
begin with the keyword, the call form on all of them. -/
def find? (line : Text) : Option (Found Task) :=
  let keyword :=
    if Text.startsWith "task ".toList (Text.trimLeft line) then Text.searchIn readKeyword? line
    else none
  keyword.or (Text.searchIn readCall? line)

end Task

end BuildScript
