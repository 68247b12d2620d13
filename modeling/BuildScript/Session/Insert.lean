import BuildScript.Session
import BuildScript.Block
/-!
# Adding declarations

A new declaration becomes a line of its own, in front of the line that closes the block it belongs
to. It is written in the style of the script: as a call with double quotes where the first
coordinate, or failing that the first plugin, is declared by a call, and with the marks of the
options otherwise.
-/
namespace BuildScript

namespace Session

/-- Whether the script declares things by calls (`_uses_call_syntax`). -/
def usesCalls (s : Session) : Bool :=
  let isCoordinate (entry : Entry) :=
    (entry.declaration.dependency?).any fun d => !d.isProjectReference
  match s.index.entries.find? isCoordinate with
  | some entry =>
    let line := s.index.lineText entry.region.first.line
    let before := Text.slice line 0 (entry.region.first.column - 1)
    Text.endsWith ['('] (Text.trimRight before)
  | none =>
    match s.index.entries.find? fun entry => entry.kind = .plugin with
    | some entry =>
      Text.startsWith "id(".toList entry.rawText || Text.startsWith "id (".toList entry.rawText
    | none => false

/-- Puts a declaration on a line of its own at the end of a block (`_insert_into_block`). -/
def insertInto (s : Session) (block declaration description : Text) : Attempt :=
  match Block.closingLine block s.index.lines with
  | .error fault => { session := s, fault := some fault }
  | .ok line =>
    let offset := (Text.lineStarts s.index.text).getD line 0
    { session := s.recordInsertion
        ⟨.insert, .point (line + 1) 1 offset, [], s.options.indent ++ declaration ++ ['\n'],
          description⟩ }

/-- The argument `body` in the marks of the options. -/
def marked (s : Session) (body : Text) : Text := s.options.mark ++ body ++ s.options.mark

/-- The argument `body` between double quotes. -/
def doubleQuoted (body : Text) : Text := '"' :: body ++ ['"']

/-- Adds a dependency; without a scope it is declared under the default one (`add_dependency`). -/
def addDependency (s : Session) (group name version : Text) (scope : Option Text) : Attempt :=
  let scope := match scope with
    | some scope => if scope = [] then s.options.defaultScope else scope
    | none => s.options.defaultScope
  let coordinate := Text.joinWith [':'] ([group, name, version].filter (· != []))
  let declaration :=
    if s.usesCalls then scope ++ '(' :: doubleQuoted coordinate ++ [')']
    else scope ++ ' ' :: s.marked coordinate
  s.insertInto "dependencies".toList declaration
    ("Add dependency ".toList ++ coordinate ++ " with scope ".toList ++ scope)

/-- Adds a plugin (`add_plugin`). -/
def addPlugin (s : Session) (id version : Text) : Attempt :=
  let clause (argument : Text) := if version = [] then [] else " version ".toList ++ argument
  let declaration :=
    if s.usesCalls then "id(".toList ++ doubleQuoted id ++ ')' :: clause (doubleQuoted version)
    else "id ".toList ++ s.marked id ++ clause (s.marked version)
  s.insertInto "plugins".toList declaration ("Add plugin ".toList ++ id ++ clause version)

/-- Adds a repository: a well-known one by its name, any other by its address (`add_repository`). -/
def addRepository (s : Session) (nameOrUrl : Text) : Attempt :=
  if nameOrUrl ∈ Repository.wellKnown then
    s.insertInto "repositories".toList (nameOrUrl ++ ['(', ')'])
      ("Add repository ".toList ++ nameOrUrl)
  else
    let address :=
      if s.usesCalls then "= uri(".toList ++ doubleQuoted nameOrUrl ++ [')']
      else s.marked nameOrUrl
    s.insertInto "repositories".toList
      ("maven \x7b url ".toList ++ address ++ " \x7d".toList)
      ("Add repository ".toList ++ Repository.nameOfUrl nameOrUrl ++ " (".toList ++ nameOrUrl ++
        [')'])

end Session

end BuildScript
