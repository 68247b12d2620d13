import BuildScript.Text.Search
/-!
# Dependencies

A dependency is declared by a quoted coordinate `group:name` or `group:name:version`, or by a
reference to another project of the same build. The scope it is declared under is the word that
the line begins with, unless that word introduces something else.

**Coordinates.** Between its quotation marks a coordinate has no blanks and no marks, and something
stands in front of its first colon. A quoted address (`://`) and a coordinate without a name are
passed over, and the search goes on behind their closing marks. Parts behind the version are kept
in the script and are of no interest here.
-/
namespace BuildScript

structure Dependency where
  group : Text := []
  name : Text
  version : Text := []
  scope : Text := []
  /-- The declaring text: the quoted coordinate or the project reference. -/
  raw : Text := []
deriving DecidableEq, Repr

/-- What a coordinate names. -/
structure Coordinate where
  group : Text
  name : Text
  version : Text := []
deriving DecidableEq, Repr

namespace Coordinate

/-- Cuts a coordinate at its colons (`_split_coordinate`). Group and name must not be empty. -/
def ofText? (s : Text) : Option Coordinate :=
  match Text.fields ':' s with
  | group :: name :: rest =>
    if group = [] ∨ name = [] then none
    else some ⟨group, name, rest.headD []⟩
  | _ => none

/-- What may stand in front of the first colon. -/
def isGroupChar (c : Char) : Bool := !Text.isQuote c && !Text.isBlank c && c != ':'

/-- What may stand behind it. -/
def isNameChar (c : Char) : Bool := !Text.isQuote c && !Text.isBlank c

/-- Reads a quoted body with a colon in it. -/
def readBody? : Text → Option (Text × Text)
  | [] => none
  | mark :: s =>
    if Text.isQuote mark then
      match s.takeWhile isGroupChar, s.dropWhile isGroupChar with
      | _ :: _, ':' :: t =>
        match t.takeWhile isNameChar, t.dropWhile isNameChar with
        | d :: ds, c :: rest =>
          if c = mark then some (s.takeWhile isGroupChar ++ ':' :: d :: ds, rest) else none
        | _, _ => none
      | _, _ => none
    else none

/-- The coordinate in a quoted body, unless the body is an address. -/
def ofBody? (body : Text) : Option Coordinate :=
  if Text.contains "://".toList body then none else ofText? body

/-- The first coordinate of a text that begins at `offset`; `skip` characters in front belong to a
quoted body already passed over. -/
def findFrom? : (skip offset : Nat) → Text → Option (Found Coordinate)
  | _, _, [] => none
  | k + 1, offset, _ :: s => findFrom? k (offset + 1) s
  | 0, offset, c :: s =>
    match readBody? (c :: s) with
    | none => findFrom? 0 (offset + 1) s
    | some (body, rest) =>
      match ofBody? body with
      | some coordinate =>
        some ⟨offset, offset + ((s.length + 1) - rest.length), coordinate⟩
      | none => findFrom? (s.length - rest.length) (offset + 1) s

/-- The first quoted coordinate of a line. -/
def find? (line : Text) : Option (Found Coordinate) := findFrom? 0 0 line

end Coordinate

namespace Dependency

/-- Group, name and, if there is one, version, between colons. -/
def coordinate (d : Dependency) : Text :=
  d.group ++ ':' :: d.name ++ if d.version = [] then [] else ':' :: d.version

/-- Whether the dependency is another project of the build (`is_project_reference`). -/
def isProjectReference (d : Dependency) : Bool :=
  d.group = [] && Text.startsWith "project(".toList d.raw

/-- Words at the front of a line that are not scopes. -/
def nonScopes : List Text :=
  ["id".toList, "url".toList, "maven".toList, "apply".toList, "group".toList, "version".toList,
   "project".toList]

/-- The scope a line declares its dependency under, empty if it names none (`_scope`). -/
def scopeOf (line : Text) : Text :=
  match Text.trimLeft line with
  | [] => []
  | c :: s =>
    if Text.isIdentifierStart c then
      let word := c :: s.takeWhile Text.isWord
      if word ∈ nonScopes then [] else word
    else []

/-- Skips the label `path:` and the blanks in and behind it, if it is there. -/
def skipPathLabel (s : Text) : Text :=
  match (Text.after? "path".toList s).map Text.trimLeft with
  | some (':' :: r) => Text.trimLeft r
  | _ => s

/-- Reads a project reference and returns the project's name. -/
def readReference? (s : Text) : Option (Text × Text) := do
  let r ← Text.after? "project(".toList s
  match skipPathLabel (Text.trimLeft r) with
  | mark :: ':' :: t =>
    if Text.isQuote mark then
      match t.dropWhile (!Text.isQuote ·) with
      | _ :: u =>
        match Text.trimLeft u with
        | ')' :: rest => some (t.takeWhile (!Text.isQuote ·), rest)
        | _ => none
      | [] => none
    else none
  | _ => none

/-- The dependency that a line declares: by its first coordinate, else by a project reference
(`DependencyRecognizer`). -/
def find? (line : Text) : Option (Found Dependency) :=
  match Coordinate.find? line with
  | some found =>
    let c := found.value
    some (found.map fun _ => ⟨c.group, c.name, c.version, scopeOf line, found.text line⟩)
  | none =>
    match Text.searchIn (fun _ s => readReference? s) line with
    | some found =>
      some (found.map fun name => ⟨[], name, [], scopeOf line, found.text line⟩)
    | none => none

end Dependency

end BuildScript
