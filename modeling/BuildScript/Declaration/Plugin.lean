import BuildScript.Text.Search
/-!
# Plugins

A plugin is declared by `id 'name'`, with or without a call parenthesis, and perhaps a clause
`version '1.0'` behind it, or by `apply plugin: 'name'`, which never has a version.

**Versions.** `setVersion?` writes a version into a declaration: over the one of the first quoted
version clause, else in a clause of its own behind the identifier. A declaration by `apply` has
no place for it.
-/
namespace BuildScript

structure Plugin where
  id : Text
  version : Text := []
  apply : Bool := true
deriving DecidableEq, Repr

namespace Plugin

/-- Reads `id` and its argument, without a closing parenthesis. -/
def readId? (before : Option Char) (s : Text) : Option ((Char × Text) × Text) := do
  if !Text.startsWord before then none
  let r ← Text.after? "id".toList s
  let (mark, name, rest) ← Text.readArgument? r
  if name = [] then none else some ((mark, name), rest)

/-- Reads `id`, its argument and a closing parenthesis if there is one. -/
def readIdCall? (before : Option Char) (s : Text) : Option ((Char × Text) × Text) :=
  (readId? before s).map fun (found, rest) => (found, Text.skipCallClosing rest)

/-- Reads a version clause behind an identifier; at least one blank stands between them. -/
def readVersion? : Text → Option (Text × Text)
  | [] => none
  | c :: s =>
    if Text.isBlank c then do
      let r ← Text.after? "version".toList (Text.trimLeft s)
      let (_, version, rest) ← Text.readArgument? r
      some (version, Text.skipCallClosing rest)
    else none

def readDeclaration? (before : Option Char) (s : Text) : Option (Plugin × Text) := do
  let ((_, name), rest) ← readIdCall? before s
  match readVersion? rest with
  | some (version, rest) => some (⟨name, version, true⟩, rest)
  | none => some (⟨name, [], true⟩, rest)

/-- Reads a declaration by `apply plugin:`. -/
def readApplication? (before : Option Char) (s : Text) : Option (Plugin × Text) := do
  if !Text.startsWord before then none
  match ← Text.after? "apply".toList s with
  | [] => none
  | c :: r =>
    if !Text.isBlank c then none
    match Text.trimLeft (← Text.after? "plugin".toList (Text.trimLeft r)) with
    | ':' :: t =>
      let (_, name, rest) ← Text.readQuoted? (Text.trimLeft t)
      if name = [] then none else some (⟨name, [], true⟩, rest)
    | _ => none

/-- The plugin that a line declares: by `id`, else by `apply` (`PluginRecognizer`). -/
def find? (line : Text) : Option (Found Plugin) :=
  (Text.searchIn readDeclaration? line).or (Text.searchIn readApplication? line)

/-- Reads a quoted version clause and returns the version's length and distance from the clause's
start. -/
def readVersionPlace? (before : Option Char) (s : Text) : Option ((Nat × Nat) × Text) := do
  if !Text.startsWord before then none
  let r ← Text.after? "version".toList s
  let (_, version, rest) ← Text.readArgument? r
  some ((s.length - rest.length - 1 - version.length, version.length), rest)

/-- A declaration with its version set to `version`, if it has a place for one
(`_substitute_plugin_version`). -/
def setVersion? (raw version : Text) : Option Text :=
  match Text.searchIn readVersionPlace? raw with
  | some found =>
    let (distance, length) := found.value
    some (raw.take (found.start + distance) ++ version ++
      raw.drop (found.start + distance + length))
  | none =>
    match Text.searchIn readIdCall? raw with
    | some found =>
      let mark := found.value.1
      some (raw.take found.stop ++ " version ".toList ++ mark :: version ++
        mark :: raw.drop found.stop)
    | none => none

end Plugin

end BuildScript
