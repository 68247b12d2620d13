import BuildScript.Complaint
import BuildScript.Index.Parse
import BuildScript.Session
/-!
# Settings

Settings have three sections: what the parser looks for, how the editor writes, and how much is
logged. A section or a field that is left out has its default.

**Merging.** `Settings.merge` lays one mapping over another: where both hold a mapping under a key
the two are merged, and otherwise the upper value counts. A settings file is merged over
`Settings.template`, which spells the defaults out.

**Levels.** A log level is known by its name, in letters of either case; a letter counts as the
capital letters that it has the upper case of.

Results:
* `ofFields_template`: the template stands for the default settings.
-/
namespace BuildScript

/-- What the parser looks for. -/
structure ParserSettings where
  skipComments : Bool := true
  dependencies : Bool := true
  plugins : Bool := true
  repositories : Bool := true
  tasks : Bool := true
deriving DecidableEq, Repr

namespace ParserSettings

/-- Whether declarations of a kind are looked for. Properties always are. -/
def looksFor (settings : ParserSettings) : Kind → Bool
  | .property => true
  | .dependency => settings.dependencies
  | .plugin => settings.plugins
  | .repository => settings.repositories
  | .task => settings.tasks

/-- The kinds of declaration that are looked for (`enabled_kinds`). -/
def kinds (settings : ParserSettings) : List Kind := Kind.all.filter settings.looksFor

/-- How a script is read under these settings. -/
def options (settings : ParserSettings) : ParseOptions :=
  ({ skipComments := settings.skipComments } : ParseOptions).restrictTo settings.kinds

def ofFields (fields : Fields) : Checked ParserSettings :=
  let flag (name : String) := fields.optional name true Value.readBool
  ((((fields.onlyNamed ["skip_comments", "parse_dependencies", "parse_plugins",
      "parse_repositories", "parse_tasks"]).both (flag "skip_comments")).both
    ((flag "parse_dependencies").both (flag "parse_plugins"))).both
    ((flag "parse_repositories").both (flag "parse_tasks"))).map
      fun (((_, skipComments), dependencies, plugins), repositories, tasks) =>
        ⟨skipComments, dependencies, plugins, repositories, tasks⟩

end ParserSettings

namespace EditorOptions

def readMark : Value → Checked Text
  | .text [c] => if Text.isQuote c then .ok [c] else .fail .notMark
  | _ => .fail .notMark

def ofFields (fields : Fields) : Checked EditorOptions :=
  let defaults : EditorOptions := {}
  (((fields.onlyNamed ["indent", "default_scope", "quote"]).both
    (fields.optional "indent" defaults.indent Value.readText)).both
    ((fields.optional "default_scope" defaults.defaultScope Value.readText).both
      (fields.optional "quote" defaults.mark readMark))).map
      fun ((_, indent), defaultScope, mark) => ⟨indent, defaultScope, mark⟩

end EditorOptions

/-- How much is logged. -/
structure LoggingSettings where
  level : Text := "WARNING".toList
deriving DecidableEq, Repr

namespace LoggingSettings

def ofFields (fields : Fields) : Checked LoggingSettings :=
  ((fields.onlyNamed ["level"]).both
    (fields.optional "level" ({} : LoggingSettings).level Value.readText)).map
      fun (_, level) => ⟨level⟩

/-- The capital letters that a character has as its upper case, as far as ASCII goes. -/
def capitals (c : Char) : Text :=
  if c.toNat < 128 then [c.toUpper]
  else if c = 'ß' then ['S', 'S']
  else if c = 'ı' then ['I']
  else if c = 'ſ' then ['S']
  else if c = 'ﬀ' then ['F', 'F']
  else if c = 'ﬁ' then ['F', 'I']
  else if c = 'ﬂ' then ['F', 'L']
  else if c = 'ﬃ' then ['F', 'F', 'I']
  else if c = 'ﬄ' then ['F', 'F', 'L']
  else if c = 'ﬅ' then ['S', 'T']
  else if c = 'ﬆ' then ['S', 'T']
  else [c]

def levels : List (Text × Nat) :=
  [("CRITICAL".toList, 50), ("FATAL".toList, 50), ("ERROR".toList, 40), ("WARN".toList, 30),
   ("WARNING".toList, 30), ("INFO".toList, 20), ("DEBUG".toList, 10), ("NOTSET".toList, 0)]

def levelNumber? (level : Text) : Option Nat := levels.lookup (level.flatMap capitals)

end LoggingSettings

structure Settings where
  parser : ParserSettings := {}
  editor : EditorOptions := {}
  logging : LoggingSettings := {}
deriving DecidableEq, Repr

namespace Settings

/-- Reads a section, which must be a mapping. -/
def readSection {α : Type} (name : String) (read : Fields → Checked α) : Value → Checked α
  | .mapping fields => read fields
  | _ => .fail (.notSection name.toList)

def ofFields (fields : Fields) : Checked Settings :=
  (((fields.onlyNamed ["parser", "editor", "logging"]).both
    (fields.optional "parser" {} (readSection "ParserSettings" ParserSettings.ofFields))).both
    ((fields.optional "editor" {} (readSection "EditorSettings" EditorOptions.ofFields)).both
      (fields.optional "logging" {}
        (readSection "LoggingSettings" LoggingSettings.ofFields)))).map
      fun ((_, parser), editor, logging) => ⟨parser, editor, logging⟩

/-- The defaults spelled out (`DEFAULT_CONFIG_TEMPLATE`). -/
def template : Fields :=
  let named (name : String) (value : Value) : Key × Value := (.text name.toList, value)
  let flag (name : String) := named name (.bool true)
  [named "parser" (.mapping [flag "skip_comments", flag "parse_dependencies",
     flag "parse_plugins", flag "parse_repositories", flag "parse_tasks"]),
   named "editor" (.mapping [named "indent" (.text "    ".toList),
     named "default_scope" (.text "implementation".toList), named "quote" (.text ['\''])]),
   named "logging" (.mapping [named "level" (.text "WARNING".toList)])]

mutual

def mergeValue (lower : Option Value) (upper : Value) : Value :=
  match upper with
  | .mapping fields =>
    match lower with
    | some (.mapping base) => .mapping (merge base fields)
    | _ => upper
  | _ => upper

/-- Lays fields over others (`_merge`). -/
def merge (base : Fields) (upper : List (Key × Value)) : Fields :=
  match upper with
  | [] => base
  | (key, value) :: rest => merge (base.put key (mergeValue (base.get? key) value)) rest

end

/-- The template stands for the default settings. -/
theorem ofFields_template : ofFields template = .ok {} := by rfl

end Settings

end BuildScript
