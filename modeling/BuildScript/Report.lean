import BuildScript.Index
import BuildScript.Report.Json
/-!
# Reports on a script

What a script declares, as a listing to read and as structured values to process.
-/
namespace BuildScript.Report

/-! ### Structured values -/

def field (name : String) (value : Value) : Key × Value := (.text name.toList, value)

def textField (name : String) (value : Text) : Key × Value := field name (.text value)

def intField (name : String) (value : Int) : Key × Value := field name (.int value)

def position (p : Position) : Value :=
  .mapping [intField "line" p.line, intField "column" p.column, intField "start_byte" p.start,
    intField "end_byte" p.stop, intField "length" p.length]

def region (r : Region) : Value :=
  .mapping [field "start" (position r.first), field "end" (position r.last)]

def record : Declaration → Value
  | .property p => .mapping [textField "key" p.key, textField "value" p.value]
  | .dependency d =>
    .mapping [textField "group" d.group, textField "name" d.name, textField "version" d.version,
      textField "scope" d.scope, textField "raw" d.raw]
  | .plugin p =>
    .mapping [textField "id" p.id, textField "version" p.version, field "apply" (.bool p.apply)]
  | .repository r =>
    .mapping [textField "name" r.name, textField "type" r.type, textField "url" r.url]
  | .task t => .mapping [textField "name" t.name, textField "type" t.type]

def entry (e : Entry) : Value :=
  .mapping [textField "kind" e.kind.name, field "value" (record e.declaration),
    field "range" (region e.region), textField "raw_text" e.rawText]

/-- An index as a structured value (`to_dict`). -/
def index (i : Index) : Value :=
  let entries (kind : Kind) : Value := .list ((i.ofKind kind).map entry)
  .mapping [field "dependencies" (entries .dependency), field "plugins" (entries .plugin),
    field "repositories" (entries .repository), field "properties" (entries .property),
    field "tasks" (entries .task), field "warnings" (.list (i.warnings.map .text))]

/-! ### Listing -/

/-- A text behind a blank, or nothing for an empty text. -/
def behindBlank (s : Text) : Text := if s = [] then [] else ' ' :: s

/-- The head of a section with the number of its items. -/
def head (title : String) (count : Nat) : Text :=
  title.toList ++ " (".toList ++ Text.ofNat count ++ "):".toList

/-- The kinds of project that the plugins of a script show. -/
def flavours (f : Index.Flavours) : Text :=
  let shown := [(f.android, "android"), (f.kotlin, "kotlin"), (f.springBoot, "spring-boot")]
  let names := (shown.filter (·.1)).map (·.2.toList)
  if names.isEmpty then "generic".toList else Text.joinWith ", ".toList names

/-- The project data that are there, one a line. -/
def summary (s : ProjectSummary) : List Text :=
  let rows := [("Group", s.group), ("Version", s.version), ("Description", s.description),
    ("Source compatibility", s.sourceCompatibility),
    ("Target compatibility", s.targetCompatibility)]
  (rows.filter (·.2 != [])).map fun (label, value) => label.toList ++ ": ".toList ++ value

/-- The plugins with the positions they are declared at. -/
def plugins (i : Index) : List Text :=
  i.entries.filterMap fun e =>
    (e.declaration.plugin?).map fun p =>
      "  - ".toList ++ p.id ++ behindBlank p.version ++ " [".toList ++ e.region.first.text ++ [']']

/-- The dependencies under their scopes. -/
def dependencies (i : Index) : List Text :=
  (Index.byScope i.dependencies).flatMap fun (scope, ds) =>
    ("  ".toList ++ scope ++ [':']) :: ds.map fun d => "    - ".toList ++ d.coordinate

/-- The repositories with their addresses. -/
def repositories (i : Index) : List Text :=
  (i.entries.filterMap (·.declaration.repository?)).map fun r =>
    "  - ".toList ++ r.name ++ behindBlank r.url

/-- The properties with their values. -/
def properties (i : Index) : List Text :=
  i.properties.map fun p => "  - ".toList ++ p.key ++ " = ".toList ++ p.value

/-- The tasks with their types. -/
def tasks (i : Index) : List Text :=
  (i.entries.filterMap (·.declaration.task?)).map fun t =>
    "  - ".toList ++ t.name ++ if t.type = [] then [] else " (".toList ++ t.type ++ [')']

/-- The listing of a script, line by line. -/
def listing (i : Index) : List Text :=
  ("Project: ".toList ++ flavours i.flavours) :: summary i.summary ++
    head "Plugins" (i.ofKind .plugin).length :: plugins i ++
    head "Dependencies" (i.ofKind .dependency).length :: dependencies i ++
    head "Repositories" (i.ofKind .repository).length :: repositories i ++
    head "Properties" (i.ofKind .property).length :: properties i ++
    head "Tasks" (i.ofKind .task).length :: tasks i ++
    i.warnings.map fun w => "Warning: ".toList ++ w

end BuildScript.Report
