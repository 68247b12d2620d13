import BuildScript.Declaration
import BuildScript.Region
/-!
# The index of a script

An index holds a script, its lines, an entry for each declaration found in it and the warnings
about sightings that were dropped. An entry ties a declaration to the region it was read from and
to the text of that region.

**Order.** Entries are kept in the order in which they were added, which for a parsed script is the
order of their lines; `inOrder` sorts them by offset. Look-ups return the first entry that fits.
-/
namespace BuildScript

/-- A declaration tied to the region of the script it was read from (`MappedEntity`). -/
structure Entry where
  declaration : Declaration
  region : Region
  rawText : Text
deriving DecidableEq, Repr

namespace Entry

def kind (e : Entry) : Kind := e.declaration.kind

end Entry

/-- The project data among the properties of a script, and all other properties by key. -/
structure ProjectSummary where
  group : Text := []
  version : Text := []
  description : Text := []
  sourceCompatibility : Text := []
  targetCompatibility : Text := []
  properties : List (Text × Text) := []
deriving DecidableEq, Repr

/-- The declarations of a script (`EntityIndex`). -/
structure Index where
  text : Text
  lines : List Text
  entries : List Entry := []
  warnings : List Text := []
deriving DecidableEq, Repr

namespace Index

def empty (text : Text) : Index := { text, lines := Text.lines text }

def add (index : Index) (entry : Entry) : Index :=
  { index with entries := index.entries ++ [entry] }

/-- The entries of one kind, in the order in which they were added. -/
def ofKind (index : Index) (kind : Kind) : List Entry :=
  index.entries.filter fun entry => entry.kind = kind

/-- The order in which kinds follow one another where entries share an offset. -/
def kindOrder : List Kind := [.dependency, .plugin, .repository, .property, .task]

/-- All entries sorted by the offset they start at (`entities`). -/
def inOrder (index : Index) : List Entry :=
  sortStable (fun a b => a.region.start < b.region.start) (kindOrder.flatMap index.ofKind)

def dependencies (index : Index) : List Dependency :=
  index.entries.filterMap (·.declaration.dependency?)

def plugins (index : Index) : List Plugin := index.entries.filterMap (·.declaration.plugin?)

def properties (index : Index) : List Property :=
  index.entries.filterMap (·.declaration.property?)

/-- The line of a given number, empty if there is none (`line_text`). -/
def lineText (index : Index) (number : Int) : Text :=
  if number < 1 then [] else index.lines.getD (number - 1).toNat []

/-- The text of a region, empty if the region leaves the script (`text_for`). -/
def textOf (index : Index) (region : Region) : Text :=
  if region.start < 0 ∨ region.stop > index.text.length then []
  else Text.slice index.text region.start region.stop

/-! ### Look-ups -/

/-- The dependencies of a group and name, within a scope if one is given (`find_dependencies`). -/
def findDependencies (index : Index) (group name : Text) (scope : Option Text) : List Entry :=
  index.entries.filter fun entry =>
    match entry.declaration with
    | .dependency d => d.group = group && d.name = name && scope.all (d.scope = ·)
    | _ => false

/-- The first plugin of an id (`find_plugin`). -/
def findPlugin? (index : Index) (id : Text) : Option Entry :=
  index.entries.find? fun entry => (entry.declaration.plugin?).any (·.id = id)

/-- The first property of a key (`find_property`). -/
def findProperty? (index : Index) (key : Text) : Option Entry :=
  index.entries.find? fun entry => (entry.declaration.property?).any (·.key = key)

/-- The first repository of a name (`find_repository`). -/
def findRepository? (index : Index) (name : Text) : Option Entry :=
  index.entries.find? fun entry => (entry.declaration.repository?).any (·.name = name)

/-- The first task of a name (`find_task`). -/
def findTask? (index : Index) (name : Text) : Option Entry :=
  index.entries.find? fun entry => (entry.declaration.task?).any (·.name = name)

/-- The first entry of a kind at a line and column (`dependency_at`, `plugin_at`). -/
def entryAt? (index : Index) (kind : Kind) (line column : Int) : Option Entry :=
  (index.ofKind kind).find? fun entry => entry.region.contains line column

/-! ### Summaries -/

/-- The value of the first property of a key. -/
def valueOf? (properties : List Property) (key : Text) : Option Text :=
  (properties.find? (·.key = key)).map (·.value)

/-- The keys that project data are read from. -/
def summaryKeys : List Text :=
  ["group".toList, "version".toList, "description".toList, "sourceCompatibility".toList,
   "targetCompatibility".toList]

/-- The first value of every other key, keys in the order of their first appearance. -/
def firstValues : (seen : List Text) → List Property → List (Text × Text)
  | _, [] => []
  | seen, p :: ps =>
    if p.key ∈ seen then firstValues seen ps
    else (p.key, p.value) :: firstValues (p.key :: seen) ps

/-- The project data of a script; of several properties of a key the first counts
(`project_summary`). -/
def summary (index : Index) : ProjectSummary :=
  let value (key : String) := (valueOf? index.properties key.toList).getD []
  { group := value "group"
    version := value "version"
    description := value "description"
    sourceCompatibility := value "sourceCompatibility"
    targetCompatibility := value "targetCompatibility"
    properties := firstValues summaryKeys index.properties }

/-- The scope that a dependency without one is listed under. -/
def unnamedScope : Text := "implementation".toList

/-- The dependencies grouped by scope, scopes in the order of their first appearance
(`dependencies_by_scope`). -/
def byScope (dependencies : List Dependency) : List (Text × List Dependency) :=
  let scopeOf (d : Dependency) := if d.scope = [] then unnamedScope else d.scope
  let scopes := (dependencies.map scopeOf).eraseDups
  scopes.map fun scope => (scope, dependencies.filter fun d => scopeOf d = scope)

/-- What a project is, going by its plugins. -/
structure Flavours where
  android : Bool
  kotlin : Bool
  springBoot : Bool
deriving DecidableEq, Repr

def flavours (index : Index) : Flavours :=
  let applies (ids : List String) := index.plugins.any fun p => ids.any fun id => p.id = id.toList
  { android := applies ["com.android.application", "com.android.library"]
    kotlin := applies ["kotlin", "org.jetbrains.kotlin.jvm", "org.jetbrains.kotlin.android"]
    springBoot := applies ["org.springframework.boot"] }

end Index

end BuildScript
