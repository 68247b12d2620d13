import BuildScript.Declaration.Property
import BuildScript.Declaration.Dependency
import BuildScript.Declaration.Plugin
import BuildScript.Declaration.Repository
import BuildScript.Declaration.Task
/-!
# Declarations

What a line of a build script can declare, and the recognizers that find it.

A recognizer looks at one line and either declines or reports a sighting: a declaration, the
bounds within the line that it was read from, and the text that stood there. The five recognizers
of `Recognizer.ofKind` report what the `find?` of their kind finds; others may be passed to the
parser, so a sighting is not trusted to be true of the line.

Results:
* `kind_of_sight?`: each of the five reports only declarations of its own kind.
-/
namespace BuildScript

/-- The kinds of declaration (`EntityKind`). -/
inductive Kind where
  | property
  | dependency
  | plugin
  | repository
  | task
deriving DecidableEq, Repr

namespace Kind

def name : Kind → Text
  | property => "property".toList
  | dependency => "dependency".toList
  | plugin => "plugin".toList
  | repository => "repository".toList
  | task => "task".toList

/-- All kinds, in the order in which a line is tried for them. -/
def all : List Kind := [property, dependency, plugin, repository, task]

def ofName? (name : Text) : Option Kind := all.find? fun kind => kind.name = name

end Kind

/-- What a line declares. -/
inductive Declaration where
  | property (value : Property)
  | dependency (value : Dependency)
  | plugin (value : Plugin)
  | repository (value : Repository)
  | task (value : Task)
deriving DecidableEq, Repr

namespace Declaration

def kind : Declaration → Kind
  | property _ => .property
  | dependency _ => .dependency
  | plugin _ => .plugin
  | repository _ => .repository
  | task _ => .task

def property? : Declaration → Option Property
  | property value => some value
  | _ => none

def dependency? : Declaration → Option Dependency
  | dependency value => some value
  | _ => none

def plugin? : Declaration → Option Plugin
  | plugin value => some value
  | _ => none

def repository? : Declaration → Option Repository
  | repository value => some value
  | _ => none

def task? : Declaration → Option Task
  | task value => some value
  | _ => none

/-- The declaration of a given kind that a line makes. -/
def find? (kind : Kind) (line : Text) : Option (Found Declaration) :=
  match kind with
  | .property => (Property.find? line).map (·.map property)
  | .dependency => (Dependency.find? line).map (·.map dependency)
  | .plugin => (Plugin.find? line).map (·.map plugin)
  | .repository => (Repository.find? line).map (·.map repository)
  | .task => (Task.find? line).map (·.map task)

theorem kind_of_find? {kind : Kind} {line : Text} {found : Found Declaration}
    (h : find? kind line = some found) : found.value.kind = kind := by
  cases kind <;>
    · obtain ⟨a, _, rfl⟩ := Option.map_eq_some_iff.1 h
      rfl

end Declaration

/-- A recognizer's report about a line: what it declares, and the bounds and the text that the
recognizer read it from. -/
structure Sighting where
  declaration : Declaration
  start : Int
  stop : Int
  text : Text
deriving DecidableEq, Repr

/-- One way of reading a declaration off a line. -/
structure Recognizer where
  kind : Kind
  sight? : Text → Option Sighting

namespace Recognizer

def ofKind (kind : Kind) : Recognizer where
  kind := kind
  sight? line :=
    (Declaration.find? kind line).map fun found =>
      ⟨found.value, found.start, found.stop, found.text line⟩

/-- The recognizers that a line is tried with, in their order. -/
def default : List Recognizer := Kind.all.map ofKind

/-- The first sighting that the recognizers make of a line (`_recognize`). -/
def firstSighting? (recognizers : List Recognizer) (line : Text) : Option Sighting :=
  recognizers.findSome? fun recognizer => recognizer.sight? line

/-- A recognizer of a kind reports only declarations of that kind. -/
theorem kind_of_sight? {kind : Kind} {line : Text} {sighting : Sighting}
    (h : (ofKind kind).sight? line = some sighting) : sighting.declaration.kind = kind := by
  obtain ⟨found, hf, rfl⟩ := Option.map_eq_some_iff.1 h
  exact Declaration.kind_of_find? hf

end Recognizer

end BuildScript
