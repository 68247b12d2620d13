import BuildScript.Session
/-!
# Changing declared values

Each change selects the first entry that fits and is still in place, and rewrites the smallest part
of its text that carries the value. A value that is already there is no change.

**Dependencies.** References to other projects have no version and are never selected. If no scope
was asked for and the candidates have several, the first is taken with a warning.

**Properties.** The value is written between the marks that the old one stood between, or bare if
it stood bare. What is kept in front of it is as many characters of the clause as the clause has
more than the old value without the blanks around it.
-/
namespace BuildScript

namespace Session

/-- The dependencies of a group and name that are in place, within a scope if one is given. -/
def dependencyCandidates (s : Session) (group name : Text) (scope : Option Text) :
    List (Entry × Dependency × Nat) :=
  s.remaining.filterMap fun (entry, i) =>
    match entry.declaration with
    | .dependency d =>
      if d.group = group ∧ d.name = name ∧ scope.all (d.scope = ·) ∧ !d.isProjectReference then
        some (entry, d, i)
      else none
    | _ => none

/-- The warning that a dependency is declared under several scopes. -/
def ambiguityWarning (group name : Text) (first : Entry × Dependency × Nat)
    (scopes : List Text) : Text :=
  let shown := scopes.map fun scope => if scope = [] then "<none>".toList else scope
  let sorted := sortStable (fun a b => decide (a < b)) shown.eraseDups
  let chosen := if first.2.1.scope = [] then "unscoped".toList else first.2.1.scope
  "Dependency ".toList ++ group ++ ':' :: name ++ " is declared under several scopes (".toList ++
    Text.joinWith ", ".toList sorted ++ "); using the ".toList ++ chosen ++
    " declaration on line ".toList ++ Text.ofInt first.1.region.first.line

/-- The dependency that a change of a group and name is about, with the warnings about the choice
(`_select_dependency`). -/
def selectDependency (s : Session) (group name : Text) (scope : Option Text) :
    Except Fault (Entry × Dependency × Nat) × List Text :=
  match s.dependencyCandidates group name scope with
  | [] => (.error (.dependencyMissing group name scope), [])
  | first :: others =>
    let scopes := ((first :: others).map (·.2.1.scope)).eraseDups
    (.ok first,
      if scope = none ∧ 1 < scopes.length then [ambiguityWarning group name first scopes] else [])

/-- The first entry in place whose declaration `read` accepts (`_select`). -/
def select? {α : Type} (s : Session) (read : Declaration → Option α) : Option (Entry × α × Nat) :=
  s.remaining.findSome? fun (entry, i) => (read entry.declaration).map fun a => (entry, a, i)

def updateText (what old new : Text) : Text :=
  "Update ".toList ++ what ++ " from '".toList ++ old ++ "' to '".toList ++ new ++ ['\'']

end Session

namespace Dependency

/-- The quoted coordinate of a dependency with its version set: the version stands behind the mark,
the group, a colon, the name and another colon, which is put in if there is no version
(`_substitute_dependency_version`). -/
def setVersion (d : Dependency) (raw version : Text) : Text :=
  let nameEnd := 1 + d.group.length + 1 + d.name.length
  if d.version = [] then raw.take nameEnd ++ ':' :: version ++ raw.drop nameEnd
  else raw.take (nameEnd + 1) ++ version ++ raw.drop (nameEnd + 1 + d.version.length)

end Dependency

namespace Property

/-- The clause of a property with its value set (`_render_property`). -/
def setValue (raw value : Text) : Text :=
  let current := Text.trim ((raw.dropWhile (· != '=')).drop 1)
  let kept := raw.take (raw.length - current.length)
  match current with
  | mark :: _ => if Text.isLiteral current then kept ++ mark :: value ++ [mark] else kept ++ value
  | [] => kept ++ value

end Property

namespace Repository

/-- The declaration of a repository with its address set. -/
def setUrl (r : Repository) (raw url : Text) : Text :=
  match Text.find? r.url raw with
  | some place => raw.take place ++ url ++ raw.drop (place + r.url.length)
  | none => raw

end Repository

namespace Session

/-- Sets the version of a dependency (`update_dependency_version`). -/
def setDependencyVersion (s : Session) (group name version : Text) (scope : Option Text) :
    Attempt :=
  match s.selectDependency group name scope with
  | (.error fault, warnings) => { session := s, fault, warnings }
  | (.ok (entry, d, i), warnings) =>
    if d.version = version then { session := s, warnings }
    else
      let newText := d.setVersion entry.rawText version
      let what := group ++ ':' :: name ++ " version".toList
      let changed : Declaration := .dependency { d with version, raw := newText }
      { session := s.record i entry changed newText (updateText what d.version version), warnings }

/-- Sets the version of a plugin (`update_plugin_version`). -/
def setPluginVersion (s : Session) (id version : Text) : Attempt :=
  match s.select? fun d => d.plugin?.filter (·.id = id) with
  | none => { session := s, fault := some (.declarationMissing .plugin id) }
  | some (entry, p, i) =>
    if p.version = version then { session := s }
    else
      match Plugin.setVersion? entry.rawText version with
      | none => { session := s, fault := some (.noVersionPlace p.id entry.rawText) }
      | some newText =>
        let what := "plugin ".toList ++ id ++ " version".toList
        { session := s.record i entry (.plugin { p with version }) newText
            (updateText what p.version version) }

/-- Sets the value of a property (`update_property`). -/
def setProperty (s : Session) (key value : Text) : Attempt :=
  match s.select? fun d => d.property?.filter (·.key = key) with
  | none => { session := s, fault := some (.declarationMissing .property key) }
  | some (entry, p, i) =>
    if p.value = value then { session := s }
    else
      { session := s.record i entry (.property { p with value })
          (Property.setValue entry.rawText value)
          (updateText ("property ".toList ++ key) p.value value) }

/-- Sets the address of a repository that has one (`update_repository_url`). -/
def setRepositoryUrl (s : Session) (name url : Text) : Attempt :=
  match s.select? fun d => d.repository?.filter fun r => r.name = name && r.url != [] with
  | none => { session := s, fault := some (.declarationMissing .repository name) }
  | some (entry, r, i) =>
    if r.url = url then { session := s }
    else
      let what := "repository ".toList ++ name ++ " url".toList
      { session := s.record i entry (.repository { r with url }) (r.setUrl entry.rawText url)
          (updateText what r.url url) }

end Session

end BuildScript
