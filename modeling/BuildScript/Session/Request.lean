import BuildScript.Session.Insert
import BuildScript.Session.Remove
import BuildScript.Edit.Replay
/-!
# Requests

Everything that can be asked of a session, as one type, so that a course of work on a script is a
list of requests.

Results:
* `render_start`: a session without changes renders the script it was started on.
-/
namespace BuildScript

/-- A change asked for. -/
inductive Request where
  | setDependencyVersion (group name version : Text) (scope : Option Text)
  | setPluginVersion (id version : Text)
  | setProperty (key value : Text)
  | setRepositoryUrl (name url : Text)
  | addDependency (group name version : Text) (scope : Option Text)
  | addPlugin (id version : Text)
  | addRepository (nameOrUrl : Text)
  | removeDependency (group name : Text) (scope : Option Text)
  | clear
deriving DecidableEq, Repr

namespace Session

/-- Carries out a request, or says why it is refused. -/
def attempt (s : Session) : Request → Attempt
  | .setDependencyVersion group name version scope =>
    s.setDependencyVersion group name version scope
  | .setPluginVersion id version => s.setPluginVersion id version
  | .setProperty key value => s.setProperty key value
  | .setRepositoryUrl name url => s.setRepositoryUrl name url
  | .addDependency group name version scope => s.addDependency group name version scope
  | .addPlugin id version => s.addPlugin id version
  | .addRepository nameOrUrl => s.addRepository nameOrUrl
  | .removeDependency group name scope => s.removeDependency group name scope
  | .clear => { session := s.clear }

/-- The session behind a request, refused or not. -/
def after (s : Session) (request : Request) : Session := (s.attempt request).session

/-- The session behind a course of requests. -/
def afterAll (s : Session) (requests : List Request) : Session := requests.foldl after s

/-- The script with the pending changes made. -/
def render (s : Session) : Replay := replay s.index.text s.edits

@[simp] theorem render_start (index : Index) (options : EditorOptions) :
    (start index options).render = ⟨.ok index.text, []⟩ := rfl

end Session

end BuildScript
