import BuildScript.Session.Update
import BuildScript.Text.Literal
/-!
# Removing dependencies

A dependency is removed together with its line, so the line must hold nothing else: only the scope,
a call parenthesis and a comment may stand beside the coordinate. The line goes with the line feed
behind it, and the last line of a script with the one in front of it.
-/
namespace BuildScript

namespace Session

/-- Whether a line holds one dependency and nothing else of account (`_owns_line`). -/
def ownsLine (s : Session) (entry : Entry) (d : Dependency) : Bool :=
  let line := s.index.lineText entry.region.first.line
  let localStart := entry.region.first.column - 1
  let front := Text.trim (Text.slice line 0 localStart)
  let front := if Text.endsWith ['('] front then Text.trimRight front.dropLast else front
  let behind := line.drop (localStart + entry.region.length).toNat
  let behind := Text.trim (Text.beforeComment behind)
  let behind := if Text.startsWith [')'] behind then Text.trim (behind.drop 1) else behind
  (front = [] || front = d.scope) && behind = []

/-- The bounds of what is deleted with a line, lines counting from zero. -/
def removalBounds (text : Text) (line : Nat) : Nat × Nat :=
  let starts := Text.lineStarts text
  let start := starts.getD line 0
  match starts[line + 1]? with
  | some next => (start, next)
  | none => (start - 1, text.length)

/-- Removes a dependency and its line (`remove_dependency`). -/
def removeDependency (s : Session) (group name : Text) (scope : Option Text) : Attempt :=
  match s.selectDependency group name scope with
  | (.error fault, warnings) => { session := s, fault, warnings }
  | (.ok (entry, d, i), warnings) =>
    if s.ownsLine entry d then
      let text := s.index.text
      let (start, stop) := removalBounds text (entry.region.first.line - 1).toNat
      let edit : Edit :=
        ⟨.delete, .between (Text.lineStarts text) start stop, (text.take stop).drop start, [],
          "Remove dependency ".toList ++ group ++ ':' :: name⟩
      { session := s.recordRemoval i edit, warnings }
    else
      { session := s, fault := some (.lineShared group name entry.region.first.line), warnings }

end Session

end BuildScript
