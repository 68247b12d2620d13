import BuildScript.Files
import BuildScript.Settings
import BuildScript.Session.Request
/-!
# Scripts in files

Reading a script from a file of a tree, opening a session on it, and the text of a script after a
single change. Nothing here writes.
-/
namespace BuildScript

inductive WorkFault where
  | file (fault : FileFault)
  | change (fault : Fault)
deriving DecidableEq, Repr

namespace FileTree

/-- The index of the script in a file (`parse_file`). -/
def parse (tree : FileTree) (path : Path) (settings : Settings) : Except FileFault Index :=
  (tree.readText path).map (Index.parse settings.parser.options)

/-- A session on the script in a file (`create_editor`). -/
def openSession (tree : FileTree) (path : Path) (settings : Settings) :
    Except FileFault Session :=
  (tree.parse path settings).map fun index => Session.start index settings.editor

/-- The script in a file after one change, under default settings. -/
def changed (tree : FileTree) (path : Path) (request : Request) : Except WorkFault Text := do
  let session ← (tree.openSession path {}).mapError .file
  let attempt := session.attempt request
  match attempt.fault with
  | some fault => .error (.change fault)
  | none => attempt.session.render.result.mapError .change

end FileTree

end BuildScript
