import BuildScript.Command.Call
import BuildScript.Files
import BuildScript.Report
import BuildScript.Edit.Review
import BuildScript.Diff.Unified
/-!
# Running a command

A command reads the settings, then the script, and prints a report or makes a change. A change is
shown as a listing and a unified diff, or written to the file if that is asked for.

**Result.** `execute` works on the contents of the two files and says what to print and what to
write. The exit code is zero for success, one for a failure and two for misuse, which includes a
script that is not there. A failure that is met while working on the script is printed; some end
the command at once and print nothing, and `Result.failure` then says which.

**Outcome.** `run` takes the contents from a tree of files and writes back to it.

Results:
* `written_execute_list`: listing writes nothing.
-/
namespace BuildScript.Command

/-- A failure that ends a command at once. -/
inductive Failure where
  | settings (fault : SettingsFault)
  | file (fault : FileFault)
deriving DecidableEq, Repr

/-- What a command does: its exit code, what it prints and what it writes to the script. -/
structure Result where
  exitCode : Nat
  output : Text
  failure : Option Failure := none
  written : Option Text := none
deriving DecidableEq, Repr

namespace Result

def printing (host : Host) (exitCode : Nat) (lines : List Text) : Result :=
  { exitCode, output := host.print lines }

def misuse : Result := { exitCode := 2, output := [] }

def failing (failure : Failure) : Result := { exitCode := 1, output := [], failure }

end Result

variable (host : Host)

/-- Loads the settings and goes on with them (`_load`). Faults of the settings file are reported;
those of what it asks for end the command. -/
def withSettings (content : Except FileFault (Option ByteArray)) (next : Settings → Result) :
    Result :=
  match content with
  | .error fault => .failing (.file fault)
  | .ok content =>
    match host.load content with
    | .error fault =>
      if fault.isReported then .printing host 1 [fault.message] else .failing (.settings fault)
    | .ok settings =>
      match settings.levelNumber with
      | .error fault => .failing (.settings fault)
      | .ok _ => next settings

/-- Prints the report on a script (`parse`). -/
def list (script : Text) (asJson : Bool) (settings : Settings) : Result :=
  let index := Index.parse settings.parser.options script
  .printing host 0 (if asJson then [Json.write 0 (Report.index index)] else Report.listing index)

def dropLineFeeds (s : Text) : Text := Text.dropTrailing (· == '\n') s

/-- What a change shows: the listing of its edits and the unified diff. -/
def preview (session : Session) (new name : Text) : Text :=
  host.print ((Edit.listing session.edits).map fun line => dropLineFeeds line.text) ++
    host.shown (Diff.unified session.index.text new ("a/".toList ++ name) ("b/".toList ++ name)
      Diff.defaultContext)

/-- The line that reports a fault. -/
def faultLine (fault : Fault) : Text := "Error: ".toList ++ fault.message

/-- Makes the pending changes of a session, and writes or shows the result (`_run_edit`). -/
def finish (path : Path) (write : Bool) (session : Session) : Result :=
  if session.edits = [] then .printing host 0 ["No changes.".toList]
  else
    match Edit.review session.index.text session.edits with
    | [] =>
      match session.render.result with
      | .error fault => .printing host 1 [faultLine fault]
      | .ok new =>
        if write then
          { Result.printing host 0
              ["Applied ".toList ++ Text.ofNat session.edits.length ++
                " modification(s) to ".toList ++ path.text ++ ['.']] with
            written := some new }
        else { exitCode := 0, output := preview host session new path.name }
    | problems =>
      .printing host 1 ("Modifications failed validation:".toList ::
        problems.map fun problem => "  - ".toList ++ problem.text)

def change (script : Text) (path : Path) (request : Request) (write : Bool)
    (settings : Settings) : Result :=
  let session := Session.start (Index.parse settings.parser.options script) settings.editor
  let attempt := session.attempt request
  match attempt.fault with
  | some fault => .printing host 1 [faultLine fault]
  | none => finish host path write attempt.session

/-- Does what an action asks for. The settings file may be absent, and the script may. -/
def execute (config : Except FileFault (Option ByteArray)) (script : Except FileFault (Option Text))
    (path : Path) (action : Action) : Result :=
  withSettings host config fun settings =>
    match script with
    | .error fault => .failing (.file fault)
    | .ok none => .misuse
    | .ok (some script) =>
      match action with
      | .list asJson => list host script asJson settings
      | .change request write => change host script path request write settings

/-- Does what a call asks for, if it asks for an action. -/
def answer (config : Except FileFault (Option ByteArray)) (script : Except FileFault (Option Text))
    (path : Path) (call : Call) : Result :=
  match call.action? with
  | some action => execute host config script path action
  | none => .misuse

/-- What a command leaves behind. -/
structure Outcome where
  result : Result
  files : FileTree

/-- Writes to the files of a tree what a command writes to its script. -/
def commit (files : FileTree) (path : Path) (result : Result) : Outcome :=
  match result.written with
  | none => ⟨result, files⟩
  | some new =>
    match files.writeText path new with
    | .ok files => ⟨result, files⟩
    | .error fault => ⟨.failing (.file fault), files⟩

/-- The content of a file as it is read, if there is a file. -/
def readPresent {α : Type} (files : FileTree) (path : Path) (read : Path → Except FileFault α) :
    Except FileFault (Option α) := do
  if ← files.isPresent path then return some (← read path) else return none

def configOf (files : FileTree) (invocation : Invocation) :
    Except FileFault (Option ByteArray) :=
  readPresent files (.ofText invocation.config) files.readBytes

def scriptOf (files : FileTree) (invocation : Invocation) : Except FileFault (Option Text) :=
  readPresent files (.ofText invocation.file) files.readText

def run (files : FileTree) (invocation : Invocation) : Outcome :=
  let path := Path.ofText invocation.file
  commit files path
    (answer host (configOf files invocation) (scriptOf files invocation) path invocation.call)

def runArguments (files : FileTree) (args : List Text) : Outcome :=
  match host.arguments args with
  | .invocation invocation => run host files invocation
  | .ended exitCode output => ⟨{ exitCode, output }, files⟩

/-- Listing writes nothing. -/
theorem written_execute_list (config : Except FileFault (Option ByteArray))
    (script : Except FileFault (Option Text)) (path : Path) (asJson : Bool) :
    (execute host config script path (.list asJson)).written = none := by
  simp only [execute, withSettings]
  repeat' split
  all_goals rfl

end BuildScript.Command
