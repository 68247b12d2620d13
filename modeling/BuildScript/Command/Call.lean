import BuildScript.Settings.Load
import BuildScript.Session.Request
import BuildScript.Declaration.Dependency
/-!
# Calls of commands

There are six commands. A `Call` is one of them with its operands and options as they were given,
an `Invocation` a call with the two files that it names, and an `Action` what is to be done with the
script.

**Coordinates** on the command line are `group:name` or `group:name:version`; parts behind the
version do not count. A call whose coordinate is none asks for no action.

**What a host brings.** The conventions of the command line, the help that it gives and what a
terminal shows of a text are not decided here: a `Host` brings them along, beside the loader of the
settings. Whatever is said about commands is said for every host.
-/
namespace BuildScript.Command

/-- What a command does with a script. -/
inductive Action where
  | list (asJson : Bool)
  | change (request : Request) (write : Bool)
deriving DecidableEq, Repr

/-- A command with its operands behind the file and its options. -/
inductive Call where
  | parse (asJson : Bool)
  | setDependency (coordinate version : Text) (scope : Option Text) (write : Bool)
  | setPlugin (id version : Text) (write : Bool)
  | setProperty (key value : Text) (write : Bool)
  | addDependency (coordinate : Text) (scope : Option Text) (write : Bool)
  | removeDependency (coordinate : Text) (scope : Option Text) (write : Bool)
deriving DecidableEq, Repr

/-- The action that a call asks for, if it asks for one. -/
def Call.action? : Call → Option Action
  | parse asJson => some (.list asJson)
  | setDependency coordinate version scope write =>
    (Coordinate.ofText? coordinate).map fun c =>
      .change (.setDependencyVersion c.group c.name version scope) write
  | setPlugin id version write => some (.change (.setPluginVersion id version) write)
  | setProperty key value write => some (.change (.setProperty key value) write)
  | addDependency coordinate scope write =>
    (Coordinate.ofText? coordinate).map fun c =>
      .change (.addDependency c.group c.name c.version scope) write
  | removeDependency coordinate scope write =>
    (Coordinate.ofText? coordinate).map fun c =>
      .change (.removeDependency c.group c.name scope) write

/-- A call with the settings file and the script that it names. -/
structure Invocation where
  config : Text
  file : Text
  call : Call
deriving DecidableEq, Repr

/-- What the arguments of the command line come to. -/
inductive Reading where
  | invocation (value : Invocation)
  /-- No command is to be run: help was asked for, or the arguments fit no command. -/
  | ended (exitCode : Nat) (output : Text)
deriving DecidableEq, Repr

/-- What commands take from elsewhere. -/
structure Host extends Settings.Loader where
  /-- Reads the arguments of the command line. -/
  arguments : List Text → Reading
  /-- What is shown of a text that is printed. -/
  shown : Text → Text

/-- Lines as they are printed, with a line feed behind each. -/
def Host.print (host : Host) (lines : List Text) : Text :=
  lines.flatMap fun line => host.shown (line ++ ['\n'])

end BuildScript.Command
