import BuildScript.Command.Call
import BuildScript.Settings.Document
import BuildScript.Text.Terminal
/-!
# Arguments of the command line

The conventions of the host that comes with the library. The first argument names a command; the
others are its operands and options in any order.

**Options.** `--name` and, if the option takes a value, `--name value` or `--name=value`; in short
`-n value` or `-nvalue`. The argument behind an option that takes a value is its value, whatever it
looks like. `--` ends the options, a lone `-` is an operand, and of an option given twice the last
counts.

**Ends.** Help is shown with exit code zero. Arguments that fit no command are misuse, which is exit
code two, and nothing is shown.
-/
namespace BuildScript.Command

inductive Name where
  | parse
  | setDependency
  | setPlugin
  | setProperty
  | addDependency
  | removeDependency
deriving DecidableEq, Repr

namespace Name

def text : Name → Text
  | parse => "parse".toList
  | setDependency => "set-dependency".toList
  | setPlugin => "set-plugin".toList
  | setProperty => "set-property".toList
  | addDependency => "add-dependency".toList
  | removeDependency => "remove-dependency".toList

def all : List Name :=
  [parse, setDependency, setPlugin, setProperty, addDependency, removeDependency]

/-- Whether a command looks for a dependency within a scope. -/
def takesScope : Name → Bool
  | setDependency | addDependency | removeDependency => true
  | parse | setPlugin | setProperty => false

end Name

/-- An option of a command. -/
inductive Flag where
  | config
  | scope
  | write
  | dryRun
  | json
  | help
deriving DecidableEq, Repr

namespace Flag

def takesValue : Flag → Bool
  | config | scope => true
  | write | dryRun | json | help => false

def long : Flag → Text
  | config => "--config".toList
  | scope => "--scope".toList
  | write => "--write".toList
  | dryRun => "--dry-run".toList
  | json => "--json".toList
  | help => "--help".toList

/-- The letter of an option that has a short form. -/
def short? : Flag → Option Char
  | config => some 'c'
  | scope => some 's'
  | write | dryRun | json | help => none

def ofName (name : Name) : List Flag :=
  [config, help] ++ (if name = .parse then [json] else [write, dryRun]) ++
    if name.takesScope then [scope] else []

end Flag

/-- Operands and options as they are read. -/
structure Collected where
  operands : List Text := []
  config : Text := "ge.yaml".toList
  scope : Option Text := none
  write : Bool := false
  json : Bool := false
  help : Bool := false

namespace Collected

def operand (c : Collected) (s : Text) : Collected := { c with operands := c.operands ++ [s] }

/-- Sets an option that takes a value. -/
def set (c : Collected) (flag : Flag) (value : Text) : Collected :=
  match flag with
  | .config => { c with config := value }
  | .scope => { c with scope := some value }
  | .write | .dryRun | .json | .help => c

/-- Sets an option that takes none. -/
def mark (c : Collected) (flag : Flag) : Collected :=
  match flag with
  | .write => { c with write := true }
  | .dryRun => { c with write := false }
  | .json => { c with json := true }
  | .help => { c with help := true }
  | .config | .scope => c

end Collected

/-- An argument in two parts at its first equals sign, if it has one. -/
def splitEquals (s : Text) : Text × Option Text :=
  match s.dropWhile (· != '=') with
  | [] => (s, none)
  | _ :: value => (s.takeWhile (· != '='), some value)

/-- What an argument says in the place of an option: an option with its value or without one, an
option that waits for its value, or nothing that is known. -/
inductive OptionReading where
  | valued (flag : Flag) (value : Text)
  | waiting (flag : Flag)
  | marked (flag : Flag)
  | unknown

/-- Reads an argument that begins with a hyphen, given the options there are. -/
def readOption (flags : List Flag) (arg : Text) : OptionReading :=
  let (name, value) := splitEquals arg
  match flags.find? (·.long = name), value with
  | some flag, some value => if flag.takesValue then .valued flag value else .unknown
  | some flag, none => if flag.takesValue then .waiting flag else .marked flag
  | none, _ =>
    match arg with
    | '-' :: letter :: rest =>
      match flags.find? (·.short? = some letter) with
      | some flag => if rest = [] then .waiting flag else .valued flag rest
      | none => .unknown
    | _ => .unknown

/-- Reads the arguments of a command, the option `waiting` first if it waits for a value. -/
def collect (flags : List Flag) : (waiting : Option Flag) → Collected → List Text →
    Option Collected
  | none, c, [] => some c
  | some _, _, [] => none
  | some flag, c, arg :: rest => collect flags none (c.set flag arg) rest
  | none, c, arg :: rest =>
    if arg = ['-', '-'] then some { c with operands := c.operands ++ rest }
    else if Text.startsWith ['-'] arg ∧ arg ≠ ['-'] then
      match readOption flags arg with
      | .valued flag value => collect flags none (c.set flag value) rest
      | .waiting flag => collect flags (some flag) c rest
      | .marked flag => collect flags none (c.mark flag) rest
      | .unknown => none
    else collect flags none (c.operand arg) rest

/-- The call that a command makes with its operands behind the file. -/
def call? (name : Name) (operands : List Text) (c : Collected) : Option Call :=
  match name, operands with
  | .parse, [] => some (.parse c.json)
  | .setDependency, [coordinate, version] =>
    some (.setDependency coordinate version c.scope c.write)
  | .setPlugin, [id, version] => some (.setPlugin id version c.write)
  | .setProperty, [key, value] => some (.setProperty key value c.write)
  | .addDependency, [coordinate] => some (.addDependency coordinate c.scope c.write)
  | .removeDependency, [coordinate] => some (.removeDependency coordinate c.scope c.write)
  | _, _ => none

/-- What is shown when help is asked for. -/
def help : Text :=
  Text.joinWith ['\n'] ("Position-preserving editor for Gradle build scripts.".toList ::
    Name.all.map fun name => "  ".toList ++ name.text) ++ ['\n']

namespace Reading

def helped : Reading := ended 0 help

def misused : Reading := ended 2 []

end Reading

def readCommand (name : Name) (args : List Text) : Reading :=
  match collect (Flag.ofName name) none {} args with
  | none => .misused
  | some c =>
    if c.help then .helped
    else
      match c.operands with
      | [] => .misused
      | file :: operands =>
        match call? name operands c with
        | some call => .invocation ⟨c.config, file, call⟩
        | none => .misused

def readNamed (name : Text) (args : List Text) : Reading :=
  match Name.all.find? (·.text = name) with
  | some name => readCommand name args
  | none => .misused

def readArguments : List Text → Reading
  | [] => .misused
  | first :: rest =>
    if first = ['-', '-'] then
      match rest with
      | [] => .misused
      | name :: args => readNamed name args
    else if first = Flag.help.long then .helped
    else readNamed first rest

/-- The host that comes with the library. -/
def standardHost : Host where
  toLoader := Settings.yamlLoader
  arguments := readArguments
  shown := Text.plain

end BuildScript.Command
