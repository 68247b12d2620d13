import BuildScript.Text.Search
/-!
# Repositories

A repository is declared by a call of one of the well-known names, or by the address behind `url`.
A repository that has only an address is named after its host.
-/
namespace BuildScript

structure Repository where
  name : Text
  type : Text := "maven".toList
  url : Text := []
deriving DecidableEq, Repr

namespace Repository

/-- The repositories that have a call of their own. -/
def wellKnown : List Text :=
  ["mavenCentral".toList, "mavenLocal".toList, "google".toList, "jcenter".toList,
   "gradlePluginPortal".toList]

/-- The name of a repository at an address: its host, or a stand-in if the address has none
(`infer_repository_name`). -/
def nameOfUrl (url : Text) : Text :=
  match Text.fields '/' url with
  | _ :: _ :: host :: _ => if host = [] then "custom-maven".toList else host
  | _ => "custom-maven".toList

def readEmptyCall? : Text → Option Text
  | '(' :: s =>
    match Text.trimLeft s with
    | ')' :: rest => some rest
    | _ => none
  | _ => none

def readWellKnown? (before : Option Char) (s : Text) : Option (Repository × Text) := do
  if !Text.startsWord before then none
  let (name, rest) ← wellKnown.findSome? fun name =>
    ((Text.after? name s).bind readEmptyCall?).map fun rest => (name, rest)
  some (⟨name, "maven".toList, []⟩, rest)

/-- The forms of address that a repository may have. -/
def schemes : List Text := ["http://".toList, "https://".toList, "file://".toList]

/-- Whether a text is an address with something behind the scheme. -/
def isAddress (url : Text) : Bool :=
  schemes.any fun scheme =>
    match Text.after? scheme url with
    | some (_ :: _) => true
    | _ => false

/-- Skips an equals sign and the blanks behind it, if it is there. -/
def skipEquals : Text → Text
  | '=' :: s => Text.trimLeft s
  | s => s

/-- Skips the opening of a call of `uri` and the blanks behind it, if it is there. -/
def skipUriOpening (s : Text) : Text :=
  match Text.after? "uri(".toList s with
  | some r => Text.trimLeft r
  | none => s

def readUrl? (before : Option Char) (s : Text) : Option (Repository × Text) := do
  if !Text.startsWord before then none
  let r ← Text.after? "url".toList s
  let (_, url, rest) ← Text.readQuoted? (skipUriOpening (skipEquals (Text.trimLeft r)))
  if isAddress url then
    some (⟨nameOfUrl url, "maven".toList, url⟩, Text.skipCallClosing rest)
  else none

/-- The repository that a line declares: a well-known one, else one with an address
(`RepositoryRecognizer`). -/
def find? (line : Text) : Option (Found Repository) :=
  (Text.searchIn readWellKnown? line).or (Text.searchIn readUrl? line)

end Repository

end BuildScript
