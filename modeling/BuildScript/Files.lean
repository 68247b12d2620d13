import BuildScript.Text.Basic
/-!
# Files

A tree of files as a value: paths from a working directory, each with its bytes. A directory is
there because a file is in it; the working directory always is.

**Paths.** A path is a list of names behind an optional root. Empty names and lone full stops are
dropped when it is read. A name is looked up step by step, so `..` leads back only from a directory
that is there. What lies above the working directory is a directory about which nothing else is
known.

**Limits.** A name has at most 255 bytes and a path at most 4095, and neither holds a null
character. A file is written by way of a draft beside it, whose name is a little longer.

**Text.** Files are read and written as UTF-8 and nothing about their line breaks is changed.

Results:
* `lookup_put`: what was written at a place is found there.
-/
namespace BuildScript

/-- A path: the slashes it begins with, and the names on the way. -/
structure Path where
  root : Text := []
  names : List Text
deriving DecidableEq, Repr

namespace Path

/-- Reads a path. Two slashes in front are a root of their own; any other number counts as one. -/
def ofText (s : Text) : Path where
  root :=
    match s with
    | '/' :: '/' :: '/' :: _ => ['/']
    | '/' :: '/' :: _ => ['/', '/']
    | '/' :: _ => ['/']
    | _ => []
  names := (Text.fields '/' s).filter fun name => name != [] && name != ['.']

def text (p : Path) : Text :=
  if p.root = [] ∧ p.names = [] then ['.'] else p.root ++ Text.joinWith ['/'] p.names

def name (p : Path) : Text := p.names.getLastD []

def parent (p : Path) : Path := { p with names := p.names.dropLast }

/-- A path that leads to the same place without going back, if all the directories on the way are
there. -/
def direct (p : Path) : Path :=
  { p with
    names := p.names.foldl (fun names name =>
      if name = ['.', '.'] ∧ names ≠ [] ∧ names.getLast? ≠ some ['.', '.'] then names.dropLast
      else names ++ [name]) [] }

def hasNull (p : Path) : Bool := p.names.any fun name => name.elem '\x00'

end Path

/-- Why a file cannot be read or written. -/
inductive FileFault where
  | notFound
  | isDirectory
  | notDirectory
  | busy
  | undecodable
  | nameTooLong
  /-- There is a null character in the path. -/
  | nullInPath
deriving DecidableEq, Repr

/-- Files by the names on the way to them from the working directory. -/
structure FileTree where
  files : List (List Text × ByteArray)

/-- What stands at the end of a path. -/
inductive Place where
  | file (names : List Text) (content : ByteArray)
  | directory (names : List Text)
  /-- A directory above the working directory. -/
  | outside
  | missing
  /-- The path leads through a file. -/
  | blocked
  /-- A name on the way is too long. -/
  | tooLong

namespace FileTree

def lookup (tree : FileTree) (names : List Text) : Option ByteArray := tree.files.lookup names

/-- Whether a file lies somewhere below a place. -/
def isDirectory (tree : FileTree) (names : List Text) : Bool :=
  names.isEmpty || tree.files.any fun file => names.isPrefixOf file.1 && file.1 != names

def mostNameBytes : Nat := 255

def mostPathBytes : Nat := 4095

def byteCount (s : Text) : Nat := (String.ofList s).utf8ByteSize

/-- Follows names from a directory. -/
def follow (tree : FileTree) : (directory : Option (List Text)) → List Text → Place
  | none, [] => .outside
  | some here, [] => .directory here
  | none, name :: rest =>
    if name = ['.', '.'] then follow tree none rest
    else if mostNameBytes < byteCount name then .tooLong
    else .missing
  | some here, name :: rest =>
    if mostNameBytes < byteCount name then .tooLong
    else if name = ['.', '.'] then
      follow tree (if here.isEmpty then none else some here.dropLast) rest
    else
      let next := here ++ [name]
      match tree.lookup next with
      | some content => if rest.isEmpty then .file next content else .blocked
      | none => if tree.isDirectory next then follow tree (some next) rest else .missing

/-- What stands at the end of a path without null characters. -/
def place (tree : FileTree) (path : Path) : Place :=
  if mostPathBytes < byteCount path.text then .tooLong
  else tree.follow (if path.root = [] then some [] else none) path.names

/-- Whether there is anything at the end of a path. A path with a null character leads nowhere. -/
def isPresent (tree : FileTree) (path : Path) : Except FileFault Bool :=
  if path.hasNull then .ok false
  else
    match tree.place path with
    | .file _ _ | .directory _ | .outside => .ok true
    | .missing | .blocked => .ok false
    | .tooLong => .error .nameTooLong

def readBytes (tree : FileTree) (path : Path) : Except FileFault ByteArray :=
  if path.hasNull then .error .nullInPath
  else
    match tree.place path with
    | .file _ content => .ok content
    | .directory _ | .outside => .error .isDirectory
    | .missing => .error .notFound
    | .blocked => .error .notDirectory
    | .tooLong => .error .nameTooLong

/-- The text that bytes encode. -/
def decodeText (content : ByteArray) : Except FileFault Text :=
  match String.fromUTF8? content with
  | some s => .ok s.toList
  | none => .error .undecodable

/-- Reads the text of a file (`read_text`). -/
def readText (tree : FileTree) (path : Path) : Except FileFault Text :=
  (tree.readBytes path).bind decodeText

def put (tree : FileTree) (names : List Text) (content : ByteArray) : FileTree :=
  if tree.files.any fun file => file.1 = names then
    ⟨tree.files.map fun file => if file.1 = names then (names, content) else file⟩
  else ⟨tree.files ++ [(names, content)]⟩

/-- Why nothing can be put into the directory at a place, if it cannot. -/
def checkDirectory : Place → Except FileFault Unit
  | .directory _ | .outside => .ok ()
  | .missing => .error .notFound
  | .file _ _ | .blocked => .error .notDirectory
  | .tooLong => .error .nameTooLong

/-- How many bytes longer than its name the draft of a file is called: three marks and a tag. -/
def draftBytes : Nat := 10

/-- Why no draft can be made beside a file, if it cannot: the directory has to be there, and the
draft needs a name that is not too long. -/
def checkDraft (tree : FileTree) (path : Path) : Except FileFault Unit := do
  checkDirectory (tree.place path.parent.direct)
  if mostNameBytes < byteCount path.name + draftBytes then .error .nameTooLong else .ok ()

/-- Writes a text to a file, in a directory that is there (`write_text`). The text is written to a
draft beside the file first, which then takes the file's place. -/
def writeText (tree : FileTree) (path : Path) (text : Text) : Except FileFault FileTree := do
  if path.hasNull then .error .nullInPath
  tree.checkDraft path
  let directory := tree.place path.parent
  checkDirectory directory
  if path.names.isEmpty || path.name = ['.', '.'] then .error .busy
  match directory with
  | .directory here =>
    let target := here ++ [path.name]
    if (tree.lookup target).isNone && tree.isDirectory target then .error .isDirectory
    else .ok (tree.put target (String.ofList text).toUTF8)
  | _ => .ok tree

theorem lookup_put (tree : FileTree) (names : List Text) (content : ByteArray) :
    (tree.put names content).lookup names = some content := by
  have map : ∀ files : List (List Text × ByteArray), (files.any fun f => f.1 = names) = true →
      (files.map fun f => if f.1 = names then (names, content) else f).lookup names =
        some content := by
    intro files h
    induction files with
    | nil => simp at h
    | cons f rest ih =>
      obtain ⟨key, old⟩ := f
      by_cases hf : key = names
      · simp [hf]
      · have : (names == key) = false := by simpa using fun e => hf e.symm
        simp [hf, List.lookup_cons, this]
        exact ih (by simpa [hf] using h)
  have append : ∀ files : List (List Text × ByteArray), (files.any fun f => f.1 = names) = false →
      (files ++ [(names, content)]).lookup names = some content := by
    intro files h
    induction files with
    | nil => simp
    | cons f rest ih =>
      obtain ⟨key, old⟩ := f
      simp only [List.any_cons, Bool.or_eq_false_iff, decide_eq_false_iff_not] at h
      have : (names == key) = false := by simpa using fun e => h.1 e.symm
      simp [List.lookup_cons, this]
      exact ih h.2
  unfold put lookup
  split
  · next h => exact map _ h
  · next h => exact append _ (Bool.eq_false_iff.2 h)

end FileTree

end BuildScript
