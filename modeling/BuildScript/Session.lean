import BuildScript.Index
import BuildScript.Fault
/-!
# Sessions

A session collects changes to one script. It starts from the index of the script and records each
change as an edit of the script as it was parsed; the edits are made all together at the end.

**Values.** The entry of a changed declaration shows the new value and the new text at once, while
its region keeps pointing at the script. The text that the script itself holds there is remembered
in `parsedTexts`, so that later changes of one entry fold into a single edit, and into none if they
lead back to where they began.

**Removal.** An entry whose line is to be deleted is no longer found by later changes.

**One list.** The changes are kept in one list, each with what it is about, and an earlier update of
an entry is dropped by what it is about. Keeping edits, updates, parsed texts and removals apart
comes to the same, which is what `Session.reflects_afterAll` says.

**Clearing.** `Session.clear` drops the pending changes, removals among them, and keeps the values.
-/
namespace BuildScript

/-- How a session writes the declarations it adds. -/
structure EditorOptions where
  indent : Text := "    ".toList
  defaultScope : Text := "implementation".toList
  mark : Text := ['\'']
deriving DecidableEq, Repr

/-- A pending change, with the index of the entry it concerns if there is one. -/
inductive Change where
  | update (entry : Nat) (edit : Edit)
  | insertion (edit : Edit)
  | removal (entry : Nat) (edit : Edit)
deriving DecidableEq, Repr

namespace Change

def edit : Change → Edit
  | update _ e => e
  | insertion e => e
  | removal _ e => e

def updates (entry : Nat) : Change → Bool
  | update i _ => i = entry
  | _ => false

def removes (entry : Nat) : Change → Bool
  | removal i _ => i = entry
  | _ => false

end Change

/-- A script with changes pending (`GradleEditor`). -/
structure Session where
  index : Index
  options : EditorOptions := {}
  /-- The text of each entry as it was parsed. -/
  parsedTexts : List Text
  changes : List Change := []
deriving DecidableEq, Repr

/-- The outcome of a request: the session behind it, why it was refused if it was, and the warnings
on the way. -/
structure Attempt where
  session : Session
  fault : Option Fault := none
  warnings : List Text := []
deriving DecidableEq, Repr

namespace Session

def start (index : Index) (options : EditorOptions) : Session :=
  { index, options, parsedTexts := index.entries.map (·.rawText) }

/-- The pending edits in the order in which they were recorded (`get_modifications`). -/
def edits (s : Session) : List Edit := s.changes.map (·.edit)

/-- Drops all pending changes and keeps the values. -/
def clear (s : Session) : Session := { s with changes := [] }

/-- Whether the line of an entry is to be deleted. -/
def isRemoved (s : Session) (i : Nat) : Bool := s.changes.any (·.removes i)

/-- The entries that are still in place, each with its index. -/
def remaining (s : Session) : List (Entry × Nat) :=
  s.index.entries.zipIdx.filter fun (_, i) => !s.isRemoved i

/-- The text that the script holds for an entry. -/
def parsedText (s : Session) (i : Nat) : Text := s.parsedTexts.getD i []

/-- Gives an entry a new value and text and records the edit that this takes, in place of any
earlier one (`_record_replace`). -/
def record (s : Session) (i : Nat) (entry : Entry) (value : Declaration)
    (newText description : Text) : Session :=
  let changed : Entry := { entry with declaration := value, rawText := newText }
  let others := s.changes.filter fun c => !c.updates i
  let edit : Edit := ⟨.replace, entry.region, s.parsedText i, newText, description⟩
  { s with
    index := { s.index with entries := s.index.entries.set i changed }
    changes := if newText = s.parsedText i then others else others ++ [.update i edit] }

/-- Records the edit that deletes the line of an entry, in place of any update of it. -/
def recordRemoval (s : Session) (i : Nat) (edit : Edit) : Session :=
  { s with changes := (s.changes.filter fun c => !c.updates i) ++ [.removal i edit] }

def recordInsertion (s : Session) (edit : Edit) : Session :=
  { s with changes := s.changes ++ [.insertion edit] }

end Session

end BuildScript
