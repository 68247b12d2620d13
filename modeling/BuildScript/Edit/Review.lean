import BuildScript.Edit
import BuildScript.Text.Quoted
/-!
# Reviewing edits

What can be said about a list of edits without making them: the problems that each has with the
script, the lines it shows in a listing, and how many edits there are of each kind.

Problems are reported for all edits, in their order, and for one edit in the order start, end,
inversion, text. The text is compared only where the region lies within the script, and an
insertion expects none.
-/
namespace BuildScript

/-- What is wrong with an edit. -/
inductive ProblemCause where
  | negativeStart (start : Int)
  | beyondEnd (stop : Int) (length : Nat)
  | inverted (start stop : Int)
  | textDiffers (expected actual : Text)
deriving DecidableEq, Repr

namespace ProblemCause

/-- The class of problem that a cause belongs to. -/
def code : ProblemCause → Text
  | textDiffers _ _ => "text_mismatch".toList
  | _ => "invalid_range".toList

def message : ProblemCause → Text
  | negativeStart start => "invalid start position ".toList ++ Text.ofInt start
  | beyondEnd stop length =>
    "end position ".toList ++ Text.ofInt stop ++ " exceeds text length ".toList ++
      Text.ofNat length
  | inverted start stop =>
    "start position ".toList ++ Text.ofInt start ++ " > end position ".toList ++ Text.ofInt stop
  | textDiffers expected actual =>
    "text mismatch, expected ".toList ++ Text.quoted expected ++ ", got ".toList ++
      Text.quoted actual

end ProblemCause

/-- A problem of the edit with a given index (`ValidationIssue`). -/
structure Problem where
  index : Nat
  cause : ProblemCause
deriving DecidableEq, Repr

namespace Problem

def text (p : Problem) : Text :=
  "modification ".toList ++ Text.ofNat p.index ++ ": ".toList ++ p.cause.message

end Problem

namespace Edit

/-- Everything wrong with one edit of a text. -/
def problems (text : Text) (e : Edit) : List ProblemCause :=
  let length := text.length
  (if e.start < 0 then [.negativeStart e.start] else []) ++
  (if e.stop > length then [.beyondEnd e.stop length] else []) ++
  (if e.start > e.stop then [.inverted e.start e.stop] else []) ++
  if e.kind ≠ .insert ∧ 0 ≤ e.start ∧ e.start ≤ e.stop ∧ e.stop ≤ length then
    let actual := Text.slice text e.start e.stop
    if actual = e.oldText then [] else [.textDiffers e.oldText actual]
  else []

/-- Everything wrong with the edits of a text, indices counting from `index`. -/
def reviewFrom (text : Text) (index : Nat) : List Edit → List Problem
  | [] => []
  | e :: rest => (e.problems text).map (Problem.mk index) ++ reviewFrom text (index + 1) rest

/-- Everything wrong with the edits of a text (`validate`). -/
def review (text : Text) (edits : List Edit) : List Problem := reviewFrom text 0 edits

end Edit

/-- A line of the listing of edits: a text taken away or put in, and where. -/
structure DiffLine where
  added : Bool
  line : Int
  content : Text
  description : Text
deriving DecidableEq, Repr

namespace DiffLine

def text (d : DiffLine) : Text :=
  (if d.added then '+' else '-') :: ' ' :: Text.ofInt d.line ++ ':' :: ' ' :: d.content

end DiffLine

namespace Edit

/-- The lines that one edit shows: what goes, then what comes. -/
def diffLines (e : Edit) : List DiffLine :=
  let gone : DiffLine := ⟨false, e.region.first.line, e.oldText, e.description⟩
  let added : DiffLine := ⟨true, e.region.first.line, e.newText, e.description⟩
  match e.kind with
  | .replace => [gone, added]
  | .insert => [added]
  | .delete => [gone]

/-- The listing of edits in the order of submission (`diff`). -/
def listing (edits : List Edit) : List DiffLine := edits.flatMap diffLines

/-- How many edits there are of each kind that occurs, kinds in the order of first appearance
(`summarize`). -/
def countByKind (edits : List Edit) : List (EditKind × Nat) :=
  (edits.map (·.kind)).eraseDups.map fun kind => (kind, edits.countP (·.kind = kind))

end Edit

end BuildScript
