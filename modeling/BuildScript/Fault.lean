import BuildScript.Declaration
import BuildScript.Edit
import BuildScript.Text.Quoted
/-!
# Faults

Why a change cannot be recorded or an edit cannot be made. A fault carries what caused it;
`Fault.message` words it and `Fault.details` lists the particulars by name.
-/
namespace BuildScript

/-- A particular of a fault. -/
inductive Detail where
  | absent
  | number (value : Int)
  | text (value : Text)
deriving DecidableEq, Repr

/-- Why a change or an edit is refused. -/
inductive Fault where
  /-- No dependency of this group and name is left to change, within the scope if one is given. -/
  | dependencyMissing (group name : Text) (scope : Option Text)
  /-- No declaration of this kind goes by this name. -/
  | declarationMissing (kind : Kind) (name : Text)
  /-- The plugin is declared in a form that takes no version. -/
  | noVersionPlace (plugin rawText : Text)
  /-- The script has no block of this name. -/
  | blockMissing (block : Text)
  /-- The block has no line of its own to insert into. -/
  | blockOnOneLine (block : Text) (line : Nat)
  /-- The script ends before the block does. -/
  | blockUnclosed (block : Text) (line : Nat)
  /-- The line of the declaration holds other code. -/
  | lineShared (group name : Text) (line : Int)
  /-- The region of an edit leaves the text or ends before it starts. -/
  | outOfBounds (kind : EditKind) (start stop : Int) (length : Nat) (description : Text)
  /-- The region of an edit does not hold the text it is expected to hold. -/
  | textDiffers (expected actual : Text) (start stop : Int) (description : Text)
deriving DecidableEq, Repr

namespace Fault

/-- The scope in parentheses, if there is one with a name. -/
def scopeSuffix (scope : Option Text) : Text :=
  match scope with
  | none => []
  | some name => if name = [] then [] else " (".toList ++ name ++ [')']

/-- How a missing declaration is referred to. -/
def selector (kind : Kind) (name : Text) : Text := kind.name ++ ' ' :: name

def message : Fault → Text
  | dependencyMissing group name scope =>
    "dependency ".toList ++ group ++ ':' :: name ++ scopeSuffix scope ++ " not found".toList
  | declarationMissing kind name => selector kind name ++ " not found".toList
  | noVersionPlace plugin _ =>
    "plugin ".toList ++ plugin ++ " has no versionable declaration".toList
  | blockMissing block => block ++ " block not found".toList
  | blockOnOneLine block line =>
    block ++ " block opens and closes on line ".toList ++ Text.ofNat line
  | blockUnclosed block line =>
    block ++ " block starting on line ".toList ++ Text.ofNat line ++ " is not closed".toList
  | lineShared group name line =>
    "dependency ".toList ++ group ++ ':' :: name ++ " shares line ".toList ++ Text.ofInt line ++
      " with other code".toList
  | outOfBounds kind start stop length _ =>
    "invalid range [".toList ++ Text.ofInt start ++ ", ".toList ++ Text.ofInt stop ++
      ") for ".toList ++ kind.name ++ " on text of length ".toList ++ Text.ofNat length
  | textDiffers expected actual _ _ _ =>
    "text mismatch: expected ".toList ++ Text.quoted expected ++ ", got ".toList ++
      Text.quoted actual

/-- The particulars of a fault by name. -/
def details : Fault → List (String × Detail)
  | dependencyMissing group name scope =>
    [("group", .text group), ("name", .text name),
     ("scope", match scope with | none => .absent | some scope => .text scope)]
  | declarationMissing kind name => [("selector", .text (selector kind name))]
  | noVersionPlace plugin rawText => [("plugin", .text plugin), ("raw_text", .text rawText)]
  | blockMissing block => [("block", .text block)]
  | blockOnOneLine block line => [("block", .text block), ("line", .number line)]
  | blockUnclosed block line => [("block", .text block), ("line", .number line)]
  | lineShared group name line =>
    [("group", .text group), ("name", .text name), ("line", .number line)]
  | outOfBounds _ start stop length description =>
    [("start", .number start), ("end", .number stop), ("length", .number length),
     ("description", .text description)]
  | textDiffers expected actual start stop description =>
    [("expected", .text expected), ("actual", .text actual), ("start", .number start),
     ("end", .number stop), ("description", .text description)]

end Fault

end BuildScript
