import BuildScript.Value
/-!
# Reading fields, with complaints

Records and settings are read from named fields. Reading checks everything and reports all that is
wrong at once, each complaint with the path to the offending value.

**Fields.** A field may be required or have a default. A field of any other name is a complaint,
and so is a key that is not a text.

**Truth values** may also be written as the numbers one and zero or as one of a few words, in
letters of either case. Any other word, and any other whole number of 64 binary digits, is not
understood; anything else is no truth value at all.
-/
namespace BuildScript

/-- A step on the path to a value. -/
inductive PathPart where
  | name (value : Text)
  | number (value : Int)
deriving DecidableEq, Repr

namespace PathPart

def written : PathPart → Text
  | name value => value
  | number value => Text.ofInt value

end PathPart

/-- What is wrong with a value. -/
inductive ComplaintKind where
  | missing
  | extra
  | notText
  | notBool
  | unknownBool
  | notMapping
  | notSection (name : Text)
  | notMark
  | keyNotText
deriving DecidableEq, Repr

namespace ComplaintKind

def name : ComplaintKind → Text
  | missing => "missing".toList
  | extra => "extra_forbidden".toList
  | notText => "string_type".toList
  | notBool => "bool_type".toList
  | unknownBool => "bool_parsing".toList
  | notMapping => "dict_type".toList
  | notSection _ => "model_type".toList
  | notMark => "literal_error".toList
  | keyNotText => "invalid_key".toList

def message : ComplaintKind → Text
  | missing => "Field required".toList
  | extra => "Extra inputs are not permitted".toList
  | notText => "Input should be a valid string".toList
  | notBool => "Input should be a valid boolean".toList
  | unknownBool => "Input should be a valid boolean, unable to interpret input".toList
  | notMapping => "Input should be a valid dictionary".toList
  | notSection name =>
    "Input should be a valid dictionary or instance of ".toList ++ name
  | notMark => "Input should be \"'\" or '\"'".toList
  | keyNotText => "Keys should be strings".toList

end ComplaintKind

/-- Something wrong with a value, and the path to it. -/
structure Complaint where
  path : List PathPart
  kind : ComplaintKind
deriving DecidableEq, Repr

namespace Complaint

/-- The complaint seen from one step further out. -/
def under (part : PathPart) (c : Complaint) : Complaint := { c with path := part :: c.path }

/-- Complaints in the order of their paths, steps compared as texts. -/
def sorted (complaints : List Complaint) : List Complaint :=
  sortStable (fun a b => decide (a.path.map (·.written) < b.path.map (·.written))) complaints

end Complaint

/-- The outcome of reading a value: the value, or all complaints about it. -/
abbrev Checked (α : Type) := Except (List Complaint) α

namespace Checked

variable {α β : Type}

/-- A complaint about the value itself. -/
def fail (kind : ComplaintKind) : Checked α := .error [⟨[], kind⟩]

def under (part : PathPart) (checked : Checked α) : Checked α :=
  checked.mapError fun complaints => complaints.map (·.under part)

/-- Two values together, with the complaints about both. -/
def both (a : Checked α) (b : Checked β) : Checked (α × β) :=
  match a, b with
  | .ok a, .ok b => .ok (a, b)
  | .ok _, .error e => .error e
  | .error e, .ok _ => .error e
  | .error e, .error e' => .error (e ++ e')

/-- The values of a list, with the complaints about all of them. -/
def all : List (Checked α) → Checked (List α)
  | [] => .ok []
  | c :: cs => (both c (all cs)).map fun (a, as) => a :: as

end Checked

namespace Value

def readText : Value → Checked Text
  | text s => .ok s
  | _ => .fail .notText

def trueWords : List Text := ["1", "on", "t", "true", "y", "yes"].map String.toList

def falseWords : List Text := ["0", "off", "f", "false", "n", "no"].map String.toList

def boolOfWhole (n : Int) : Checked Bool :=
  if n = 0 then .ok false else if n = 1 then .ok true else .fail .unknownBool

/-- Whether a whole number has 64 binary digits, its sign included. -/
def fits64 (n : Int) : Bool := -(Nat.pow 2 63 : Int) ≤ n && n < (Nat.pow 2 63 : Int)

/-- Reads a truth value. Of the numbers with a fraction only those that are whole will do. -/
def readBool : Value → Checked Bool
  | bool b => .ok b
  | int n => if fits64 n then boolOfWhole n else .fail .notBool
  | fraction _ value =>
    match value.whole? with
    | some n => if fits64 n && n != -(Nat.pow 2 63 : Int) then boolOfWhole n else .fail .notBool
    | none => .fail .notBool
  | text s =>
    let word := s.map Char.toLower
    if word ∈ trueWords then .ok true
    else if word ∈ falseWords then .ok false
    else .fail .unknownBool
  | _ => .fail .notBool

end Value

namespace Key

/-- A key as a step on a path. Truth values count as numbers; a number beyond 64 bits and any other
key is shown as it is written. -/
def pathPart : Key → PathPart
  | text s => .name s
  | null => .name "None".toList
  | bool b => .number (if b then 1 else 0)
  | int n => if Value.fits64 n then .number n else .name (Text.ofInt n)
  | other s => .name s

end Key

namespace Fields

/-- Reads the field of a name, which must be there. -/
def required {α : Type} (fields : Fields) (name : String) (read : Value → Checked α) :
    Checked α :=
  match fields.named? name.toList with
  | some value => (read value).under (.name name.toList)
  | none => .error [⟨[.name name.toList], .missing⟩]

/-- Reads the field of a name, which may be left out. -/
def optional {α : Type} (fields : Fields) (name : String) (default : α)
    (read : Value → Checked α) : Checked α :=
  match fields.named? name.toList with
  | some value => (read value).under (.name name.toList)
  | none => .ok default

/-- Complains about all fields but those of the given names. -/
def onlyNamed (fields : Fields) (names : List String) : Checked Unit :=
  (Checked.all (fields.map fun field =>
    match field.1 with
    | .text name =>
      if name ∈ names.map String.toList then .ok ()
      else .error [⟨[.name name], .extra⟩]
    | key => .error [⟨[key.pathPart], .keyNotText⟩])).map fun _ => ()

end Fields

end BuildScript
