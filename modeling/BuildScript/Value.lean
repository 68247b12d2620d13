import BuildScript.Text.Basic
import BuildScript.Binary64
/-!
# Structured values

What a settings file or a list of fields holds: scalars, lists and mappings. Keys are scalars. A
mapping keeps its keys in the order in which they were first put, and holds one value for each.

**Same key.** The truth values are the numbers one and zero where keys are compared, so `true` and
`1` are one key. The key that was put first stays.
-/
namespace BuildScript

/-- A scalar that names a value in a mapping. -/
inductive Key where
  | null
  | bool (value : Bool)
  | int (value : Int)
  /-- A scalar of any other type, as written: a number with a fraction, a date or a moment. -/
  | other (written : Text)
  | text (value : Text)
deriving DecidableEq, Repr

namespace Key

/-- The representative of the keys that count as the same. -/
def canonical : Key → Key
  | bool true => int 1
  | bool false => int 0
  | key => key

/-- Whether two keys are one in a mapping. -/
def same (a b : Key) : Bool := a.canonical = b.canonical

def written : Key → Text
  | null => "null".toList
  | bool true => "true".toList
  | bool false => "false".toList
  | int value => Text.ofInt value
  | other value => value
  | text value => value

end Key

inductive Value where
  | null
  | bool (value : Bool)
  | int (value : Int)
  /-- A number with a fraction, and how it was written. -/
  | fraction (written : Text) (value : Binary64)
  /-- A scalar of any other type, as written: a date or a moment. -/
  | other (written : Text)
  | text (value : Text)
  | list (items : List Value)
  | mapping (fields : List (Key × Value))
deriving Inhabited

namespace Value

/-- The key that a value may serve as; lists and mappings serve as none. -/
def key? : Value → Option Key
  | null => some .null
  | bool value => some (.bool value)
  | int value => some (.int value)
  | fraction written _ => some (.other written)
  | other written => some (.other written)
  | text value => some (.text value)
  | list _ => none
  | mapping _ => none

/-- Whether a value counts as nothing at the top of a settings file. -/
def isEmpty : Value → Bool
  | null => true
  | bool value => !value
  | int value => value = 0
  | fraction _ value => value.isZero
  | other _ => false
  | text value => value = []
  | list items => items.isEmpty
  | mapping fields => fields.isEmpty

def fields? : Value → Option (List (Key × Value))
  | mapping fields => some fields
  | _ => none

end Value

abbrev Fields := List (Key × Value)

namespace Fields

def get? (fields : Fields) (key : Key) : Option Value :=
  (fields.find? fun field => field.1.same key).map (·.2)

def named? (fields : Fields) (name : Text) : Option Value := get? fields (.text name)

/-- Puts a value under a key, in the place of the one there or behind the others. -/
def put : Fields → Key → Value → Fields
  | [], key, value => [(key, value)]
  | (k, v) :: rest, key, value =>
    if k.same key then (k, value) :: rest else (k, v) :: put rest key value

/-- A mapping from pairs, of which the last one under a key counts. -/
def ofPairs (pairs : List (Key × Value)) : Fields :=
  pairs.foldl (fun fields (key, value) => put fields key value) []

end Fields

end BuildScript
