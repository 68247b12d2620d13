import BuildScript.Region
/-!
# Edits

An edit changes one region of a script: it replaces the text there, deletes it, or inserts at a
point. What the region is expected to hold is recorded with it, so that an edit can be checked
against the script before it is made.

**Order.** `Edit.applicationOrder` runs from the end of the script to its beginning, so that an
edit does not move the text of those still to come. Where edits share a start, replacements and
deletions come before insertions and later submissions before earlier ones; inserted texts
therefore end up in the order in which they were submitted, in front of what was replaced.

Results:
* `mem_applicationOrder`: the order neither drops an edit nor makes one up.
-/
namespace BuildScript

/-- What an edit does with its region (`ModificationKind`). -/
inductive EditKind where
  | replace
  | insert
  | delete
deriving DecidableEq, Repr

namespace EditKind

def name : EditKind → Text
  | replace => "replace".toList
  | insert => "insert".toList
  | delete => "delete".toList

def ofName? (name : Text) : Option EditKind :=
  [replace, insert, delete].find? fun kind => kind.name = name

end EditKind

/-- A change of one region of a script (`Modification`). -/
structure Edit where
  kind : EditKind
  region : Region
  oldText : Text := []
  newText : Text := []
  description : Text := []
deriving DecidableEq, Repr

namespace Edit

def start (e : Edit) : Int := e.region.start

def stop (e : Edit) : Int := e.region.stop

/-- What has to stand in the region for the edit to be made. -/
def expected (e : Edit) : Text := if e.kind = .insert then [] else e.oldText

/-- Whether the start offset and the kind alone put `a` in front of `b`. -/
def outranks (a b : Edit) : Bool :=
  a.start > b.start || (a.start == b.start && a.kind != .insert && b.kind == .insert)

/-- Puts an edit in front of the first one that does not outrank it. -/
def insertOrdered (e : Edit) : List Edit → List Edit
  | [] => [e]
  | a :: rest => if a.outranks e then a :: insertOrdered e rest else e :: a :: rest

/-- The order in which edits are made (`_apply_order`). -/
def applicationOrder (edits : List Edit) : List Edit :=
  edits.foldl (fun ordered e => insertOrdered e ordered) []

theorem mem_insertOrdered {a e : Edit} {l : List Edit} :
    a ∈ insertOrdered e l ↔ a = e ∨ a ∈ l := by
  induction l with
  | nil => simp [insertOrdered]
  | cons b l ih =>
    unfold insertOrdered
    split
    · simp only [List.mem_cons, ih]; constructor
      · rintro (h | h | h) <;> simp [h]
      · rintro (h | h | h) <;> simp [h]
    · simp

theorem mem_applicationOrder {a : Edit} {edits : List Edit} :
    a ∈ applicationOrder edits ↔ a ∈ edits := by
  have key : ∀ l acc, a ∈ List.foldl (fun ordered e => insertOrdered e ordered) acc l ↔
      a ∈ acc ∨ a ∈ l := by
    intro l
    induction l with
    | nil => simp
    | cons b l ih =>
      intro acc
      rw [List.foldl_cons, ih, mem_insertOrdered, List.mem_cons]
      constructor
      · rintro ((h | h) | h) <;> simp [h]
      · rintro (h | h | h) <;> simp [h]
  simp [applicationOrder, key]

end Edit

end BuildScript
