import BuildScript.Fault
import BuildScript.Text.Lines
/-!
# Replaying edits

`replay` makes a list of edits in a script, one after the other in the order of application, and
reports what happened.

**One edit.** The region has to lie within the text as it is at that moment. If the region holds
what the edit expects, the edit is made there. Otherwise, if the text it expects is met exactly
once on the line that the region starts on, the edit is made there instead; this is a relocation.
Otherwise the edit is refused, and with it the whole list.

**Events.** Every relocation is reported, then the end: either the totals or the edit that was
refused. Making no edits is not reported.

Results:
* `replay_nil`: without edits the text stays as it is and nothing is reported.
* `splice_of_match`: an edit whose region holds what it expects is made in place.
-/
namespace BuildScript

namespace Edit

/-- The only place at which the text expected by an edit is met on the line around `start`. -/
def relocation? (e : Edit) (text : Text) : Option Nat :=
  let bounds := Text.lineBounds text e.start
  let line := (text.take bounds.2).drop bounds.1
  if e.expected ≠ [] ∧ Text.disjointCount e.expected line = 1 then
    (Text.find? e.expected line).map (bounds.1 + ·)
  else none

/-- Puts the new text of an edit in the place of the characters from `start` up to `stop`. -/
def put (e : Edit) (text : Text) (start stop : Nat) : Text :=
  text.take start ++ e.newText ++ text.drop stop

/-- Makes one edit (`_apply_one`). The result comes with the place the edit was relocated to, if it
was. -/
def splice (e : Edit) (text : Text) : Except Fault (Text × Option Nat) :=
  if e.start < 0 ∨ e.stop > text.length ∨ e.start > e.stop then
    .error (.outOfBounds e.kind e.start e.stop text.length e.description)
  else
    let actual := Text.slice text e.start e.stop
    if actual = e.expected then .ok (e.put text e.start.toNat e.stop.toNat, none)
    else
      match e.relocation? text with
      | some place => .ok (e.put text place (place + e.expected.length), some place)
      | none => .error (.textDiffers e.expected actual e.start e.stop e.description)

/-- An edit whose region holds what it expects is made in place. -/
theorem splice_of_match {e : Edit} {text : Text} (h0 : 0 ≤ e.start) (h1 : e.start ≤ e.stop)
    (h2 : e.stop ≤ text.length) (h : Text.slice text e.start e.stop = e.expected) :
    e.splice text = .ok (e.put text e.start.toNat e.stop.toNat, none) := by
  have hb : ¬ (e.start < 0 ∨ e.stop > text.length ∨ e.start > e.stop) := by omega
  simp [splice, hb, h]

end Edit

/-- What is reported about a replay. -/
inductive Event where
  | relocated (edit : Edit) (place : Nat)
  | applied (total relocated oldLength newLength : Nat)
  | refused (edit : Edit) (fault : Fault)
deriving DecidableEq, Repr

/-- The outcome of a replay and the events on the way. -/
structure Replay where
  result : Except Fault Text
  events : List Event

namespace Replay

/-- Makes edits in the order given, up to the first that is refused. -/
def run (text : Text) : List Edit → Replay
  | [] => ⟨.ok text, []⟩
  | e :: rest =>
    match e.splice text with
    | .error fault => ⟨.error fault, [.refused e fault]⟩
    | .ok (text, none) => run text rest
    | .ok (text, some place) =>
      let later := run text rest
      ⟨later.result, .relocated e place :: later.events⟩

end Replay

/-- Makes edits in a text (`apply`). -/
def replay (text : Text) (edits : List Edit) : Replay :=
  if edits = [] then ⟨.ok text, []⟩
  else
    let made := Replay.run text (Edit.applicationOrder edits)
    match made.result with
    | .ok new =>
      { made with
        events := made.events ++
          [.applied edits.length made.events.length text.length new.length] }
    | .error _ => made

@[simp] theorem replay_nil (text : Text) : replay text [] = ⟨.ok text, []⟩ := rfl

end BuildScript
