import BuildScript.Session.Request
import BuildScript.Index.Parse
/-!
# Refused requests

A request is refused as a whole. Whatever it has looked up by then, whether an entry, a place for a
version, a block or a line, the session that it leaves behind is the one it was put to: the pending
changes, the entries and the remembered texts. So no later request can tell that it was made, and a
course of requests comes to the same without the requests in it that are refused.

Results:
* `attempt_atomic`: a refused request leaves the session as it was.
* `attempts_accepted`, `afterAll_accepted`: a course comes to the same without its refused requests.
* `refused_without_trace`: behind a refused request everything goes on as if it had not been made.
-/
namespace BuildScript

/-- An attempt on a session changes it only if it is not refused. -/
def Attempt.Atomic (s : Session) (a : Attempt) : Prop := a.fault ≠ none → a.session = s

namespace Attempt.Atomic

variable {s : Session} {a : Attempt}

theorem of_accepted (h : a.fault = none) : a.Atomic s := fun hfault => absurd h hfault

theorem of_session (h : a.session = s) : a.Atomic s := fun _ => h

end Attempt.Atomic

namespace Session

open Attempt

/-! ## One request -/

theorem atomic_setDependencyVersion (s : Session) (group name version : Text)
    (scope : Option Text) : (s.setDependencyVersion group name version scope).Atomic s := by
  unfold setDependencyVersion
  split
  · exact .of_session rfl
  · split
    · exact .of_session rfl
    · exact .of_accepted rfl

theorem atomic_setPluginVersion (s : Session) (id version : Text) :
    (s.setPluginVersion id version).Atomic s := by
  unfold setPluginVersion
  split
  · exact .of_session rfl
  · split
    · exact .of_session rfl
    · split
      · exact .of_session rfl
      · exact .of_accepted rfl

theorem atomic_setProperty (s : Session) (key value : Text) :
    (s.setProperty key value).Atomic s := by
  unfold setProperty
  split
  · exact .of_session rfl
  · split
    · exact .of_session rfl
    · exact .of_accepted rfl

theorem atomic_setRepositoryUrl (s : Session) (name url : Text) :
    (s.setRepositoryUrl name url).Atomic s := by
  unfold setRepositoryUrl
  split
  · exact .of_session rfl
  · split
    · exact .of_session rfl
    · exact .of_accepted rfl

theorem atomic_insertInto (s : Session) (block declaration description : Text) :
    (s.insertInto block declaration description).Atomic s := by
  unfold insertInto
  split
  · exact .of_session rfl
  · exact .of_accepted rfl

theorem atomic_addRepository (s : Session) (nameOrUrl : Text) :
    (s.addRepository nameOrUrl).Atomic s := by
  unfold addRepository
  split <;> exact s.atomic_insertInto _ _ _

theorem atomic_removeDependency (s : Session) (group name : Text) (scope : Option Text) :
    (s.removeDependency group name scope).Atomic s := by
  unfold removeDependency
  split
  · exact .of_session rfl
  · split
    · exact .of_accepted rfl
    · exact .of_session rfl

/-- A refused request leaves the session as it was. -/
theorem attempt_atomic (s : Session) (r : Request) : (s.attempt r).Atomic s := by
  cases r with
  | setDependencyVersion group name version scope =>
    exact s.atomic_setDependencyVersion group name version scope
  | setPluginVersion id version => exact s.atomic_setPluginVersion id version
  | setProperty key value => exact s.atomic_setProperty key value
  | setRepositoryUrl name url => exact s.atomic_setRepositoryUrl name url
  | addDependency => exact s.atomic_insertInto _ _ _
  | addPlugin => exact s.atomic_insertInto _ _ _
  | addRepository nameOrUrl => exact s.atomic_addRepository nameOrUrl
  | removeDependency group name scope => exact s.atomic_removeDependency group name scope
  | clear => exact .of_accepted rfl

theorem after_of_refused {s : Session} {r : Request} (h : (s.attempt r).fault ≠ none) :
    s.after r = s := s.attempt_atomic r h

/-! ## Courses of requests -/

/-- What a course of requests comes to: the attempts one after the other. -/
def attempts (s : Session) : List Request → List Attempt
  | [] => []
  | r :: rs => s.attempt r :: (s.after r).attempts rs

/-- The requests of a course that are carried out. -/
def accepted (s : Session) : List Request → List Request
  | [] => []
  | r :: rs =>
    if (s.attempt r).fault = none then r :: (s.after r).accepted rs else (s.after r).accepted rs

/-- The attempts of a course that are not refused are those of the course without the others. -/
theorem attempts_accepted (s : Session) (requests : List Request) :
    s.attempts (s.accepted requests) = (s.attempts requests).filter (·.fault = none) := by
  induction requests generalizing s with
  | nil => rfl
  | cons r rs ih =>
    rw [accepted, attempts]
    split
    · next h => rw [attempts, ih, List.filter_cons_of_pos (by simpa using h)]
    · next h =>
      rw [List.filter_cons_of_neg (by simpa using h), ← ih, after_of_refused h]

/-- A course leads to the same session without its refused requests. -/
theorem afterAll_accepted (s : Session) (requests : List Request) :
    s.afterAll (s.accepted requests) = s.afterAll requests := by
  induction requests generalizing s with
  | nil => rfl
  | cons r rs ih =>
    rw [accepted]
    split
    · exact ih (s.after r)
    · next h =>
      have hrest := ih (s.after r)
      rw [after_of_refused h] at hrest ⊢
      show _ = (s.after r).afterAll rs
      rw [hrest, after_of_refused h]

/-- Behind a refused request everything goes on as if it had not been made: the same edits are
pending, the entries show the same values and texts in the same regions, every later course of
requests has the same outcome, and the same script is rendered behind it. -/
theorem refused_without_trace (options : ParseOptions) (editor : EditorOptions) (text : Text)
    (before later : List Request) (r : Request)
    (h : (((start (Index.parse options text) editor).afterAll before).attempt r).fault ≠ none) :
    let s := (start (Index.parse options text) editor).afterAll before
    (s.after r).edits = s.edits ∧ (s.after r).index.entries = s.index.entries ∧
      (s.after r).attempts later = s.attempts later ∧
      ((s.after r).afterAll later).render = (s.afterAll later).render := by
  intro s
  rw [show s.after r = s from after_of_refused h]
  exact ⟨rfl, rfl, rfl, rfl⟩

/-- A script that declares a dependency on the line that opens and closes its block. -/
def sharedLine : Text := "dependencies \x7b implementation 'a:b:1' \x7d\nversion = '1'".toList

/-- The dependency is given a version, but its line cannot be removed; the version is in place for
the requests behind that. -/
theorem refused_sharedLine :
    let s := (start (Index.parse {} sharedLine) {}).afterAll
      [.setDependencyVersion "a".toList "b".toList "2".toList none]
    let r : Request := .removeDependency "a".toList "b".toList none
    let later : List Request :=
      [.setProperty "version".toList "2".toList,
        .setDependencyVersion "a".toList "b".toList "1".toList none]
    (s.attempt r).fault = some (.lineShared "a".toList "b".toList 1) ∧ s.edits.length = 1 ∧
      (s.after r).edits = s.edits ∧ (s.after r).index.entries = s.index.entries ∧
      (s.after r).attempts later = s.attempts later ∧
      ((s.after r).afterAll later).render = (s.afterAll later).render :=
  ⟨by decide, by decide, refused_without_trace {} {} sharedLine _ _ _ (by decide)⟩

end Session

end BuildScript
