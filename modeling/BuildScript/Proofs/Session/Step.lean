import BuildScript.Session.Request
import BuildScript.Proofs.Index.Placement
/-!
# What a request can do

However a request selects its entry and writes its text, it does one of five things to the session:
nothing, dropping all changes, recording a new text for an entry in place, recording the deletion
of such an entry's line, or recording an insertion in front of the line that closes a block. `Step`
says so, and whatever all five keep is kept by every request.

Results:
* `selectDependency_spec`, `select?_spec`: what is selected is in place and fits.
* `select?_of_first`: the first entry that fits is selected.
* `step_after`: the session behind a request is a step away.
* `attempt_of_block?`: a request that adds to a block inserts into that block.
-/
namespace BuildScript

namespace Declaration

theorem eq_of_property? {d : Declaration} {p : Property} (h : d.property? = some p) :
    d = .property p := by
  cases d <;> simp [property?] at h
  rw [h]

theorem eq_of_plugin? {d : Declaration} {p : Plugin} (h : d.plugin? = some p) : d = .plugin p := by
  cases d <;> simp [plugin?] at h
  rw [h]

theorem eq_of_repository? {d : Declaration} {r : Repository} (h : d.repository? = some r) :
    d = .repository r := by
  cases d <;> simp [repository?] at h
  rw [h]

end Declaration

namespace Session

/-- The edit that deletes a line of a text, lines counting from zero. -/
def lineRemoval (text : Text) (k : Nat) (description : Text) : Edit :=
  let bounds := removalBounds text k
  ⟨.delete, .between (Text.lineStarts text) bounds.1 bounds.2, (text.take bounds.2).drop bounds.1,
    [], description⟩

/-- The edit that puts a declaration in front of a line of a text, lines counting from zero. -/
def lineInsertion (text : Text) (k : Nat) (declaration description : Text) : Edit :=
  ⟨.insert, .point (k + 1) 1 (Text.lineStart text k), [], declaration ++ ['\n'], description⟩

/-! ## Selection -/

theorem mem_remaining {s : Session} {e : Entry} {i : Nat} (h : (e, i) ∈ s.remaining) :
    s.index.entries[i]? = some e ∧ s.isRemoved i = false := by
  obtain ⟨hmem, hrem⟩ := List.mem_filter.1 h
  exact ⟨List.mem_zipIdx_iff_getElem?.1 hmem, by simpa using hrem⟩

/-- A dependency that is selected is in place, has the group and name asked for and is not another
project. -/
theorem selectDependency_spec {s : Session} {group name : Text} {scope : Option Text} {e : Entry}
    {d : Dependency} {i : Nat}
    (h : (s.selectDependency group name scope).1 = .ok (e, d, i)) :
    (e, i) ∈ s.remaining ∧ e.declaration = .dependency d ∧ d.group = group ∧ d.name = name ∧
      d.isProjectReference = false := by
  unfold selectDependency at h
  split at h
  · cases h
  · next first others hc =>
    cases h
    have hmem : (e, d, i) ∈ s.dependencyCandidates group name scope := by
      rw [hc]
      exact List.mem_cons_self
    obtain ⟨⟨e', i'⟩, hrem, hf⟩ := List.mem_filterMap.1 hmem
    dsimp only at hf
    split at hf
    · next hd =>
      split at hf
      · next hfit =>
        cases hf
        exact ⟨hrem, hd, hfit.1, hfit.2.1, by simpa using hfit.2.2.2⟩
      · cases hf
    · cases hf

/-- What is selected is in place, and `read` accepts it. -/
theorem select?_spec {α : Type} {s : Session} {read : Declaration → Option α} {e : Entry} {a : α}
    {i : Nat} (h : s.select? read = some (e, a, i)) :
    (e, i) ∈ s.remaining ∧ read e.declaration = some a := by
  obtain ⟨⟨e', i'⟩, hmem, hf⟩ := List.exists_of_findSome?_eq_some h
  obtain ⟨a', ha, he⟩ := Option.map_eq_some_iff.1 hf
  cases he
  exact ⟨hmem, ha⟩

/-- An entry in place stands among the remaining ones behind entries that come before it. -/
theorem remaining_eq_append {s : Session} {e : Entry} {i : Nat} (he : s.index.entries[i]? = some e)
    (hplace : s.isRemoved i = false) : ∃ front rest, s.remaining = front ++ (e, i) :: rest ∧
      ∀ p ∈ front, p.2 < i ∧ s.index.entries[p.2]? = some p.1 := by
  obtain ⟨hi, rfl⟩ := List.getElem?_eq_some_iff.1 he
  have hremaining : s.remaining = s.index.entries.zipIdx.filter fun p => !s.isRemoved p.2 := rfl
  have hi' : i < s.index.entries.zipIdx.length := by rwa [List.length_zipIdx]
  have hsplit : s.index.entries.zipIdx = s.index.entries.zipIdx.take i ++
      (s.index.entries[i], i) :: s.index.entries.zipIdx.drop (i + 1) := by
    have helem : s.index.entries.zipIdx[i] = (s.index.entries[i], i) := by simp
    rw [← helem, ← List.drop_eq_getElem_cons hi', List.take_append_drop]
  refine ⟨(s.index.entries.zipIdx.take i).filter fun p => !s.isRemoved p.2,
    (s.index.entries.zipIdx.drop (i + 1)).filter fun p => !s.isRemoved p.2, ?_, fun p hp => ?_⟩
  · rw [hremaining, hsplit, List.filter_append, List.filter_cons_of_pos (by simp [hplace]),
      ← hsplit]
  · obtain ⟨j, hj, rfl⟩ := List.mem_take_iff_getElem.1 (List.mem_filter.1 hp).1
    rw [List.getElem_zipIdx]
    exact ⟨by simp; omega, by simp⟩

/-- The first entry that fits is selected if it is in place. -/
theorem select?_of_first {α : Type} {s : Session} {read : Declaration → Option α} {e : Entry}
    {a : α} {i : Nat} (he : s.index.entries[i]? = some e) (hplace : s.isRemoved i = false)
    (ha : read e.declaration = some a)
    (hfirst : ∀ j < i, ∀ e', s.index.entries[j]? = some e' → read e'.declaration = none) :
    s.select? read = some (e, a, i) := by
  obtain ⟨front, rest, hremaining, hfront⟩ := remaining_eq_append he hplace
  rw [select?, hremaining, List.findSome?_eq_some_iff]
  refine ⟨front, (e, i), rest, rfl, Option.map_eq_some_iff.2 ⟨a, ha, rfl⟩, fun p hp => ?_⟩
  obtain ⟨hlt, hp⟩ := hfront p hp
  exact Option.map_eq_none_iff.2 (hfirst p.2 hlt p.1 hp)

end Session

/-! ## Steps -/

namespace Request

/-- The block that a request adds a declaration to, if it does. -/
def block? : Request → Option Text
  | addDependency _ _ _ _ => some "dependencies".toList
  | addPlugin _ _ => some "plugins".toList
  | addRepository _ => some "repositories".toList
  | _ => none

/-- The line that a request adds a declaration in front of, if it does. -/
def addition? (lines : List Text) (r : Request) : Option Nat :=
  r.block?.bind fun block => (Block.closingLine block lines).toOption

end Request

namespace Session

/-- The entry whose line a request deletes, if it does. -/
def removal? (s : Session) : Request → Option Nat
  | .removeDependency group name scope =>
    match s.selectDependency group name scope with
    | (.error _, _) => none
    | (.ok (e, d, i), _) => if s.ownsLine e d then some i else none
  | _ => none

/-- A request neither drops changes nor deletes or adds a line. -/
structure KeepsLines (s : Session) (r : Request) : Prop where
  clear : r ≠ .clear
  removal : s.removal? r = none
  addition : r.addition? s.index.lines = none

/-- The five things that a request can do to a session. -/
inductive Step (s : Session) (r : Request) : Session → Prop
  | stay (hr : s.KeepsLines r) : Step s r s
  | clear (hr : r = .clear) : Step s r s.clear
  | record (hr : s.KeepsLines r) {e : Entry} {i : Nat} (h : (e, i) ∈ s.remaining)
      (value : Declaration) (newText description : Text) :
      Step s r (s.record i e value newText description)
  | remove {e : Entry} {i : Nat} (hclear : r ≠ .clear) (hr : s.removal? r = some i)
      (hadd : r.addition? s.index.lines = none) (h : (e, i) ∈ s.remaining) (description : Text) :
      Step s r (s.recordRemoval i (lineRemoval s.index.text e.line description))
  | insert {block : Text} {k : Nat} (hclear : r ≠ .clear)
      (hr : r.addition? s.index.lines = some k) (hrem : s.removal? r = none)
      (h : Block.closingLine block s.index.lines = .ok k) (declaration description : Text) :
      Step s r (s.recordInsertion (lineInsertion s.index.text k declaration description))

theorem step_setDependencyVersion (s : Session) (group name version : Text)
    (scope : Option Text) :
    Step s (.setDependencyVersion group name version scope)
      (s.setDependencyVersion group name version scope).session := by
  have hr : s.KeepsLines (.setDependencyVersion group name version scope) :=
    ⟨Request.noConfusion, rfl, rfl⟩
  unfold setDependencyVersion
  split
  · exact .stay hr
  · next hsel =>
    split
    · exact .stay hr
    · exact .record hr (selectDependency_spec (congrArg Prod.fst hsel)).1 _ _ _

theorem step_setPluginVersion (s : Session) (id version : Text) :
    Step s (.setPluginVersion id version) (s.setPluginVersion id version).session := by
  have hr : s.KeepsLines (.setPluginVersion id version) := ⟨Request.noConfusion, rfl, rfl⟩
  unfold setPluginVersion
  split
  · exact .stay hr
  · next hsel =>
    split
    · exact .stay hr
    · split
      · exact .stay hr
      · exact .record hr (select?_spec hsel).1 _ _ _

theorem step_setProperty (s : Session) (key value : Text) :
    Step s (.setProperty key value) (s.setProperty key value).session := by
  have hr : s.KeepsLines (.setProperty key value) := ⟨Request.noConfusion, rfl, rfl⟩
  unfold setProperty
  split
  · exact .stay hr
  · next hsel =>
    split
    · exact .stay hr
    · exact .record hr (select?_spec hsel).1 _ _ _

theorem step_setRepositoryUrl (s : Session) (name url : Text) :
    Step s (.setRepositoryUrl name url) (s.setRepositoryUrl name url).session := by
  have hr : s.KeepsLines (.setRepositoryUrl name url) := ⟨Request.noConfusion, rfl, rfl⟩
  unfold setRepositoryUrl
  split
  · exact .stay hr
  · next hsel =>
    split
    · exact .stay hr
    · exact .record hr (select?_spec hsel).1 _ _ _

theorem step_removeDependency (s : Session) (group name : Text) (scope : Option Text) :
    Step s (.removeDependency group name scope) (s.removeDependency group name scope).session := by
  have hkeeps (h : s.removal? (.removeDependency group name scope) = none) :
      s.KeepsLines (.removeDependency group name scope) := ⟨Request.noConfusion, h, rfl⟩
  unfold removeDependency
  cases hsel : s.selectDependency group name scope with
  | mk selected warnings =>
    cases selected with
    | error fault => exact .stay (hkeeps (by rw [removal?, hsel]))
    | ok found =>
      obtain ⟨e, d, i⟩ := found
      dsimp only
      split
      · next howns =>
        refine .remove Request.noConfusion ?_ rfl
          (selectDependency_spec (congrArg Prod.fst hsel)).1 _
        rw [removal?, hsel]
        exact if_pos howns
      · next howns =>
        refine .stay (hkeeps ?_)
        rw [removal?, hsel]
        exact if_neg howns

/-- A request that adds to a block is an insertion of a declaration into that block. -/
theorem attempt_of_block? (s : Session) {r : Request} {block : Text} (h : r.block? = some block) :
    ∃ declaration description, s.attempt r = s.insertInto block declaration description := by
  cases r <;> cases h
  · exact ⟨_, _, rfl⟩
  · exact ⟨_, _, rfl⟩
  · next nameOrUrl =>
    show ∃ declaration description, s.addRepository nameOrUrl = _
    unfold addRepository
    split <;> exact ⟨_, _, rfl⟩

theorem after_of_block? (s : Session) {r : Request} {block : Text} (h : r.block? = some block) :
    ∃ declaration description,
      s.after r = (s.insertInto block declaration description).session := by
  obtain ⟨declaration, description, hattempt⟩ := s.attempt_of_block? h
  exact ⟨declaration, description, congrArg Attempt.session hattempt⟩

theorem step_of_block? (s : Session) {r : Request} {block : Text} (h : r.block? = some block) :
    Step s r (s.after r) := by
  have hother : r ≠ .clear ∧ s.removal? r = none := by
    cases r <;> first | exact ⟨Request.noConfusion, rfl⟩ | cases h
  obtain ⟨declaration, description, hafter⟩ := s.after_of_block? h
  have hadd : r.addition? s.index.lines = (Block.closingLine block s.index.lines).toOption := by
    rw [Request.addition?, h]
    rfl
  rw [hafter, insertInto]
  cases hclosing : Block.closingLine block s.index.lines with
  | error fault => exact .stay ⟨hother.1, hother.2, by rw [hadd, hclosing]; rfl⟩
  | ok k =>
    refine .insert hother.1 ?_ hother.2 hclosing (s.options.indent ++ declaration) description
    rw [hadd, hclosing]
    rfl

/-- The session behind a request is a step away. -/
theorem step_after (s : Session) (r : Request) : Step s r (s.after r) := by
  cases hb : r.block? with
  | some block => exact step_of_block? s hb
  | none =>
    cases r with
    | setDependencyVersion group name version scope =>
      exact step_setDependencyVersion s group name version scope
    | setPluginVersion id version => exact step_setPluginVersion s id version
    | setProperty key value => exact step_setProperty s key value
    | setRepositoryUrl name url => exact step_setRepositoryUrl s name url
    | addDependency => cases hb
    | addPlugin => cases hb
    | addRepository => cases hb
    | removeDependency group name scope => exact step_removeDependency s group name scope
    | clear => exact .clear rfl

theorem afterAll_induction {P : Session → Prop}
    (hstep : ∀ {s s' : Session} {r : Request}, P s → Step s r s' → P s') {s : Session} (h : P s)
    (requests : List Request) : P (s.afterAll requests) := by
  induction requests generalizing s with
  | nil => exact h
  | cons r requests ih => exact ih (hstep h (step_after s r))

end Session

end BuildScript
