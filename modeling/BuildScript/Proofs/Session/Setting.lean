import BuildScript.Proofs.Session.Removal
/-!
# One entry set several times

Requests that set the value of one entry, and of no other, leave a session that differs from the one
they began with in that entry alone: in what it declares, in its text, and in the one replacement
that is pending if the text is not the one that was parsed. `Shows` says so. Of two values recorded
for the entry only the second shows, whatever the first was, so what a first value leaves behind it
leaves in the text.

**Selection.** A request for the first entry that fits selects that entry again, as long as the
entry still fits: the entries in front of it are as they were, and none is removed.

Results:
* `selectDependency_of_first`: the first dependency that fits is selected.
* `Shows.record`: of two texts recorded for an entry the second one counts.
* `Shows.bare_edits`, `Shows.agree_iff`: what is pending, and when two sessions agree.
-/
namespace BuildScript

/-- An edit without its wording. -/
def Edit.bare (e : Edit) : Edit := { e with description := [] }

namespace Session

/-- The first dependency that fits is selected if it is in place. -/
theorem selectDependency_of_first {s : Session} {group name : Text} {scope : Option Text}
    {e : Entry} {d : Dependency} {i : Nat} (he : s.index.entries[i]? = some e)
    (hplace : s.isRemoved i = false) (hd : e.declaration = .dependency d)
    (hfits : d.Fits group name scope)
    (hfirst : ∀ j < i, ∀ e' d', s.index.entries[j]? = some e' →
      e'.declaration = .dependency d' → ¬ d'.Fits group name scope) :
    (s.selectDependency group name scope).1 = .ok (e, d, i) := by
  obtain ⟨front, rest, hremaining, hfront⟩ := remaining_eq_append he hplace
  obtain ⟨others, hcandidates⟩ : ∃ others,
      s.dependencyCandidates group name scope = (e, d, i) :: others := by
    rw [dependencyCandidates, hremaining]
    refine ⟨_, List.filterMap_eq_cons_iff.2 ⟨front, (e, i), rest, rfl, fun p hp => ?_, ?_, rfl⟩⟩
    · obtain ⟨hlt, hp⟩ := hfront p hp
      dsimp only
      split
      · next d' hd' => exact if_neg (mt Dependency.fits_iff.1 (hfirst p.2 hlt p.1 d' hp hd'))
      · rfl
    · dsimp only
      rw [hd]
      exact if_pos (Dependency.fits_iff.2 hfits)
  rw [selectDependency, hcandidates]

/-- A session in which nothing has been changed but the declaration and the text of one entry, with
one replacement pending if the text is not the one that was parsed. -/
structure Shows (base : Index) (i : Nat) (e : Entry) (value : Declaration) (raw : Text)
    (s : Session) : Prop where
  index : s.index =
    { base with entries := base.entries.set i { e with declaration := value, rawText := raw } }
  parsedTexts : s.parsedTexts = base.entries.map (·.rawText)
  changes : ∃ description, s.changes = if raw = e.rawText then []
    else [.update i ⟨.replace, e.region, e.rawText, raw, description⟩]

namespace Shows

variable {base : Index} {i : Nat} {e : Entry} {value : Declaration} {raw : Text} {s s' : Session}

/-! ## Setting a value -/

theorem start (he : base.entries[i]? = some e) (editor : EditorOptions) :
    Shows base i e e.declaration e.rawText (start base editor) := by
  obtain ⟨hi, rfl⟩ := List.getElem?_eq_some_iff.1 he
  exact ⟨by rw [List.set_getElem_self]; rfl, rfl, [], by rw [if_pos rfl]; rfl⟩

theorem parsedText (h : Shows base i e value raw s) (he : base.entries[i]? = some e) :
    s.parsedText i = e.rawText := by
  rw [Session.parsedText, h.parsedTexts, List.getD_eq_getElem?_getD, List.getElem?_map, he]
  rfl

/-- Of two texts recorded for an entry the second one counts. -/
theorem record (h : Shows base i e value raw s) (he : base.entries[i]? = some e)
    (value' : Declaration) (raw' description : Text) :
    Shows base i e value' raw' (s.record i { e with declaration := value, rawText := raw }
      value' raw' description) := by
  refine ⟨?_, h.parsedTexts, description, ?_⟩
  · simp only [Session.record, h.index, List.set_set]
  · have hothers : (s.changes.filter fun c => !c.updates i) = [] := by
      obtain ⟨_, hchanges⟩ := h.changes
      rw [hchanges]
      split <;> simp [Change.updates]
    have hparsed := h.parsedText he
    by_cases hsame : raw' = e.rawText
    · rw [changes_record_of_eq (hsame.trans hparsed.symm), hothers, if_pos hsame]
    · rw [changes_record_of_ne (hparsed ▸ hsame), hothers, hparsed, if_neg hsame]
      rfl

/-! ## Selecting the entry again -/

theorem entry (h : Shows base i e value raw s) (he : base.entries[i]? = some e) :
    s.index.entries[i]? = some { e with declaration := value, rawText := raw } := by
  rw [h.index]
  exact List.getElem?_set_self (List.getElem?_eq_some_iff.1 he).1

theorem entry_ne (h : Shows base i e value raw s) {j : Nat} (hj : j ≠ i) :
    s.index.entries[j]? = base.entries[j]? := by
  rw [h.index]
  exact List.getElem?_set_ne (Ne.symm hj)

theorem isRemoved (h : Shows base i e value raw s) (j : Nat) : s.isRemoved j = false := by
  obtain ⟨_, hchanges⟩ := h.changes
  rw [Session.isRemoved, hchanges]
  split <;> rfl

theorem select? {α : Type} {read : Declaration → Option α} {a : α}
    (h : Shows base i e value raw s) (he : base.entries[i]? = some e) (ha : read value = some a)
    (hfirst : ∀ j < i, ∀ e', base.entries[j]? = some e' → read e'.declaration = none) :
    s.select? read = some ({ e with declaration := value, rawText := raw }, a, i) := by
  refine select?_of_first (h.entry he) (h.isRemoved i) ha fun j hj e' he' => ?_
  rw [h.entry_ne (Nat.ne_of_lt hj)] at he'
  exact hfirst j hj e' he'

theorem selectDependency {d : Dependency} {group name : Text} {scope : Option Text}
    (h : Shows base i e (.dependency d) raw s) (he : base.entries[i]? = some e)
    (hfits : d.Fits group name scope)
    (hfirst : ∀ j < i, ∀ e' d', base.entries[j]? = some e' → e'.declaration = .dependency d' →
      ¬ d'.Fits group name scope) : (s.selectDependency group name scope).1 =
        .ok ({ e with declaration := .dependency d, rawText := raw }, d, i) := by
  refine selectDependency_of_first (h.entry he) (h.isRemoved i) rfl hfits fun j hj e' d' he' => ?_
  rw [h.entry_ne (Nat.ne_of_lt hj)] at he'
  exact hfirst j hj e' d' he'

/-! ## What is pending -/

/-- What is pending is a replacement of the parsed text if another text is shown. -/
theorem bare_edits (h : Shows base i e value raw s) : s.edits.map Edit.bare =
    if raw = e.rawText then [] else [⟨.replace, e.region, e.rawText, raw, []⟩] := by
  obtain ⟨_, hchanges⟩ := h.changes
  rw [edits, hchanges]
  split <;> rfl

/-- Two sessions that show texts of one entry agree just when the texts are the same. -/
theorem agree_iff {raw' : Text} (h : Shows base i e value raw s)
    (h' : Shows base i e value raw' s') (he : base.entries[i]? = some e) :
    (s.index = s'.index ∧ s.edits.map Edit.bare = s'.edits.map Edit.bare) ↔ raw = raw' := by
  constructor
  · rintro ⟨hindex, -⟩
    have hentry := h.entry he
    rw [hindex, h'.entry he] at hentry
    exact (congrArg Entry.rawText (Option.some.inj hentry)).symm
  · rintro rfl
    exact ⟨h.index.trans h'.index.symm, h.bare_edits.trans h'.bare_edits.symm⟩

end Shows

end Session

end BuildScript
