import BuildScript.Proofs.Edit.Alone
import BuildScript.Proofs.Edit.Recovery
import BuildScript.Proofs.Text.Overlap
/-!
# How sure the place of a relocated edit is

An edit whose region does not hold what it expects may be made elsewhere on the line, since a text
that occurs there just once must be the one that was meant. Whether it occurs once is counted from
the left, and the count passes over places that begin within one it has counted.

So the line may have several places for the edit, all of which begin within the first: it is
`Crowded`. The edit is then made at the first place, whichever was meant. In all other cases the
edit is made exactly where its text occurs once, and refused where it occurs not at all or several
times. A line can be crowded only with a text that ends as it begins.

Results:
* `relocation?_eq_some_iff`: where an edit is looked for and found.
* `recovers_iff`: an edit is made at its only place or refused, unless its line is crowded.
-/
namespace BuildScript

namespace Edit

variable {e : Edit} {text : Text} {place : Nat}

/-- The places in a script at which an edit's text occurs on the line around its start. -/
def places (e : Edit) (text : Text) : List Nat :=
  (Text.occurrences e.expected (Text.lineAt text e.start)).map
    ((Text.lineBounds text e.start).1 + ·)

/-- The text an edit expects occurs at several places on the line, which all begin within the first
of them. -/
def Crowded (e : Edit) (text : Text) (place : Nat) : Prop :=
  e.expected ≠ [] ∧ ∃ next rest, e.places text = place :: next :: rest ∧
    ∀ other ∈ next :: rest, other < place + e.expected.length

/-- An edit goes to the only place of its text on the line, and is refused where there is no such
place. -/
structure Recovers (text : Text) (e : Edit) : Prop where
  made : ∀ place, e.Recoverable text place →
    (replay text [e]).result = .ok (e.put text place (place + e.expected.length))
  refused : (¬ ∃ place, e.Recoverable text place) → (replay text [e]).result =
    .error (.textDiffers e.expected (Text.slice text e.start e.stop) e.start e.stop e.description)

theorem relocation?_eq (e : Edit) (text : Text) : e.relocation? text =
    if e.expected ≠ [] ∧ Text.disjointCount e.expected (Text.lineAt text e.start) = 1 then
      (Text.find? e.expected (Text.lineAt text e.start)).map
        ((Text.lineBounds text e.start).1 + ·)
    else none := rfl

/-- An edit is found at the first place of its text if all others begin within that. -/
theorem relocation?_eq_some_iff : e.relocation? text = some place ↔
    e.expected ≠ [] ∧ ∃ rest, e.places text = place :: rest ∧
      ∀ other ∈ rest, other < place + e.expected.length := by
  unfold places
  by_cases hne : e.expected = []
  · simp [relocation?_eq, hne]
  · have hcount := Text.disjointCount_eq_one_iff (s := Text.lineAt text e.start) hne
    rw [relocation?_eq, Text.find?_eq_head? hne]
    constructor
    · intro h
      split at h
      · next hone =>
        obtain ⟨i, rest, hplaces, hwithin⟩ := hcount.1 hone.2
        rw [hplaces] at h ⊢
        cases h
        refine ⟨hne, rest.map _, rfl, fun other hother => ?_⟩
        obtain ⟨j, hj, rfl⟩ := List.mem_map.1 hother
        have := hwithin j hj
        dsimp only
        omega
      · cases h
    · rintro ⟨-, _, hplaces, hwithin⟩
      obtain ⟨i, rest, hline, rfl, rfl⟩ := List.map_eq_cons_iff.1 hplaces
      have hone : Text.disjointCount e.expected (Text.lineAt text e.start) = 1 := by
        refine hcount.2 ⟨i, rest, hline, fun j hj => ?_⟩
        have := hwithin _ (List.mem_map_of_mem hj)
        omega
      rw [if_pos ⟨hne, hone⟩, hline]
      rfl

/-- An edit that is looked for is found where it occurs once or first in a crowd. -/
theorem relocation?_eq_some_iff_or (hbounds : e.InBounds text.length)
    (hdiffers : Text.slice text e.start e.stop ≠ e.expected) :
    e.relocation? text = some place ↔ e.Recoverable text place ∨ e.Crowded text place := by
  rw [relocation?_eq_some_iff]
  constructor
  · rintro ⟨hne, _ | ⟨next, rest⟩, hplaces, hwithin⟩
    · exact .inl ⟨hbounds, hdiffers, hne, hplaces⟩
    · exact .inr ⟨hne, next, rest, hplaces, hwithin⟩
  · rintro (h | ⟨hne, next, rest, hplaces, hwithin⟩)
    · exact ⟨h.ne_nil, [], h.only, nofun⟩
    · exact ⟨hne, next :: rest, hplaces, hwithin⟩

/-- A crowded line is crowded with a text that ends as it begins. -/
theorem Crowded.exists_border (h : e.Crowded text place) :
    ∃ w, w ≠ [] ∧ w.length < e.expected.length ∧ w <+: e.expected ∧ w <:+ e.expected := by
  obtain ⟨-, next, rest, hplaces, hwithin⟩ := h
  obtain ⟨i, _, hline, rfl, hmap⟩ := List.map_eq_cons_iff.1 hplaces
  obtain ⟨j, rest, rfl, rfl, rfl⟩ := List.map_eq_cons_iff.1 hmap
  have hsorted : (Text.occurrences e.expected (Text.lineAt text e.start)).Pairwise (· < ·) :=
    List.pairwise_lt_range.filter _
  rw [hline] at hsorted
  refine Text.exists_border (hline ▸ List.mem_cons_self)
    (hline ▸ List.mem_cons_of_mem i List.mem_cons_self)
    ((List.pairwise_cons.1 hsorted).1 j List.mem_cons_self) ?_
  have := hwithin _ List.mem_cons_self
  omega

end Edit

open Edit

variable {text : Text} {e : Edit}

theorem result_replay_singleton (hbounds : e.InBounds text.length)
    (hdiffers : Text.slice text e.start e.stop ≠ e.expected) : (replay text [e]).result =
      match e.relocation? text with
      | some place => .ok (e.put text place (place + e.expected.length))
      | none => .error (.textDiffers e.expected (Text.slice text e.start e.stop) e.start e.stop
          e.description) := by
  rw [replay_singleton, splice_of_differs hbounds hdiffers]
  cases e.relocation? text <;> rfl

/-- An edit within the script whose region does not hold what it expects is made at the only place
of its text on the line, and refused where there is no such place, just when the line is not crowded
with its text. In a crowd, which takes a text that ends as it begins, it is made at the first
place. -/
theorem recovers_iff (hbounds : e.InBounds text.length)
    (hdiffers : Text.slice text e.start e.stop ≠ e.expected) :
    (e.Recovers text ↔ ¬ ∃ place, e.Crowded text place) ∧
    ∀ place, e.Crowded text place →
      (replay text [e]).result = .ok (e.put text place (place + e.expected.length)) ∧
      ∃ w, w ≠ [] ∧ w.length < e.expected.length ∧ w <+: e.expected ∧ w <:+ e.expected := by
  have hresult := result_replay_singleton hbounds hdiffers
  have hfound {place : Nat} (h : e.Recoverable text place ∨ e.Crowded text place) :
      (replay text [e]).result = .ok (e.put text place (place + e.expected.length)) := by
    rw [hresult, (relocation?_eq_some_iff_or hbounds hdiffers).2 h]
  refine ⟨⟨fun h => ?_, fun hfree => ⟨fun place h => hfound (.inl h), fun hnone => ?_⟩⟩,
    fun place h => ⟨hfound (.inr h), h.exists_border⟩⟩
  · rintro ⟨place, hcrowd⟩
    have hmany : ¬ ∃ place, e.Recoverable text place := by
      rintro ⟨only, honly⟩
      obtain ⟨-, next, rest, hplaces, -⟩ := hcrowd
      have := honly.only.symm.trans hplaces
      cases this
    have := (h.refused hmany).symm.trans (hfound (.inr hcrowd))
    cases this
  · rw [hresult]
    cases hplace : e.relocation? text with
    | none => rfl
    | some place =>
      rcases (relocation?_eq_some_iff_or hbounds hdiffers).1 hplace with h | h
      · exact absurd ⟨place, h⟩ hnone
      · exact absurd ⟨place, h⟩ hfree

theorem recovers_movedEdit : movedEdit.InBounds "a = 1, b = 2".toList.length ∧
    Text.slice "a = 1, b = 2".toList movedEdit.start movedEdit.stop ≠ movedEdit.expected ∧
    movedEdit.Recovers "a = 1, b = 2".toList := by
  have hbounds : movedEdit.InBounds "a = 1, b = 2".toList.length := by decide
  have hdiffers :
      Text.slice "a = 1, b = 2".toList movedEdit.start movedEdit.stop ≠ movedEdit.expected := by
    decide
  refine ⟨hbounds, hdiffers, (recovers_iff hbounds hdiffers).1.2 ?_⟩
  rintro ⟨place, -, next, rest, hplaces, -⟩
  have hone : movedEdit.places "a = 1, b = 2".toList = [11] := by decide
  rw [hone] at hplaces
  cases hplaces

/-- A replacement of a version whose region is out of date. -/
def staleEdit : Edit :=
  ⟨.replace, .onLine 1 0 0 3, "1.1".toList, "2.0".toList, "update".toList⟩

/-- The version `1.1.1` holds the old version at two places, and the edit is made at the first. -/
theorem replay_staleEdit : staleEdit.InBounds "v = 1.1.1".toList.length ∧
    Text.slice "v = 1.1.1".toList staleEdit.start staleEdit.stop ≠ staleEdit.expected ∧
    staleEdit.places "v = 1.1.1".toList = [4, 6] ∧
    (replay "v = 1.1.1".toList [staleEdit]).result = .ok "v = 2.0.1".toList ∧
    ¬ staleEdit.Recovers "v = 1.1.1".toList := by
  have hplaces : staleEdit.places "v = 1.1.1".toList = [4, 6] := by decide
  have hresult : (replay "v = 1.1.1".toList [staleEdit]).result = .ok "v = 2.0.1".toList := by
    decide
  refine ⟨by decide, by decide, hplaces, hresult, fun h => ?_⟩
  have hmany : ¬ ∃ place, staleEdit.Recoverable "v = 1.1.1".toList place := by
    rintro ⟨place, hfound⟩
    have := hfound.only.symm.trans hplaces
    cases this
  have := (h.refused hmany).symm.trans hresult
  cases this

end BuildScript
