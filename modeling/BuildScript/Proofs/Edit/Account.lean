import BuildScript.Proofs.Edit.Recovery
/-!
# What a replay reports

A run makes edits one after the other, each in the text that the edits before it have left. `Made`
keeps the course of such a run: every edit with the place it was relocated to, if it was, and the
text at the end. Both things that a replay gives an account of can be told from it. The events are
the relocations on the way, in the order of application, and the lengths add up because every edit
that is made, in its region or elsewhere, puts its new text in the place of what it expects.

Nothing is asked of the edits: they may overlap, leave the script or expect texts that are not
there. A run then ends at the first edit that is refused, and what was made before it has still been
reported.

Results:
* `run_cases`: a run makes all edits, or all in front of one that is refused.
* `Made.length_eq`: the edits made account for the change of the length.
* `accounted_replay`: what a replay returns and reports.
-/
namespace BuildScript

namespace Edit

theorem growth_perm {edits edits' : List Edit} (h : edits.Perm edits') :
    growth edits = growth edits' := by
  induction h with
  | nil => rfl
  | cons e _ ih => rw [growth, growth, ih]
  | swap e f edits =>
    simp only [growth]
    omega
  | trans _ _ ih ih' => exact ih.trans ih'

end Edit

namespace Replay

/-! ## The course of a run -/

/-- Edits are made one after the other, each with the place it is relocated to if it is, and leave
the text `new`. -/
inductive Made : Text → List (Edit × Option Nat) → Text → Prop
  | refl (text : Text) : Made text [] text
  | step {text next new : Text} {e : Edit} {place? : Option Nat} {rest : List (Edit × Option Nat)}
      (made : e.splice text = .ok (next, place?)) (later : Made next rest new) :
      Made text ((e, place?) :: rest) new

/-- The relocations among edits that were made, as they are reported. -/
def relocations (made : List (Edit × Option Nat)) : List Event :=
  made.filterMap fun (e, place?) => place?.map (Event.relocated e)

theorem relocations_cons (e : Edit) (place? : Option Nat) (rest : List (Edit × Option Nat)) :
    relocations ((e, place?) :: rest) =
      (place?.map (Event.relocated e)).toList ++ relocations rest := by
  cases place? <;> rfl

/-- The edits made account for the change of the length. -/
theorem Made.length_eq {text new : Text} {made : List (Edit × Option Nat)}
    (h : Made text made new) :
    (new.length : Int) = text.length + Edit.growth (made.map Prod.fst) := by
  induction h with
  | refl text => simp [Edit.growth]
  | step hmade _ ih =>
    have hlength := Edit.length_of_splice hmade
    rw [ih, List.map_cons, Edit.growth]
    dsimp only
    omega

theorem run_cons_of_made {text next : Text} {e : Edit} {place? : Option Nat}
    (h : e.splice text = .ok (next, place?)) (rest : List Edit) :
    run text (e :: rest) =
      ⟨(run next rest).result,
        (place?.map (Event.relocated e)).toList ++ (run next rest).events⟩ := by
  rw [run, h]
  cases place? <;> rfl

/-- A run makes all its edits, or all in front of one that is refused. -/
theorem run_cases (text : Text) (edits : List Edit) :
    (∃ made new, made.map Prod.fst = edits ∧ Made text made new ∧
      run text edits = ⟨.ok new, relocations made⟩) ∨
    ∃ made mid e rest fault, edits = made.map Prod.fst ++ e :: rest ∧ Made text made mid ∧
      e.splice mid = .error fault ∧
      run text edits = ⟨.error fault, relocations made ++ [.refused e fault]⟩ := by
  induction edits generalizing text with
  | nil => exact Or.inl ⟨[], text, rfl, .refl text, rfl⟩
  | cons e rest ih =>
    cases hmade : e.splice text with
    | error fault =>
      exact Or.inr ⟨[], text, e, rest, fault, rfl, .refl text, hmade, by rw [run, hmade]; rfl⟩
    | ok step =>
      obtain ⟨next, place?⟩ := step
      rcases ih next with ⟨made, new, rfl, hrest, hrun⟩ |
        ⟨made, mid, f, behind, fault, rfl, hrest, hfault, hrun⟩
      · refine Or.inl ⟨(e, place?) :: made, new, rfl, .step hmade hrest, ?_⟩
        rw [run_cons_of_made hmade, hrun, relocations_cons]
      · refine Or.inr
          ⟨(e, place?) :: made, mid, f, behind, fault, rfl, .step hmade hrest, hfault, ?_⟩
        rw [run_cons_of_made hmade, hrun, relocations_cons, List.append_assoc]

end Replay

/-! ## The account of a replay -/

/-- What a replay of edits returns and reports. Either all are made: then the length changes by what
the new texts are longer than the expected ones, and the relocations are reported and behind them
the totals. Or one is refused: then the relocations so far are reported and behind them that
edit. -/
inductive Accounted (text : Text) (edits : List Edit) : Replay → Prop
  | applied {made : List (Edit × Option Nat)} {new : Text}
      (order : made.map Prod.fst = Edit.applicationOrder edits) (course : Replay.Made text made new)
      (length : (new.length : Int) = text.length + Edit.growth edits) :
      Accounted text edits ⟨.ok new, Replay.relocations made ++
        [.applied edits.length (Replay.relocations made).length text.length new.length]⟩
  | refused {made : List (Edit × Option Nat)} {mid : Text} {e : Edit} {rest : List Edit}
      {fault : Fault} (order : Edit.applicationOrder edits = made.map Prod.fst ++ e :: rest)
      (course : Replay.Made text made mid) (refusal : e.splice mid = .error fault) :
      Accounted text edits ⟨.error fault, Replay.relocations made ++ [.refused e fault]⟩

/-- A replay of edits, whatever they are, returns and reports what its course accounts for. -/
theorem accounted_replay (text : Text) {edits : List Edit} (h : edits ≠ []) :
    Accounted text edits (replay text edits) := by
  rw [replay, if_neg h]
  rcases Replay.run_cases text (Edit.applicationOrder edits) with
    ⟨made, new, horder, hmade, hrun⟩ | ⟨made, mid, e, rest, fault, horder, hmade, hfault, hrun⟩
  · have hlength := hmade.length_eq
    rw [horder, Edit.growth_perm (Edit.applicationOrder_perm edits)] at hlength
    rw [hrun]
    exact .applied horder hmade hlength
  · rw [hrun]
    exact .refused horder hmade hfault

/-- Two edits of one line that expect one character. Both are out of place, and the one that is made
first is relocated to it. -/
def rivalEdits : List Edit :=
  [⟨.delete, .onLine 1 0 0 1, "b".toList, [], "drop b".toList⟩,
   ⟨.replace, .onLine 1 0 2 3, "b".toList, "xyz".toList, "rename b".toList⟩]

/-- A replay with a relocation that is carried through, and one that is refused behind it. -/
theorem accounted_replay_rivalEdits :
    let edits := [betweenEdit, movedEdit, headEdit]
    edits ≠ [] ∧ Accounted "a = 1, b = 2".toList edits (replay "a = 1, b = 2".toList edits) ∧
    (replay "a = 1, b = 2".toList edits).events = [.relocated movedEdit 12, .applied 3 1 12 17] ∧
    rivalEdits ≠ [] ∧ Accounted "abc".toList rivalEdits (replay "abc".toList rivalEdits) ∧
    ∃ e ∈ rivalEdits, ∃ e' ∈ rivalEdits, ∃ fault,
      replay "abc".toList rivalEdits = ⟨.error fault, [.relocated e 1, .refused e' fault]⟩ := by
  intro edits
  have hedits : edits ≠ [] := by decide
  have hrival : rivalEdits ≠ [] := by decide
  refine ⟨hedits, accounted_replay _ hedits, rfl, hrival, accounted_replay _ hrival, ?_⟩
  exact ⟨_, List.mem_cons_of_mem _ List.mem_cons_self, _, List.mem_cons_self, _, rfl⟩

end BuildScript
