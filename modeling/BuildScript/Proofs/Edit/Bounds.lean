import BuildScript.Proofs.Edit.Splice
import BuildScript.Proofs.Text.Occurrence
/-!
# Bounds at the turn of an edit

An edit is checked against the text as it is at its turn, not against the script. What the check of
its bounds depends on is the length of that text alone, and this length can be told beforehand: each
edit made puts its new text in the place of what it expects, wherever that is found.
`InBoundsThroughout` keeps this account and nothing else.

A region that leaves the script is therefore refused, unless edits made before have lengthened the
text up to its end. That cannot happen to a region that starts behind the end of the script, since
edits are made from the end, nor to an insertion, which has to be at a point.

Results:
* `splice_spec`, `splice_eq_error`: everything that making one edit can do.
* `length_of_splice`: an edit that is made changes the length by what it puts for what it expects.
* `result_run_eq_error_iff`: a run is refused at the bounds that the account of lengths predicts.
* `replay_refused_iff`: so is a replay, and some regions are refused in any company.
-/
namespace BuildScript

namespace Edit

/-! ## One edit -/

section
variable {e : Edit} {text new : Text}

theorem relocation?_spec {place : Nat} (h : e.relocation? text = some place) :
    e.expected ≠ [] ∧ '\n' ∉ e.expected ∧
      ∃ u v, text = u ++ e.expected ++ v ∧ u.length = place := by
  unfold relocation? at h
  dsimp only at h
  split at h
  · next hone =>
    obtain ⟨i, hi, rfl⟩ := Option.map_eq_some_iff.1 h
    obtain ⟨u, v, htext, hu⟩ := Text.exists_lineAt text e.start
    obtain ⟨w, x, hline, rfl⟩ := Text.find?_spec hi
    replace hline : Text.lineAt text e.start = w ++ e.expected ++ x := hline
    refine ⟨hone.1, fun hlf => ?_, u ++ w, x ++ v, ?_, ?_⟩
    · refine Text.not_mem_lineAt text e.start ?_
      rw [hline]
      exact List.mem_append_left x (List.mem_append_right w hlf)
    · rw [htext, hline]
      simp
    · rw [List.length_append, hu]
  · cases h

theorem put_append (u v : Text) :
    e.put (u ++ e.expected ++ v) u.length (u.length + e.expected.length) = u ++ e.newText ++ v :=
  Text.replace_middle u e.expected v e.newText

/-- An edit that is made lies within the text, and its new text takes the place of what it expects,
in its region or where it is relocated to. -/
theorem splice_spec {place? : Option Nat} (h : e.splice text = .ok (new, place?)) :
    e.InBounds text.length ∧ ∃ u v, text = u ++ e.expected ++ v ∧ new = u ++ e.newText ++ v ∧
      ((place? = none ∧ e.start = u.length ∧ e.stop = u.length + e.expected.length) ∨
        (place? = some u.length ∧ e.relocation? text = some u.length)) := by
  unfold splice at h
  split at h
  · cases h
  · next hbounds =>
    have hin : e.InBounds text.length := ⟨by omega, by omega, by omega⟩
    refine ⟨hin, ?_⟩
    dsimp only at h
    split at h
    · next hslice =>
      obtain ⟨u, v, rfl, hstart, hstop⟩ := fits_of_slice_eq hin hslice
      rw [hstart, hstop, ← Int.natCast_add, Int.toNat_natCast, Int.toNat_natCast, put_append] at h
      cases h
      exact ⟨u, v, rfl, rfl, Or.inl ⟨rfl, hstart, hstop⟩⟩
    · split at h
      · next place hplace =>
        obtain ⟨-, -, u, v, rfl, rfl⟩ := relocation?_spec hplace
        rw [put_append] at h
        cases h
        exact ⟨u, v, rfl, rfl, Or.inr ⟨rfl, hplace⟩⟩
      · cases h

/-- An edit that is refused leaves the text, or its text is not there. -/
theorem splice_eq_error {fault : Fault} (h : e.splice text = .error fault) :
    ¬ e.InBounds text.length ∨ (e.InBounds text.length ∧
      ∃ actual, fault = .textDiffers e.expected actual e.start e.stop e.description) := by
  unfold splice at h
  split at h
  · next hbounds =>
    left
    intro ⟨h0, h1, h2⟩
    omega
  · next hbounds =>
    right
    refine ⟨⟨by omega, by omega, by omega⟩, ?_⟩
    dsimp only at h
    split at h
    · cases h
    · split at h <;> cases h
      exact ⟨_, rfl⟩

/-- An edit that is made changes the length by what it puts for what it expects. -/
theorem length_of_splice {place? : Option Nat} (h : e.splice text = .ok (new, place?)) :
    new.length + e.expected.length = text.length + e.newText.length := by
  obtain ⟨-, u, v, rfl, rfl, -⟩ := splice_spec h
  simp only [List.length_append]
  omega

theorem start_eq_stop_of_splice {place? : Option Nat} (h : e.splice text = .ok (new, place?))
    (hkind : e.kind = .insert) : e.start = e.stop := by
  have hexp : e.expected = [] := if_pos hkind
  obtain ⟨-, u, v, -, -, ⟨-, hstart, hstop⟩ | ⟨-, hreloc⟩⟩ := splice_spec h
  · rw [hexp] at hstop
    exact hstart.trans hstop.symm
  · exact absurd hexp (relocation?_spec hreloc).1

end

/-! ## A run -/

/-- Every edit lies within a text of the length that the edits in front of it leave. -/
def InBoundsThroughout : Int → List Edit → Prop
  | _, [] => True
  | length, e :: rest =>
    e.InBounds length ∧ InBoundsThroughout (length + e.newText.length - e.expected.length) rest

theorem InBoundsThroughout.start_le_stop {length : Int} {edits : List Edit}
    (h : InBoundsThroughout length edits) : ∀ e ∈ edits, 0 ≤ e.start ∧ e.start ≤ e.stop := by
  induction edits generalizing length with
  | nil => simp
  | cons a edits ih =>
    obtain ⟨⟨h0, h1, -⟩, hrest⟩ := h
    exact List.forall_mem_cons.2 ⟨⟨h0, h1⟩, ih hrest⟩

theorem InBoundsThroughout.stop_le {length : Int} {edits : List Edit}
    (h : InBoundsThroughout length edits)
    (hshort : ∀ e ∈ edits, e.newText.length ≤ e.expected.length) :
    ∀ e ∈ edits, e.stop ≤ length := by
  induction edits generalizing length with
  | nil => simp
  | cons a edits ih =>
    obtain ⟨⟨-, -, h2⟩, hrest⟩ := h
    obtain ⟨ha, hedits⟩ := List.forall_mem_cons.1 hshort
    refine List.forall_mem_cons.2 ⟨h2, fun e he => ?_⟩
    have := ih hrest hedits e he
    omega

theorem InBoundsThroughout.start_le {length : Int} {edits : List Edit}
    (h : InBoundsThroughout length (applicationOrder edits)) : ∀ e ∈ edits, e.start ≤ length := by
  intro e he
  rw [← mem_applicationOrder] at he
  have horder := pairwise_applicationOrder edits
  generalize applicationOrder edits = ordered at he h horder
  cases ordered with
  | nil => cases he
  | cons a rest =>
    have ha := h.1
    unfold InBounds at ha
    rcases List.mem_cons.1 he with rfl | he
    · omega
    · have := (not_outranks_iff.1 ((List.pairwise_cons.1 horder).1 e he)).1
      omega

end Edit

namespace Replay

variable {e : Edit} {text new : Text} {edits : List Edit}

theorem result_run_cons {place? : Option Nat} (h : e.splice text = .ok (new, place?))
    (rest : List Edit) : (run text (e :: rest)).result = (run new rest).result := by
  rw [run, h]
  cases place? <;> rfl

theorem result_run_cons_error {fault : Fault} (h : e.splice text = .error fault)
    (rest : List Edit) : (run text (e :: rest)).result = .error fault := by
  rw [run, h]

/-- A run is refused at the first edit whose bounds leave a text of the predicted length, or before
it because a text differs. -/
theorem result_run_eq_error_iff (text : Text) (edits : List Edit) :
    (∃ fault, (run text edits).result = .error fault) ↔
      ¬ Edit.InBoundsThroughout text.length edits ∨
        ∃ expected actual start stop description,
          (run text edits).result =
            .error (.textDiffers expected actual start stop description) := by
  induction edits generalizing text with
  | nil => simp [run, Edit.InBoundsThroughout]
  | cons e rest ih =>
    cases hmade : e.splice text with
    | error fault =>
      rw [result_run_cons_error hmade]
      refine iff_of_true ⟨fault, rfl⟩ ?_
      rcases Edit.splice_eq_error hmade with hout | ⟨-, actual, rfl⟩
      · exact Or.inl fun h => hout h.1
      · exact Or.inr ⟨_, _, _, _, _, rfl⟩
    | ok made =>
      obtain ⟨new, place?⟩ := made
      have hlength := Edit.length_of_splice hmade
      have hin := (Edit.splice_spec hmade).1
      have hpredicted :
          (text.length : Int) + e.newText.length - e.expected.length = new.length := by
        omega
      rw [result_run_cons hmade, ih new, Edit.InBoundsThroughout, hpredicted, and_iff_right hin]

theorem start_eq_stop_of_run (h : (run text edits).result = .ok new) :
    ∀ e ∈ edits, e.kind = .insert → e.start = e.stop := by
  induction edits generalizing text with
  | nil => simp
  | cons a rest ih =>
    cases hmade : a.splice text with
    | error fault =>
      rw [result_run_cons_error hmade] at h
      cases h
    | ok made =>
      rw [result_run_cons hmade] at h
      exact List.forall_mem_cons.2 ⟨Edit.start_eq_stop_of_splice hmade, ih h⟩

end Replay

/-- A replay is refused where the lengths of the edits made before leave no room for a region, or
because a text differs. Regions that start in front of the script or behind its end or that are
inverted, and insertions that are not at a point, are refused in any company; regions that reach
beyond the end, in company that does not lengthen the text. -/
theorem replay_refused_iff (text : Text) (edits : List Edit) :
    ((∃ fault, (replay text edits).result = .error fault) ↔
      ¬ Edit.InBoundsThroughout text.length (Edit.applicationOrder edits) ∨
        ∃ expected actual start stop description, (replay text edits).result =
          .error (.textDiffers expected actual start stop description)) ∧
    ∀ e ∈ edits, (e.start < 0 ∨ text.length < e.start ∨ e.stop < e.start ∨
        (e.kind = .insert ∧ e.start ≠ e.stop) ∨
        (text.length < e.stop ∧ ∀ f ∈ edits, f.newText.length ≤ f.expected.length)) →
      ∃ fault, (replay text edits).result = .error fault := by
  rw [result_replay]
  have hiff := Replay.result_run_eq_error_iff text (Edit.applicationOrder edits)
  refine ⟨hiff, fun e he hbad => ?_⟩
  have hmem := Edit.mem_applicationOrder.2 he
  rcases hbad with hbad | hbad | hbad | ⟨hkind, hpoint⟩ | ⟨hbad, hshort⟩
  · refine hiff.2 (Or.inl fun h => ?_)
    have := (h.start_le_stop e hmem).1
    omega
  · refine hiff.2 (Or.inl fun h => ?_)
    have := h.start_le e he
    omega
  · refine hiff.2 (Or.inl fun h => ?_)
    have := (h.start_le_stop e hmem).2
    omega
  · cases hresult : (Replay.run text (Edit.applicationOrder edits)).result with
    | error fault => exact ⟨fault, rfl⟩
    | ok new => exact absurd (Replay.start_eq_stop_of_run hresult e hmem hkind) hpoint
  · refine hiff.2 (Or.inl fun h => ?_)
    have := h.stop_le (fun f hf => hshort f (Edit.mem_applicationOrder.1 hf)) e hmem
    omega

/-- A replacement that reaches beyond the end of a text of two characters, and an insertion there
that is made before it. -/
def reachingEdits : List Edit :=
  [⟨.replace, .onLine 1 0 1 3, "bc".toList, "x".toList, "reaches beyond the end".toList⟩,
   ⟨.insert, .point 1 3 2, [], "c".toList, "append".toList⟩]

/-- The insertion makes room for the replacement. -/
theorem replay_reachingEdits : (∃ e ∈ reachingEdits, ¬ e.InBounds ("ab".toList.length)) ∧
    (replay "ab".toList reachingEdits).result = .ok "ax".toList := by
  decide

end BuildScript
