import BuildScript.Proofs.Session.Single
/-!
# Sessions of one request

A request adds at most one pending change. Behind a single request there is therefore no change
that another could get in the way of, and as each change fits the script, the changes can be made.

Results:
* `length_changes_of_step`: a request adds at most one change.
* `Coherent.fits`, `Coherent.review`: what is pending fits the script, and a review finds nothing.
* `result_render_after_start`: what is pending behind one request can be made.
-/
namespace BuildScript.Session

variable {options : ParseOptions} {editor : EditorOptions} {text : Text} {s s' : Session}
  {r : Request}

/-- A request adds at most one change. -/
theorem length_changes_of_step (h : Step s r s') : s'.changes.length ≤ s.changes.length + 1 := by
  have hothers (i : Nat) : (s.changes.filter fun c => !c.updates i).length ≤ s.changes.length :=
    List.length_filter_le _ _
  cases h with
  | stay => exact Nat.le_succ _
  | clear => exact Nat.zero_le _
  | @record hr e i hmem value newText description =>
    by_cases hnew : newText = s.parsedText i
    · rw [changes_record_of_eq hnew]
      exact Nat.le_succ_of_le (hothers i)
    · rw [changes_record_of_ne hnew, List.length_append]
      exact Nat.succ_le_succ (hothers i)
  | @remove e i hclear hr hadd hmem description =>
    rw [recordRemoval, List.length_append]
    exact Nat.succ_le_succ (hothers i)
  | insert => exact Nat.le_of_eq List.length_append

/-- The edit of a pending change fits the script. -/
theorem Coherent.fits (h : Coherent (Index.parse options text) s) {c : Change}
    (hc : c ∈ s.changes) : c.edit.Fits text := by
  refine Edit.fits_of_problems_eq_nil (h.problems_eq_nil hc) fun hkind => ?_
  have hcarries := h.carries c hc
  cases c with
  | update i edit =>
    obtain ⟨e, description, -, -, rfl⟩ := hcarries
    cases hkind
  | insertion edit =>
    obtain ⟨k, declaration, description, -, -, rfl⟩ := hcarries
    rfl
  | removal i edit =>
    obtain ⟨e, description, -, rfl⟩ := hcarries
    cases hkind

/-- A review of what is pending finds nothing. -/
theorem Coherent.review (h : Coherent (Index.parse options text) s) :
    Edit.review s.index.text s.edits = [] := by
  rw [h.text, Index.parse_text]
  refine Edit.review_eq_nil_iff.2 fun edit hedit => ?_
  obtain ⟨c, hc, rfl⟩ := List.mem_map.1 hedit
  exact h.problems_eq_nil hc

theorem Coherent.result_render (h : Coherent (Index.parse options text) s)
    (hone : s.changes.length ≤ 1) : ∃ new, s.render.result = .ok new := by
  rw [render, h.text, Index.parse_text, edits]
  cases hchanges : s.changes with
  | nil => exact ⟨text, rfl⟩
  | cons c others =>
    rw [hchanges] at hone
    have hothers : others.length = 0 := Nat.le_zero.1 (Nat.le_of_succ_le_succ hone)
    obtain rfl : others = [] := List.length_eq_zero_iff.1 hothers
    obtain ⟨u, v, htext, hstart, hstop⟩ := h.fits (hchanges ▸ List.mem_cons_self)
    exact ⟨_, result_replay_single htext hstart hstop⟩

/-- What is pending behind one request can be made. -/
theorem result_render_after_start (options : ParseOptions) (editor : EditorOptions) (text : Text)
    (r : Request) :
    ∃ new, ((start (Index.parse options text) editor).after r).render.result = .ok new :=
  (coherent_step (coherent_start _ editor) (step_after _ r)).result_render
    (length_changes_of_step (step_after (start (Index.parse options text) editor) r))

end BuildScript.Session
