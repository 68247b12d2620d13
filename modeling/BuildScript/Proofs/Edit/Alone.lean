import BuildScript.Proofs.Edit.Bounds
/-!
# One edit by itself

A review goes through all conditions on an edit and lists what is wrong, up to three problems with
the bounds and one with the text. Making the edit stops at the first condition that is not met, and
where the text differs it still looks for another place on the line. On a list of one edit, which is
made in the script itself, the two come to the same verdict: `Judged` has one case for an edit that
is as it should be, one for a region that leaves the script or is inverted, and two for a text that
differs, of which only the replay tells whether it is found elsewhere.

Insertions are taken to be at a point. One that is not has nothing wrong with it for a review, which
does not look at what an insertion covers, and is refused by a replay.

Results:
* `replay_singleton`: the replay of one edit from what making it gives.
* `judged_replay`: which verdicts there are.
* `review_agrees`: the problems of an edit against the outcome of its replay.
-/
namespace BuildScript

open Edit

variable {text : Text} {e : Edit}

/-! ## One edit made -/

/-- The replay of one edit. -/
theorem replay_singleton (text : Text) (e : Edit) : replay text [e] =
    match e.splice text with
    | .error fault => ⟨.error fault, [.refused e fault]⟩
    | .ok (new, none) => ⟨.ok new, [.applied 1 0 text.length new.length]⟩
    | .ok (new, some place) =>
      ⟨.ok new, [.relocated e place, .applied 1 1 text.length new.length]⟩ := by
  rw [replay, if_neg (List.cons_ne_nil e []),
    List.perm_singleton.1 (applicationOrder_perm [e]), Replay.run]
  cases e.splice text with
  | error fault => rfl
  | ok made =>
    obtain ⟨new, _ | place⟩ := made
    · rfl
    · rfl

theorem Edit.splice_of_not_inBounds (h : ¬ e.InBounds text.length) : e.splice text =
    .error (.outOfBounds e.kind e.start e.stop text.length e.description) := by
  refine if_pos ?_
  unfold InBounds at h
  omega

/-- Within the text an edit whose region does not hold what is expected is made at the place where
the line has it, and refused if there is no such place. -/
theorem Edit.splice_of_differs (h : e.InBounds text.length)
    (hdiffers : Text.slice text e.start e.stop ≠ e.expected) : e.splice text =
      match e.relocation? text with
      | some place => .ok (e.put text place (place + e.expected.length), some place)
      | none => .error (.textDiffers e.expected (Text.slice text e.start e.stop) e.start e.stop
          e.description) := by
  unfold splice
  rw [if_neg (by unfold InBounds at h; omega)]
  exact if_neg hdiffers

/-! ## Problems -/

/-- Outside the text there are problems with the bounds and no others. -/
theorem Edit.problems_of_not_inBounds (h : ¬ e.InBounds text.length) :
    e.problems text ≠ [] ∧ ∀ c ∈ e.problems text, c.code = "invalid_range".toList := by
  constructor
  · intro hnil
    obtain ⟨h0, h1, h2, -⟩ := problems_eq_nil_iff.1 hnil
    exact h ⟨h0, h1, h2⟩
  · have one (p : Prop) [Decidable p] (cause : ProblemCause) {c : ProblemCause}
        (hc : c ∈ if p then [cause] else []) : c = cause := by
      split at hc
      · exact List.mem_singleton.1 hc
      · cases hc
    have hout : ¬ (e.kind ≠ .insert ∧ 0 ≤ e.start ∧ e.start ≤ e.stop ∧ e.stop ≤ text.length) :=
      fun hin => h hin.2
    intro c hc
    simp only [problems, if_neg hout, List.append_nil, List.mem_append] at hc
    rcases hc with (hc | hc) | hc <;> rw [one _ _ hc] <;> rfl

/-- Within the text the only problem that there can be is the text. -/
theorem Edit.problems_of_inBounds (h : e.InBounds text.length) : e.problems text =
    if e.kind ≠ .insert ∧ Text.slice text e.start e.stop ≠ e.oldText then
      [.textDiffers e.oldText (Text.slice text e.start e.stop)]
    else [] := by
  obtain ⟨h0, h1, h2⟩ := h
  have hstart : ¬ e.start < 0 := by omega
  have hstop : ¬ e.stop > text.length := by omega
  have hle : ¬ e.start > e.stop := by omega
  simp only [problems, if_neg hstart, if_neg hstop, if_neg hle, List.nil_append, h0, h1, h2,
    and_true]
  by_cases hkind : e.kind = .insert
  · rw [if_neg (not_not_intro hkind), if_neg fun hc => hc.1 hkind]
  · by_cases hsame : Text.slice text e.start e.stop = e.oldText
    · rw [if_pos hkind, if_pos hsame, if_neg fun hc => hc.2 hsame]
    · rw [if_pos hkind, if_neg hsame, if_pos ⟨hkind, hsame⟩]

/-! ## Verdicts -/

/-- What a review finds wrong with one edit, and what its replay comes to. -/
inductive Judged (text : Text) (e : Edit) : List ProblemCause → Replay → Prop
  | fits (new : Text) : Judged text e [] ⟨.ok new, [.applied 1 0 text.length new.length]⟩
  | outside {causes : List ProblemCause} {fault : Fault} (found : causes ≠ [])
      (bounds : ∀ c ∈ causes, c.code = "invalid_range".toList)
      (refusal : fault = .outOfBounds e.kind e.start e.stop text.length e.description) :
      Judged text e causes ⟨.error fault, [.refused e fault]⟩
  | moved (actual new : Text) (place : Nat) : Judged text e [.textDiffers e.oldText actual]
      ⟨.ok new, [.relocated e place, .applied 1 1 text.length new.length]⟩
  | missing {actual : Text} {fault : Fault}
      (refusal : fault = .textDiffers e.oldText actual e.start e.stop e.description) :
      Judged text e [.textDiffers e.oldText actual] ⟨.error fault, [.refused e fault]⟩

/-- A review and a replay of one edit come to one verdict. -/
theorem judged_replay (hpoint : e.kind = .insert → e.start = e.stop) :
    Judged text e (e.problems text) (replay text [e]) := by
  rw [replay_singleton]
  by_cases hbounds : e.InBounds text.length
  · by_cases hsame : Text.slice text e.start e.stop = e.expected
    · have hnil : e.problems text = [] := by
        rw [problems_of_inBounds hbounds]
        exact if_neg fun h => h.2 (hsame.trans (if_neg h.1))
      rw [hnil, splice_of_match hbounds.1 hbounds.2.1 hbounds.2.2 hsame]
      exact .fits _
    · -- at a point nothing differs from the empty text
      have hkind : e.kind ≠ .insert := fun k => hsame (by
        rw [expected, if_pos k, ← hpoint k]
        simp [Text.slice])
      have hexpected : e.expected = e.oldText := if_neg hkind
      rw [problems_of_inBounds hbounds, if_pos ⟨hkind, hexpected ▸ hsame⟩,
        splice_of_differs hbounds hsame]
      cases e.relocation? text with
      | some place => exact .moved _ _ place
      | none => exact .missing (by rw [hexpected])
  · obtain ⟨hfound, hcode⟩ := problems_of_not_inBounds hbounds
    rw [splice_of_not_inBounds hbounds]
    exact .outside hfound hcode rfl

/-- One edit, at a point if it is an insertion: there is nothing wrong with it just when its replay
makes it in place, something is wrong with its bounds just when the replay is refused at them, and
its text differs just when the replay is refused for that or relocates the edit. -/
theorem review_agrees (hpoint : e.kind = .insert → e.start = e.stop) :
    (review text [e] = [] ↔ (∃ new, (replay text [e]).result = .ok new) ∧
      ∀ f place, Event.relocated f place ∉ (replay text [e]).events) ∧
    ((∃ p ∈ review text [e], p.cause.code = "invalid_range".toList) ↔
      ∃ kind start stop length description, (replay text [e]).result =
        .error (.outOfBounds kind start stop length description)) ∧
    ((∃ p ∈ review text [e], p.cause.code = "text_mismatch".toList) ↔
      (∃ expected actual start stop description, (replay text [e]).result =
        .error (.textDiffers expected actual start stop description)) ∨
      ∃ f place, Event.relocated f place ∈ (replay text [e]).events) := by
  have hreview : review text [e] = (e.problems text).map (Problem.mk 0) := List.append_nil _
  have hproblem (code : Text) : (∃ p ∈ review text [e], p.cause.code = code) ↔
      ∃ c ∈ e.problems text, c.code = code := by
    rw [hreview]
    simp
  have hdiffer : "text_mismatch".toList ≠ "invalid_range".toList := by decide
  have hjudged : Judged text e (e.problems text) (replay text [e]) := judged_replay hpoint
  rw [hproblem, hproblem, hreview, List.map_eq_nil_iff]
  generalize e.problems text = causes at hjudged ⊢
  generalize replay text [e] = outcome at hjudged ⊢
  cases hjudged with
  | fits new => simp
  | outside found bounds refusal =>
    obtain ⟨c, hc⟩ := List.exists_mem_of_ne_nil _ found
    refine ⟨by simp [found], iff_of_true ⟨c, hc, bounds c hc⟩ (by simp [refusal]),
      iff_of_false (fun ⟨d, hd, hcode⟩ => hdiffer (hcode.symm.trans (bounds d hd))) ?_⟩
    simp [refusal]
  | moved actual new place =>
    refine ⟨iff_of_false (List.cons_ne_nil _ _) fun h => h.2 e place List.mem_cons_self,
      iff_of_false (fun ⟨c, hc, hcode⟩ => ?_) (fun ⟨_, _, _, _, _, h⟩ => nomatch h),
      iff_of_true ⟨_, List.mem_cons_self, rfl⟩ (.inr ⟨e, place, List.mem_cons_self⟩)⟩
    rw [List.mem_singleton.1 hc] at hcode
    exact hdiffer hcode
  | missing refusal =>
    refine ⟨iff_of_false (List.cons_ne_nil _ _) (fun ⟨⟨_, h⟩, _⟩ => nomatch h),
      iff_of_false (fun ⟨c, hc, hcode⟩ => ?_) (by simp [refusal]),
      iff_of_true ⟨_, List.mem_cons_self, rfl⟩ (.inl ⟨_, _, _, _, _, by rw [refusal]⟩)⟩
    rw [List.mem_singleton.1 hc] at hcode
    exact hdiffer hcode

/-- A replacement whose region was made without any check and leaves a short text on both sides. -/
def overhangingEdit : Edit :=
  ⟨.replace, ⟨⟨1, 1, -1, 9, 10⟩, .point 1 1 9⟩, "abc".toList, "x".toList, []⟩

/-- Its two problems are both with the bounds, and it is refused at them. -/
theorem review_agrees_overhangingEdit :
    (overhangingEdit.kind = .insert → overhangingEdit.start = overhangingEdit.stop) ∧
    review "abc".toList [overhangingEdit] = [⟨0, .negativeStart (-1)⟩, ⟨0, .beyondEnd 9 3⟩] ∧
    ∃ kind start stop length description, (replay "abc".toList [overhangingEdit]).result =
      .error (.outOfBounds kind start stop length description) := by
  have hpoint : overhangingEdit.kind = .insert → overhangingEdit.start = overhangingEdit.stop :=
    fun h => by cases h
  have hreview : review "abc".toList [overhangingEdit] =
      [⟨0, .negativeStart (-1)⟩, ⟨0, .beyondEnd 9 3⟩] := by decide
  refine ⟨hpoint, hreview, (review_agrees hpoint).2.1.1 ?_⟩
  rw [hreview]
  exact ⟨_, List.mem_cons_self, rfl⟩

end BuildScript
