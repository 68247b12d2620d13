import BuildScript.Proofs.Edit.Splice
import BuildScript.Proofs.Session.Coherence
/-!
# One line put in or left out

A single change that adds or removes a line gives the lines of the script with that line put in or
left out.

Results:
* `replay_lineInsertion`: an added declaration becomes a line of its own.
* `replay_lineRemoval`: a removed line takes one line feed with it.
-/
namespace BuildScript

theorem result_replay_single {text u v : Text} {e : Edit} (htext : text = u ++ e.expected ++ v)
    (hstart : e.start = u.length) (hstop : e.stop = u.length + e.expected.length) :
    (replay text [e]).result = .ok (u ++ e.newText ++ v) := by
  rw [result_replay, List.perm_singleton.1 (Edit.applicationOrder_perm [e]), htext,
    Replay.run_append hstart hstop]
  rfl

variable {text : Text} {k : Nat}

theorem Edit.DeletesLine.cut {e : Edit} (h : e.DeletesLine text k) :
    ∃ u v, text = u ++ e.oldText ++ v ∧ e.start = u.length ∧
      e.stop = u.length + e.oldText.length ∧
      u ++ v = Text.joinWith ['\n'] ((Text.lines text).eraseIdx k) := by
  rw [List.eraseIdx_eq_take_drop_succ]
  cases h with
  | @inner k line hline hnext hstart hstop hold =>
    have hdrop : (Text.lines text).drop (k + 1) ≠ [] :=
      mt List.drop_eq_nil_iff.1 (Nat.not_le_of_lt hnext)
    have hfront := Text.terminated_take_succ hline
    rw [Text.lineStart_eq (Nat.lt_of_succ_lt hnext)] at hstart
    rw [Text.lineStart_eq hnext, hfront, List.append_assoc, List.length_append] at hstop
    refine ⟨_, _, ?_, hstart, ?_, (Text.joinWith_append _ hdrop).symm⟩
    · rw [hold, ← List.append_assoc, ← hfront, Text.terminated_take_append hnext]
    · rw [hstop, hold, Int.natCast_add]
  | @last k before line hbefore hline hlast hstart hstop hold =>
    have hdrop : (Text.lines text).drop (k + 2) = [] := List.drop_eq_nil_of_le (by omega)
    obtain ⟨-, htext⟩ := (Text.text_split hline).resolve_left fun h => by omega
    rw [Text.terminated_take_succ hbefore] at htext
    rw [Text.lineStart_eq (by omega), ← List.length_append] at hstart
    refine ⟨_, [], ?_, hstart, ?_, ?_⟩
    · simpa [hold] using htext
    · rw [hstop, hold]
      have hlength := congrArg List.length htext
      simp only [List.length_append, List.length_cons, List.length_nil] at hlength ⊢
      omega
    · rw [hdrop, List.append_nil, List.append_nil, List.take_add_one, hbefore, Option.toList_some,
        Text.joinWith_concat]
  | only hsingle hstart hstop hold =>
    refine ⟨[], [], ?_, hstart, ?_, ?_⟩
    · simp [hold]
    · simp [hold, hstop]
    · rw [hsingle]
      rfl

namespace Session

/-- An added declaration becomes a line of its own. -/
theorem replay_lineInsertion (hk : k < (Text.lines text).length) (declaration description : Text) :
    (replay text [lineInsertion text k declaration description]).result =
      .ok (Text.joinWith ['\n']
        ((Text.lines text).take k ++ declaration :: (Text.lines text).drop k)) := by
  have hdrop : (Text.lines text).drop k ≠ [] := mt List.drop_eq_nil_iff.1 (Nat.not_le_of_lt hk)
  have hstart : (lineInsertion text k declaration description).start =
      (Text.terminated ((Text.lines text).take k)).length :=
    congrArg Nat.cast (Text.lineStart_eq hk)
  have htext : text = Text.terminated ((Text.lines text).take k) ++
      (lineInsertion text k declaration description).expected ++
        Text.joinWith ['\n'] ((Text.lines text).drop k) := by
    show text = _ ++ [] ++ _
    rw [List.append_nil, Text.terminated_take_append hk]
  rw [result_replay_single htext hstart (hstart.trans (Int.add_zero _).symm),
    ← List.singleton_append (x := declaration), Text.joinWith_append _ (by simp),
    Text.joinWith_append [declaration] hdrop]
  simp [lineInsertion]

/-- A removed line takes one line feed with it. -/
theorem replay_lineRemoval (hk : k < (Text.lines text).length) (description : Text) :
    (replay text [lineRemoval text k description]).result =
      .ok (Text.joinWith ['\n'] ((Text.lines text).eraseIdx k)) := by
  obtain ⟨u, v, htext, hstart, hstop, herase⟩ := (deletesLine_lineRemoval hk description).cut
  rw [result_replay_single htext hstart hstop, ← herase]
  simp [lineRemoval]

end Session

end BuildScript
