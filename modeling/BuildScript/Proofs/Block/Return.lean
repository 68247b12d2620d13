import BuildScript.Block
import BuildScript.Proofs.Text.Return
import BuildScript.Proofs.Text.Trailer
/-!
# Blocks in lines with carriage returns

Braces are counted and openers looked for in the code of a line, and what a carriage return at the
end of the line adds to the code is blank. So the blocks of a script open and close on the same
lines whichever way these end.

Results:
* `closingLine_returned`: a block is closed on the same line, or refused for the same reason.
-/
namespace BuildScript.Block

open Text

/-! ## The code of a line -/

section
variable {block code r : Text}

theorem readOpener?_eq_some_iff {before : Option Char} {s r : Text} {u : Unit} :
    readOpener? block before s = some (u, r) ↔ startsName before = true ∧
      ∃ v, after? block s = some v ∧ after? ['\x7b'] (trimLeft v) = some r := by
  unfold readOpener?
  cases startsName before with
  | false => simp
  | true =>
    constructor
    · intro h
      obtain ⟨v, hv, h⟩ := Option.bind_eq_some_iff.1 h
      split at h
      · next rest hrest =>
        cases h
        exact ⟨rfl, v, hv, by rw [hrest]; rfl⟩
      · cases h
    · rintro ⟨-, v, hv, hbrace⟩
      refine Option.bind_eq_some_iff.2 ⟨v, hv, ?_⟩
      rw [eq_append_of_after? hbrace]
      rfl

theorem settled_readOpener? (hblock : block.getLast?.any (!isBlank ·) = true)
    (before : Option Char) : Settled (readOpener? block before) := by
  have hbrace := (steady_after ['\x7b'] (by decide)).skip skips_trimLeft
  exact .of_steady fun u => (Steady.and fun _ => (steady_after _ hblock).comp hbrace).congr
    fun s r => readOpener?_eq_some_iff

theorem searchIn_readOpener?_return (hblock : block.getLast?.any (!isBlank ·) = true)
    (hr : IsReturn r) (code : Text) :
    searchIn (readOpener? block) (code ++ r) = searchIn (readOpener? block) code := by
  rcases hr with rfl | rfl
  · rw [List.append_nil]
  · exact (Settled.kept (settled_readOpener? hblock)).return_eq code

theorem count_return {c : Char} (hc : c ≠ '\r') (hr : IsReturn r) (code : Text) :
    (code ++ r).count c = code.count c := by
  rcases hr with rfl | rfl
  · rw [List.append_nil]
  · rw [List.count_append, List.count_singleton, if_neg (by simpa using hc.symm), Nat.add_zero]

theorem openBraces?_return (hr : IsReturn r) (depth : Nat) (code : Text) :
    openBraces? depth (code ++ r) = openBraces? depth code := by
  rcases hr with rfl | rfl
  · rw [List.append_nil]
  · fun_induction openBraces? depth code with
    | case1 depth => rfl
    | case2 depth s ih => exact ih
    | case3 s _ ih => exact ih
    | case4 s => rfl
    | case5 s d _ ih => exact ih
    | case6 depth c s hopen hclose ih => simpa [openBraces?, hopen, hclose] using ih

end

/-! ## Blocks -/

variable {block : Text}

theorem openersFrom_returned (hblock : block.getLast?.any (!isBlank ·) = true)
    (number : Nat) (depth : Int) (lines : List Text) :
    openersFrom block number depth (returned lines) = openersFrom block number depth lines := by
  fun_induction returned lines generalizing number depth with
  | case1 => rfl
  | case2 l => rfl
  | case3 l m ls ih =>
    obtain ⟨r, hcode, hr⟩ := codePortion_return (Or.inr rfl : IsReturn ['\r']) l
    rw [openersFrom, openersFrom, hcode, searchIn_readOpener?_return hblock hr,
      count_return (by decide) hr, count_return (by decide) hr, ih]
    cases hfound : searchIn (readOpener? block) (codePortion l) with
    | none => rfl
    | some found =>
      have hbounds := search_bounds hfound
      dsimp only
      rw [List.take_append_of_le_length (by omega)]

theorem closingFrom?_returned (number depth : Nat) (lines : List Text) :
    closingFrom? number depth (returned lines) = closingFrom? number depth lines := by
  fun_induction returned lines generalizing number depth with
  | case1 => rfl
  | case2 l => rfl
  | case3 l m ls ih =>
    obtain ⟨r, hcode, hr⟩ := codePortion_return (Or.inr rfl : IsReturn ['\r']) l
    rw [closingFrom?, closingFrom?, hcode, openBraces?_return hr]
    cases openBraces? depth (codePortion l) with
    | none => rfl
    | some depth => exact ih (number + 1) depth

/-- A block is closed on the same line, or refused for the same reason. -/
theorem closingLine_returned (hblock : block.getLast?.any (!isBlank ·) = true)
    (lines : List Text) : closingLine block (returned lines) = closingLine block lines := by
  unfold closingLine openers
  rw [openersFrom_returned hblock]
  cases choose? (openersFrom block 0 0 lines) with
  | none => rfl
  | some opener =>
    obtain ⟨r, hline, hr⟩ := getD_returned lines opener.line
    obtain ⟨r', hcode, hr'⟩ := codePortion_return hr (lines.getD opener.line [])
    dsimp only
    rw [hline, hcode, List.drop_append, openBraces?_return (hr'.drop _), drop_returned]
    cases openBraces? 0 ((codePortion (lines.getD opener.line [])).drop opener.column) with
    | none => rfl
    | some depth =>
      dsimp only
      rw [closingFrom?_returned]

end BuildScript.Block
