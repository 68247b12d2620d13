import BuildScript.Text.Word
import BuildScript.Proofs.Text.Literal
/-!
# Words in the code of a line

The words of a line are the longest runs of word characters in its code. A string literal keeps the
words on its two sides apart, so here a literal is not left out but has a blank put in its place.

**Code at the end.** The code of a line is put together from parts if each part leaves the scan of
the line in code, and not within a literal or a comment. Whether a part does is asked of the scan
itself: two slashes right behind the part would begin a comment.

Results:
* `words_append_break`: a character that is no part of a word cuts the words of a text in two.
* `EndsInCode.commentFrom_append`, `EndsInCode.spacedCode_append`: what stands behind a part that
  ends in code is read as if the line began there.
* `spacedCode_append_of_isSome`: what stands behind the beginning of a comment does not matter.
-/
namespace BuildScript.Text

/-! ## Words -/

/-- The words of a text: its longest runs of word characters. -/
def words (s : Text) : List Text := (s.splitOnP (!isWord ·)).filter (· ≠ [])

section
variable {c : Char} {s t : Text}

/-- A character that is no part of a word cuts the words of a text in two. -/
theorem words_append_break (h : isWord c = false) (s t : Text) :
    words (s ++ c :: t) = words s ++ words t := by
  unfold words
  rw [List.splitOnP_append_cons s t (by rw [h]; rfl), List.filter_append]

theorem words_nil : words [] = [] := rfl

theorem words_cons_break (h : isWord c = false) (s : Text) : words (c :: s) = words s := by
  simpa [words_nil] using words_append_break h [] s

theorem words_append_breaks (h : ∀ c ∈ s, isWord c = false) (t : Text) :
    words (s ++ t) = words t := by
  induction s with
  | nil => rfl
  | cons c s ih =>
    rw [List.forall_mem_cons] at h
    rw [List.cons_append, words_cons_break h.1, ih h.2]

theorem words_append_of_breaks (h : ∀ c ∈ t, isWord c = false) (s : Text) :
    words (s ++ t) = words s := by
  cases t with
  | nil => rw [List.append_nil]
  | cons c t =>
    rw [List.forall_mem_cons] at h
    have ht := words_append_breaks h.2 []
    rw [List.append_nil] at ht
    rw [words_append_break h.1, ht, words_nil, List.append_nil]

/-! ## Code with its literals marked -/

/-- What is left of a text without its first `skip` characters, with `gap` in the place of every
string literal behind them. -/
def fillFrom (gap : Text) : (skip : Nat) → Text → Text
  | _, [] => []
  | k + 1, _ :: s => fillFrom gap k s
  | 0, c :: s =>
    match if isQuote c then closeLiteral? c s else none with
    | some rest => gap ++ fillFrom gap (s.length - rest.length) s
    | none => c :: fillFrom gap 0 s

theorem fillFrom_nil (skip : Nat) (s : Text) : fillFrom [] skip s = outsideLiteralsFrom skip s := by
  induction s generalizing skip with
  | nil => cases skip <;> rfl
  | cons c s ih =>
    cases skip with
    | succ skip => exact ih skip
    | zero =>
      rw [fillFrom, outsideLiteralsFrom]
      cases if isQuote c then closeLiteral? c s else none with
      | some rest => exact ih _
      | none => exact congrArg (c :: ·) (ih _)

/-- A line up to its comment, with a blank in the place of every string literal. -/
def spacedCode (line : Text) : Text := fillFrom [' '] 0 (beforeComment line)

/-- The words in the code of a line. -/
def codeWords (line : Text) : List Text := words (spacedCode line)

theorem fillFrom_append_length (gap s t : Text) :
    fillFrom gap s.length (s ++ t) = fillFrom gap 0 t := by
  induction s with
  | nil => rfl
  | cons c s ih => exact ih

theorem fillFrom_cons_plain (gap : Text) (h : isQuote c = false) (s : Text) :
    fillFrom gap 0 (c :: s) = c :: fillFrom gap 0 s := by
  rw [fillFrom, h]
  rfl

theorem fillFrom_of_closeLiteral? (gap : Text) {mark : Char} {rest : Text}
    (hmark : isQuote mark = true) (h : closeLiteral? mark s = some rest) :
    fillFrom gap 0 (mark :: s) = gap ++ fillFrom gap 0 rest := by
  obtain ⟨body, rfl⟩ := eq_append_of_closeLiteral? h
  have hskip : (body ++ mark :: rest).length - rest.length = (body ++ [mark]).length := by
    simp only [List.length_append, List.length_cons, List.length_nil]
    omega
  rw [fillFrom, if_pos hmark, h]
  dsimp only
  rw [hskip, List.append_cons body mark rest, fillFrom_append_length]

end

/-! ## Parts that end in code -/

/-- A scan of a line is in code behind the text: two slashes there would begin a comment. -/
def EndsInCode (s : Text) : Prop := commentStart (s ++ ['/', '/']) = some s.length

instance (s : Text) : Decidable (EndsInCode s) :=
  inferInstanceAs (Decidable (commentStart (s ++ ['/', '/']) = some s.length))

section
variable {mark c : Char} {s t : Text}

theorem commentFrom_some_slashes (mark : Char) (offset : Nat) :
    commentFrom (some mark) offset ['/', '/'] = none := by
  rw [commentFrom, if_neg (by decide)]
  rfl

/-- Where slashes behind a text would begin a comment, what stands there is scanned as code. -/
theorem commentFrom_append_of_slashes {quote : Option Char} {offset stop : Nat}
    (hstop : offset + s.length = stop) (h : commentFrom quote offset (s ++ ['/', '/']) = some stop)
    (t : Text) : commentFrom quote offset (s ++ t) = commentFrom none stop t := by
  fun_induction commentFrom quote offset s with
  | case1 quote offset =>
    cases quote with
    | none =>
      cases hstop
      rfl
    | some mark =>
      rw [List.nil_append, commentFrom_some_slashes] at h
      cases h
  | case2 quote offset c =>
    cases hstop
    cases quote with
    | none =>
      rw [List.singleton_append, commentFrom] at h
      split at h
      · rw [commentFrom_some_slashes] at h
        cases h
      · next hq =>
        split at h
        · simp at h
        · next hslash =>
          exact commentFrom_cons_plain (Bool.eq_false_iff.2 hq) (fun hc => hslash ⟨hc, rfl⟩) offset
            t
    | some mark =>
      rw [List.singleton_append, commentFrom] at h
      split at h
      · cases h
      · next hb =>
        split at h
        · next hc =>
          cases t with
          | nil => rfl
          | cons d t =>
            rw [List.singleton_append, commentFrom, if_neg hb, if_pos hc]
            rfl
        · rw [commentFrom_some_slashes] at h
          cases h
  | case3 offset d s mark ih =>
    simp only [List.cons_append, commentFrom, if_pos] at h ⊢
    refine ih ?_ h
    simp only [List.length_cons] at hstop
    omega
  | case4 offset c d s mark hc ih =>
    simp only [List.cons_append, commentFrom, if_neg hc] at h ⊢
    refine ih ?_ h
    simp only [List.length_cons] at hstop ⊢
    omega
  | case5 offset c d s hc ih =>
    simp only [List.cons_append, commentFrom, if_pos hc] at h ⊢
    refine ih ?_ h
    simp only [List.length_cons] at hstop ⊢
    omega
  | case6 offset c d s hc hslash =>
    -- a comment that begins in the text does not begin behind it
    simp only [List.cons_append, commentFrom, if_neg hc, if_pos hslash, Option.some.injEq] at h
    simp only [List.length_cons] at hstop
    omega
  | case7 offset c d s hc hslash ih =>
    simp only [List.cons_append, commentFrom, if_neg hc, if_neg hslash] at h ⊢
    refine ih ?_ h
    simp only [List.length_cons] at hstop ⊢
    omega

theorem closeLiteral?_append_right {rest : Text} (h : closeLiteral? mark s = some rest) (t : Text) :
    closeLiteral? mark (s ++ t) = some (rest ++ t) := by
  fun_induction closeLiteral? mark s with
  | case1 => cases h
  | case2 =>
    cases h
    cases t <;> simp [closeLiteral?]
  | case3 => cases h
  | case4 =>
    cases h
    simp [closeLiteral?]
  | case5 => cases h
  | case6 d s hc hd ih => simpa [closeLiteral?, hc, hd] using ih h
  | case7 c d s hc hb ih => simpa [closeLiteral?, hc, hb] using ih h

/-- Whether a text ends in code does not depend on where it begins. -/
theorem endsInCode_iff (offset : Nat) :
    EndsInCode s ↔ commentFrom none offset (s ++ ['/', '/']) = some (offset + s.length) := by
  rw [← Nat.add_zero offset, commentFrom_add, Nat.add_zero, EndsInCode, commentStart]
  cases commentFrom none 0 (s ++ ['/', '/']) with
  | none => simp
  | some i => simp

theorem exists_closeLiteral?_of_slashes (hmark : isQuote mark = true) {offset stop : Nat}
    (hstop : offset + s.length = stop) (hlf : '\n' ∉ s)
    (h : commentFrom (some mark) offset (s ++ ['/', '/']) = some stop) :
    ∃ rest, closeLiteral? mark s = some rest ∧ EndsInCode rest := by
  fun_induction closeLiteral? mark s generalizing offset with
  | case1 =>
    rw [List.nil_append, commentFrom_some_slashes] at h
    cases h
  | case2 => exact ⟨[], rfl, rfl⟩
  | case3 c hc =>
    rw [List.singleton_append, commentFrom, if_neg hc, commentFrom_some_slashes] at h
    split at h <;> cases h
  | case4 d s =>
    refine ⟨d :: s, rfl, (endsInCode_iff (offset + 1)).2 ?_⟩
    rw [List.cons_append, commentFrom_close hmark] at h
    rw [h, ← hstop, List.length_cons]
    congr 1
    omega
  | case5 => exact absurd (List.mem_cons_of_mem _ List.mem_cons_self) hlf
  | case6 d s hc hd ih =>
    simp only [List.cons_append, commentFrom, if_pos] at h
    refine ih ?_ (fun hmem => hlf (by simp [hmem])) h
    simp only [List.length_cons] at hstop
    omega
  | case7 c d s hc hb ih =>
    simp only [List.cons_append, commentFrom, if_neg hb, if_neg hc] at h
    refine ih ?_ (fun hmem => hlf (List.mem_cons_of_mem c hmem)) h
    simp only [List.length_cons] at hstop ⊢
    omega

namespace EndsInCode

/-- What stands behind a part that ends in code is scanned as code. -/
theorem commentFrom_append (h : EndsInCode s) (t : Text) :
    commentFrom none 0 (s ++ t) = commentFrom none (0 + s.length) t :=
  commentFrom_append_of_slashes rfl ((endsInCode_iff 0).1 h) t

theorem beforeComment_append (h : EndsInCode s) (t : Text) :
    beforeComment (s ++ t) = s ++ beforeComment t :=
  beforeComment_append_of_moved (h.commentFrom_append t)

theorem of_moved (h : ∀ t, commentFrom none 0 (s ++ t) = commentFrom none (0 + s.length) t) :
    EndsInCode s := by
  rw [endsInCode_iff 0, h]
  rfl

theorem of_plain (h : ∀ c ∈ s, isQuote c = false ∧ c ≠ '/') : EndsInCode s :=
  of_moved (commentFrom_append_plain h 0)

theorem of_isLiteral (h : isLiteral s = true) : EndsInCode s :=
  of_moved (commentFrom_append_of_isLiteral h 0)

theorem commentStart_eq_none (h : EndsInCode s) : commentStart s = none := by
  refine Option.eq_none_iff_forall_ne_some.2 fun i hi => ?_
  have hlt := commentStart_lt hi
  have hsame := h.symm.trans (commentFrom_append_some hi ['/', '/'])
  rw [Option.some.injEq] at hsame
  omega

/-- Behind a character that opens no literal the scan goes on in code. -/
theorem tail (h : EndsInCode (c :: s)) (hc : isQuote c = false) : EndsInCode s := by
  refine (endsInCode_iff 1).2 ?_
  rw [endsInCode_iff 0, List.cons_append] at h
  obtain ⟨d, r, hd⟩ := List.exists_cons_of_ne_nil
    (List.append_ne_nil_of_right_ne_nil s (List.cons_ne_nil '/' ['/']))
  rw [hd, commentFrom, if_neg (by rw [hc]; decide)] at h
  split at h
  · simp at h
  · rw [hd, h, List.length_cons]
    congr 1
    omega

/-- Behind a mark the scan comes to the end of a literal, and goes on in code. -/
theorem exists_closeLiteral? (h : EndsInCode (mark :: s)) (hmark : isQuote mark = true)
    (hlf : '\n' ∉ s) : ∃ rest, closeLiteral? mark s = some rest ∧ EndsInCode rest := by
  rw [endsInCode_iff 0, List.cons_append, commentFrom_open hmark, List.length_cons] at h
  exact exists_closeLiteral?_of_slashes hmark (by omega) hlf h

/-- What stands behind a part that ends in code is filled as if the text began there. -/
theorem fillFrom_append (gap : Text) (h : EndsInCode s) (hlf : '\n' ∉ s) (t : Text) :
    fillFrom gap 0 (s ++ t) = fillFrom gap 0 s ++ fillFrom gap 0 t := by
  induction hn : s.length using Nat.strongRecOn generalizing s with
  | ind n ih =>
    cases s with
    | nil => rfl
    | cons c s =>
      rw [List.mem_cons, not_or] at hlf
      rw [List.length_cons] at hn
      cases hc : isQuote c with
      | false =>
        rw [List.cons_append, fillFrom_cons_plain gap hc, fillFrom_cons_plain gap hc,
          ih s.length (by omega) (h.tail hc) hlf.2 rfl]
        rfl
      | true =>
        obtain ⟨rest, hclose, hrest⟩ := h.exists_closeLiteral? hc hlf.2
        have hlt := length_of_closeLiteral? hclose
        obtain ⟨body, hbody⟩ := eq_append_of_closeLiteral? hclose
        have hlf' : '\n' ∉ rest := fun hmem => hlf.2 (by simp [hbody, hmem])
        rw [List.cons_append,
          fillFrom_of_closeLiteral? gap hc (closeLiteral?_append_right hclose t),
          fillFrom_of_closeLiteral? gap hc hclose, ih rest.length (by omega) hrest hlf' rfl,
          List.append_assoc]

theorem spacedCode_append (h : EndsInCode s) (hlf : '\n' ∉ s) (t : Text) :
    spacedCode (s ++ t) = spacedCode s ++ spacedCode t := by
  have hs := h.beforeComment_append []
  rw [List.append_nil, show beforeComment [] = [] from rfl, List.append_nil] at hs
  rw [spacedCode, h.beforeComment_append, h.fillFrom_append _ hlf, spacedCode, hs]
  rfl

end EndsInCode

end

/-! ## Parts -/

section
variable {mark : Char} {w raw s : Text}

theorem fillFrom_append_unquoted (gap : Text) (h : ∀ c ∈ w, isQuote c = false) (t : Text) :
    fillFrom gap 0 (w ++ t) = w ++ fillFrom gap 0 t := by
  induction w with
  | nil => rfl
  | cons c w ih =>
    rw [List.forall_mem_cons] at h
    rw [List.cons_append, fillFrom_cons_plain _ h.1, ih h.2]
    rfl

theorem spacedCode_append_plain (h : ∀ c ∈ w, isQuote c = false ∧ c ≠ '/') (t : Text) :
    spacedCode (w ++ t) = w ++ spacedCode t := by
  rw [spacedCode, (EndsInCode.of_plain h).beforeComment_append,
    fillFrom_append_unquoted _ fun c hc => (h c hc).1]
  rfl

theorem spacedCode_append_of_isLiteral (h : isLiteral raw = true) (t : Text) :
    spacedCode (raw ++ t) = ' ' :: spacedCode t := by
  rw [spacedCode, (EndsInCode.of_isLiteral h).beforeComment_append]
  cases raw with
  | nil => cases h
  | cons mark s =>
    obtain ⟨hmark, hclose⟩ := Bool.and_eq_true_iff.1 h
    rw [List.cons_append, fillFrom_of_closeLiteral? _ hmark
      (closeLiteral?_append_of_eq_nil (beq_iff_eq.1 hclose) _)]
    rfl

/-- What stands behind the beginning of a comment is no code of the line. -/
theorem spacedCode_append_of_isSome (h : (commentStart s).isSome = true) (t : Text) :
    spacedCode (s ++ t) = spacedCode s := by
  obtain ⟨i, hi⟩ := Option.isSome_iff_exists.1 h
  have hlt := commentStart_lt hi
  have happend : commentStart (s ++ t) = some i := commentFrom_append_some hi t
  unfold spacedCode beforeComment
  rw [hi, happend]
  dsimp only
  rw [List.take_append_of_le_length (by omega)]

/-- Unquoted text without a comment only moves the scan on to a mark. -/
theorem commentFrom_append_unquoted {offset : Nat} (hw : ∀ c ∈ w, isQuote c = false)
    (hmark : isQuote mark = true) (h : commentFrom none offset w = none) (t : Text) :
    commentFrom none offset (w ++ mark :: t) =
      commentFrom none (offset + w.length) (mark :: t) := by
  induction w generalizing offset with
  | nil => rfl
  | cons c w ih =>
    obtain ⟨hc, hw⟩ := List.forall_mem_cons.1 hw
    have hcode : ¬ isQuote c = true := by
      rw [hc]
      decide
    cases w with
    | nil =>
      rw [List.singleton_append, commentFrom, if_neg hcode, if_neg]
      · rfl
      · rintro ⟨-, rfl⟩
        cases hmark
    | cons d w =>
      rw [commentFrom, if_neg hcode] at h
      rw [List.cons_append, List.cons_append, commentFrom, if_neg hcode]
      split at h
      · cases h
      · next hslash =>
        rw [if_neg hslash, ← List.cons_append, ih hw h]
        simp only [List.length_cons]
        congr 1
        omega

/-- Unquoted text in front of a literal holds the comment of the line or is code. -/
theorem spacedCode_append_unquoted (hw : ∀ c ∈ w, isQuote c = false)
    (hmark : isQuote mark = true) (t : Text) : spacedCode (w ++ mark :: t) =
      spacedCode w ++ if (commentStart w).isSome then [] else spacedCode (mark :: t) := by
  split
  · next hsome => rw [spacedCode_append_of_isSome hsome, List.append_nil]
  · next hsome =>
    have hnone : commentStart w = none := by simpa using hsome
    have hcode := fillFrom_append_unquoted [' '] hw []
    rw [List.append_nil, show fillFrom [' '] 0 [] = [] from rfl, List.append_nil] at hcode
    rw [spacedCode, beforeComment_append_of_moved (commentFrom_append_unquoted hw hmark hnone t),
      fillFrom_append_unquoted _ hw, spacedCode, beforeComment_of_none hnone, hcode]
    rfl

end

end BuildScript.Text
