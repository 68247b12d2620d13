import BuildScript.Proofs.Text.Comment
/-!
# Literals are passed over

A scan that comes to a literal goes on behind it as it would have begun there: the mark that closes
the literal closes it whatever follows. So on a line neither the comment nor the code behind a
literal depends on what the literal says, and plain text in front of it is code as it stands.

Results:
* `closeLiteral?_eq_some_iff`, `isLiteral_iff`: what a literal is made of.
* `beforeComment_append_of_moved`: a line up to its comment, behind a part without one.
* `outsideLiterals_append_of_isLiteral`, `outsideLiterals_append_plain`: what is left out of a line.
* `codePortion_append_of_isLiteral`, `codePortion_append_plain`: the code of a line behind a literal
  and behind plain text.
-/
namespace BuildScript.Text

variable {mark : Char} {s w raw : Text}

/-! ## What a literal is made of -/

/-- What stands between the marks of a literal: no mark, unless a backslash takes it along, and no
backslash that takes nothing along or a line feed. -/
inductive LiteralBody (mark : Char) : Text → Prop
  | nil : LiteralBody mark []
  | plain {c : Char} {body : Text} (hmark : c ≠ mark) (hslash : c ≠ '\\')
      (hbody : LiteralBody mark body) : LiteralBody mark (c :: body)
  | escaped {c : Char} {body : Text} (hlf : c ≠ '\n')
      (hbody : LiteralBody mark body) : LiteralBody mark ('\\' :: c :: body)

/-- A literal and its body. -/
def IsLiteral (s body : Text) : Prop :=
  ∃ mark, isQuote mark = true ∧ LiteralBody mark body ∧ s = mark :: body ++ [mark]

theorem LiteralBody.closeLiteral? {body : Text} (h : LiteralBody mark body) (hmark : mark ≠ '\\')
    (t : Text) : closeLiteral? mark (body ++ mark :: t) = some t := by
  induction h with
  | nil => cases t <;> simp [Text.closeLiteral?]
  | @plain c body hc hslash hbody ih =>
    cases hs : body ++ mark :: t with
    | nil => exact absurd hs (List.append_ne_nil_of_right_ne_nil _ (List.cons_ne_nil _ _))
    | cons d s =>
      rw [List.cons_append, hs, Text.closeLiteral?, if_neg hc, if_neg hslash, ← hs, ih]
  | @escaped c body hlf hbody ih =>
    rw [List.cons_append, List.cons_append, Text.closeLiteral?, if_neg (Ne.symm hmark), if_pos rfl,
      if_neg hlf, ih]

/-- A mark closes a literal just when a body stands in front of it. -/
theorem closeLiteral?_eq_some_iff (hmark : mark ≠ '\\') {t : Text} :
    closeLiteral? mark s = some t ↔ ∃ body, LiteralBody mark body ∧ s = body ++ mark :: t := by
  constructor
  · intro h
    fun_induction closeLiteral? mark s with
    | case1 => cases h
    | case2 => cases h; exact ⟨[], .nil, rfl⟩
    | case3 => cases h
    | case4 => cases h; exact ⟨[], .nil, rfl⟩
    | case5 => cases h
    | case6 d s hlf _ ih =>
      obtain ⟨body, hbody, rfl⟩ := ih h
      exact ⟨_, .escaped hlf hbody, rfl⟩
    | case7 c d s hc hslash ih =>
      obtain ⟨body, hbody, hs⟩ := ih h
      exact ⟨_, .plain hc hslash hbody, congrArg _ hs⟩
  · rintro ⟨body, hbody, rfl⟩
    exact hbody.closeLiteral? hmark t

/-- A text is one literal just when it is a body between two equal marks. -/
theorem isLiteral_iff : isLiteral s = true ↔ ∃ body, IsLiteral s body := by
  cases s with
  | nil => exact iff_of_false Bool.false_ne_true fun ⟨_, _, _, _, h⟩ => List.cons_ne_nil _ _ h.symm
  | cons mark s =>
    rw [isLiteral, Bool.and_eq_true, beq_iff_eq]
    constructor
    · rintro ⟨hmark, hclose⟩
      obtain ⟨body, hbody, rfl⟩ :=
        (closeLiteral?_eq_some_iff (ne_backslash_of_isQuote hmark)).1 hclose
      exact ⟨body, mark, hmark, hbody, rfl⟩
    · rintro ⟨body, mark', hmark, hbody, hs⟩
      obtain ⟨rfl, rfl⟩ := List.cons.inj hs
      exact ⟨hmark, hbody.closeLiteral? (ne_backslash_of_isQuote hmark) []⟩

/-! ## Closing marks -/

theorem closeLiteral?_append_of_eq_nil (h : closeLiteral? mark s = some []) (t : Text) :
    closeLiteral? mark (s ++ t) = some t := by
  fun_induction closeLiteral? mark s with
  | case1 => cases h
  | case2 => cases t <;> simp [closeLiteral?]
  | case3 => cases h
  | case4 => cases h
  | case5 => cases h
  | case6 d s hc hd ih => simpa [closeLiteral?, hc, hd] using ih h
  | case7 c d s hc hb ih => simpa [closeLiteral?, hc, hb] using ih h

theorem commentFrom_of_closeLiteral? (hmark : isQuote mark = true)
    (h : closeLiteral? mark s = some []) (offset : Nat) (t : Text) :
    commentFrom (some mark) offset (s ++ t) = commentFrom none (offset + s.length) t := by
  fun_induction closeLiteral? mark s generalizing offset with
  | case1 => cases h
  | case2 => exact commentFrom_close hmark offset t
  | case3 => cases h
  | case4 => cases h
  | case5 => cases h
  | case6 d s hc hd ih =>
    -- both scans take the character behind a backslash with it
    rw [List.cons_append, List.cons_append, commentFrom, if_pos rfl, ih h, List.length_cons,
      List.length_cons]
    congr 1
    omega
  | case7 c d s hc hb ih =>
    rw [List.cons_append, List.cons_append, commentFrom, if_neg hb, if_neg hc, ← List.cons_append,
      ih h]
    simp only [List.length_cons]
    congr 1
    omega

/-! ## Comments behind a literal -/

theorem commentFrom_append_of_isLiteral (h : isLiteral raw = true) (offset : Nat) (t : Text) :
    commentFrom none offset (raw ++ t) = commentFrom none (offset + raw.length) t := by
  cases raw with
  | nil => cases h
  | cons mark s =>
    obtain ⟨hmark, hclose⟩ := Bool.and_eq_true_iff.1 h
    rw [List.cons_append, commentFrom_open hmark,
      commentFrom_of_closeLiteral? hmark (beq_iff_eq.1 hclose), List.length_cons]
    congr 1
    omega

/-- Behind a part that only moves a comment a line has the same comment as the rest alone. -/
theorem beforeComment_append_of_moved {t : Text}
    (h : commentFrom none 0 (w ++ t) = commentFrom none (0 + w.length) t) :
    beforeComment (w ++ t) = w ++ beforeComment t := by
  rw [Nat.zero_add, ← Nat.add_zero w.length, commentFrom_add] at h
  unfold beforeComment commentStart
  rw [h]
  cases commentFrom none 0 t with
  | none => rfl
  | some i => exact List.take_length_add_append i

/-! ## What is left out -/

theorem outsideLiteralsFrom_append_length (s t : Text) :
    outsideLiteralsFrom s.length (s ++ t) = outsideLiterals t := by
  induction s with
  | nil => rfl
  | cons c s ih => exact ih

theorem outsideLiterals_append_of_isLiteral (h : isLiteral raw = true) (t : Text) :
    outsideLiterals (raw ++ t) = outsideLiterals t := by
  cases raw with
  | nil => cases h
  | cons mark s =>
    obtain ⟨hmark, hclose⟩ := Bool.and_eq_true_iff.1 h
    have hlength : (s ++ t).length - t.length = s.length := by
      rw [List.length_append, Nat.add_sub_cancel]
    rw [List.cons_append, outsideLiterals, outsideLiteralsFrom, if_pos hmark,
      closeLiteral?_append_of_eq_nil (beq_iff_eq.1 hclose)]
    dsimp only
    rw [hlength, outsideLiteralsFrom_append_length]

theorem outsideLiterals_append_plain (h : ∀ c ∈ w, isQuote c = false) (t : Text) :
    outsideLiterals (w ++ t) = w ++ outsideLiterals t := by
  induction w with
  | nil => rfl
  | cons c w ih =>
    rw [List.forall_mem_cons] at h
    rw [List.cons_append, outsideLiterals, outsideLiteralsFrom, h.1]
    exact congrArg (c :: ·) (ih h.2)

theorem outsideLiterals_of_plain (h : ∀ c ∈ w, isQuote c = false) : outsideLiterals w = w := by
  have hw := outsideLiterals_append_plain h []
  rwa [List.append_nil, show outsideLiterals [] = [] from rfl, List.append_nil] at hw

/-! ## Code -/

/-- Plain text in front of a line is code of the line. -/
theorem codePortion_append_plain (h : ∀ c ∈ w, isQuote c = false ∧ c ≠ '/') (t : Text) :
    codePortion (w ++ t) = w ++ codePortion t := by
  rw [codePortion, beforeComment_append_of_moved (commentFrom_append_plain h 0 t),
    outsideLiterals_append_plain fun c hc => (h c hc).1]
  rfl

/-- A literal in front of a line is no code of the line. -/
theorem codePortion_append_of_isLiteral (h : isLiteral raw = true) (t : Text) :
    codePortion (raw ++ t) = codePortion t := by
  rw [codePortion, beforeComment_append_of_moved (commentFrom_append_of_isLiteral h 0 t),
    outsideLiterals_append_of_isLiteral h]
  rfl

end BuildScript.Text
