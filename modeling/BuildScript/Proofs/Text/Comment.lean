import BuildScript.Proofs.Text.Scan
/-!
# Where a comment begins

A comment begins at its two slashes, and whether it does shows in the text up to them. So a line can
be cut in front of its comment: what the comment says has no part in where it begins, and in front
of it there is none.

Results:
* `commentFrom_append_some`, `commentFrom_of_append`: where a comment begins shows in the text up to
  its slashes.
* `commentStart_slashes`: a line cut in front of its comment.
-/
namespace BuildScript.Text

theorem plain_of_isBlank {x : Char} (hx : isBlank x = true) : isQuote x = false ∧ x ≠ '/' := by
  refine ⟨not_isQuote_of_isBlank hx, ?_⟩
  rintro rfl
  exact absurd hx (by decide)

/-- A comment is found whatever stands behind. -/
theorem commentFrom_append_some {quote : Option Char} {offset i : Nat} {s : Text}
    (h : commentFrom quote offset s = some i) (t : Text) :
    commentFrom quote offset (s ++ t) = some i := by
  fun_induction commentFrom quote offset s with
  | case1 => cases h
  | case2 => cases h
  | case3 offset d s mark ih =>
    simp only [List.cons_append, commentFrom, if_pos]
    exact ih h
  | case4 offset c d s mark hc ih =>
    simp only [List.cons_append, commentFrom, if_neg hc]
    exact ih h
  | case5 offset c d s hc ih =>
    simp only [List.cons_append, commentFrom, if_pos hc]
    exact ih h
  | case6 offset c d s hc hslash =>
    simp only [List.cons_append, commentFrom, if_neg hc, if_pos hslash]
    exact h
  | case7 offset c d s hc hslash ih =>
    simp only [List.cons_append, commentFrom, if_neg hc, if_neg hslash]
    exact ih h

/-- A comment that begins in a front part is found in it. -/
theorem commentFrom_of_append {quote : Option Char} {offset i : Nat} {s t : Text}
    (h : commentFrom quote offset (s ++ t) = some i) (hi : i + 2 ≤ offset + s.length) :
    commentFrom quote offset s = some i := by
  fun_induction commentFrom quote offset s with
  | case1 quote offset =>
    have := (commentFrom_lt h).1
    simp only [List.length_nil] at hi
    omega
  | case2 quote offset c =>
    have := (commentFrom_lt h).1
    simp only [List.length_cons, List.length_nil] at hi
    omega
  | case3 offset d s mark ih =>
    simp only [List.cons_append, commentFrom, if_pos] at h
    refine ih h ?_
    simp only [List.length_cons] at hi
    omega
  | case4 offset c d s mark hc ih =>
    simp only [List.cons_append, commentFrom, if_neg hc] at h
    refine ih h ?_
    simp only [List.length_cons] at hi ⊢
    omega
  | case5 offset c d s hc ih =>
    simp only [List.cons_append, commentFrom, if_pos hc] at h
    refine ih h ?_
    simp only [List.length_cons] at hi ⊢
    omega
  | case6 offset c d s hc hslash =>
    simp only [List.cons_append, commentFrom, if_neg hc, if_pos hslash] at h
    exact h
  | case7 offset c d s hc hslash ih =>
    simp only [List.cons_append, commentFrom, if_neg hc, if_neg hslash] at h
    refine ih h ?_
    simp only [List.length_cons] at hi ⊢
    omega

theorem commentFrom_add (quote : Option Char) (k offset : Nat) (s : Text) :
    commentFrom quote (k + offset) s = (commentFrom quote offset s).map (k + ·) := by
  fun_induction commentFrom quote offset s with
  | case1 => rfl
  | case2 => rfl
  | case3 offset d s mark ih =>
    simp only [commentFrom, if_pos]
    exact ih
  | case4 offset c d s mark hc ih =>
    simp only [commentFrom, if_neg hc]
    exact ih
  | case5 offset c d s hc ih =>
    simp only [commentFrom, if_pos hc]
    exact ih
  | case6 offset c d s hc hslash =>
    simp only [commentFrom, if_neg hc, if_pos hslash]
    rfl
  | case7 offset c d s hc hslash ih =>
    simp only [commentFrom, if_neg hc, if_neg hslash]
    exact ih

/-- Where a comment begins behind `s`, it does so whatever it says, and no front part of `s` has
one. -/
theorem commentStart_slashes {s r : Text}
    (h : commentStart (s ++ '/' :: '/' :: r) = some s.length) :
    (∀ r', commentStart (s ++ '/' :: '/' :: r') = some s.length) ∧
      ∀ p, p <+: s → commentStart p = none := by
  constructor
  · intro r'
    have hsplit (r : Text) : s ++ '/' :: '/' :: r = s ++ ['/', '/'] ++ r := by simp
    have hfront : commentStart (s ++ ['/', '/']) = some s.length := by
      refine commentFrom_of_append (t := r) ?_ ?_
      · rw [← hsplit]
        exact h
      · simp
    rw [hsplit]
    exact commentFrom_append_some hfront r'
  · rintro p ⟨q, rfl⟩
    refine Option.eq_none_iff_forall_ne_some.2 fun i hi => ?_
    have hlt := commentStart_lt hi
    have hcomment := commentFrom_append_some hi (q ++ '/' :: '/' :: r)
    rw [← List.append_assoc, show commentFrom none 0 _ = _ from h, Option.some.injEq,
      List.length_append] at hcomment
    omega

theorem exists_comment {s t : Text} (h : commentStart (s ++ t) = some s.length) :
    ∃ r, t = '/' :: '/' :: r := by
  obtain ⟨w, r, hw, hlen⟩ := commentFrom_spec h
  rw [Nat.zero_add] at hlen
  exact ⟨r, (List.append_inj hw hlen).2⟩

theorem trimRight_append_comment (s r : Text) :
    trimRight (s ++ '/' :: '/' :: r) = s ++ '/' :: '/' :: trimRight r := by
  have := trimRight_append_stop (by decide : isBlank '/' = false) (s ++ ['/']) r
  simpa using this

/-- Plain text in front of a comment may be left out. -/
theorem commentStart_of_append_plain {w s : Text} {i : Nat}
    (hw : ∀ c ∈ w, isQuote c = false ∧ c ≠ '/') (h : commentStart (w ++ s) = some (w.length + i)) :
    commentStart s = some i := by
  rw [commentStart, commentFrom_append_plain hw, Nat.zero_add, ← Nat.add_zero w.length,
    commentFrom_add, Nat.add_zero] at h
  obtain ⟨j, hj, hij⟩ := Option.map_eq_some_iff.1 h
  rw [commentStart, hj]
  exact congrArg some (Nat.add_left_cancel hij)

theorem beforeComment_append {s t : Text} (h : commentStart (s ++ t) = some s.length) :
    beforeComment (s ++ t) = s := by
  rw [beforeComment, h]
  exact List.take_left

theorem beforeComment_of_none {s : Text} (h : commentStart s = none) : beforeComment s = s := by
  rw [beforeComment, h]

/-- What a line begins with up to its comment has no comment. -/
theorem commentStart_eq_none_of_prefix {p s : Text} (h : p <+: beforeComment s) :
    commentStart p = none := by
  cases hs : commentStart s with
  | none =>
    rw [beforeComment_of_none hs] at h
    obtain ⟨t, rfl⟩ := h
    refine Option.eq_none_iff_forall_ne_some.2 fun i hi => ?_
    rw [commentStart, commentFrom_append_some hi] at hs
    cases hs
  | some i =>
    obtain ⟨w, r, rfl, rfl⟩ := commentFrom_spec hs
    rw [Nat.zero_add] at hs
    rw [beforeComment_append hs] at h
    exact (commentStart_slashes hs).2 p h

end BuildScript.Text
