import Mathlib.Data.List.DropRight
import Mathlib.Data.List.TakeWhile
import BuildScript.Text.Search
import BuildScript.Text.Literal
import BuildScript.Proofs.Text.Layout
/-!
# Where a scan stops

A scanner that takes characters of one kind stops at the first character of another kind, and what
stands behind that one is nothing to it. When a value is rewritten, the text in front of it is
therefore read as before, provided a mark that stops every scan stands between the two.

Results:
* `takeWhile_append_stop`, `dropWhile_append_stop`, `startsWith_append_stop`: what stands behind a
  stop does not matter.
* `commentFrom_append_plain`, `commentFrom_append_literal`: a comment is looked for behind plain
  text and behind a literal.
* `contains_append_stop`: a word does not reach over a stop.
* `contains_scheme`: an address has two slashes in front of a field other than the first.
-/
namespace BuildScript.Text

/-! ## Stops -/

section
variable {p : Char → Bool} {c : Char}

theorem takeWhile_append_stop (hc : p c = false) (w s : Text) :
    (w ++ c :: s).takeWhile p = w.takeWhile p := by
  induction w with
  | nil => simp [hc]
  | cons d w ih => by_cases hd : p d = true <;> simp [hd, ih]

theorem dropWhile_append_stop (hc : p c = false) (w s : Text) :
    (w ++ c :: s).dropWhile p = w.dropWhile p ++ c :: s := by
  induction w with
  | nil => simp [hc]
  | cons d w ih => by_cases hd : p d = true <;> simp [hd, ih]

theorem takeWhile_of_all {w : Text} (h : ∀ d ∈ w, p d = true) (hc : p c = false) (s : Text) :
    (w ++ c :: s).takeWhile p = w := by
  rw [takeWhile_append_stop hc, List.takeWhile_eq_self_iff.2 h]

theorem dropWhile_of_all {w : Text} (h : ∀ d ∈ w, p d = true) (hc : p c = false) (s : Text) :
    (w ++ c :: s).dropWhile p = c :: s := by
  rw [dropWhile_append_stop hc, List.dropWhile_eq_nil_iff.2 h]
  rfl

/-- What stands behind a character that a word lacks does not decide whether a text starts with
the word. -/
theorem startsWith_append_stop {word : Text} (hc : c ∉ word) (w s : Text) :
    startsWith word (w ++ c :: s) = startsWith word w := by
  induction word generalizing w with
  | nil => rfl
  | cons a word ih =>
    rw [List.mem_cons, not_or] at hc
    cases w with
    | nil => simp [startsWith, after?, Ne.symm hc.1]
    | cons d w =>
      have ih := ih hc.2 w
      simp only [startsWith, List.cons_append, after?] at ih ⊢
      split
      · exact ih
      · rfl

end

theorem isQuote_cases {c : Char} (h : isQuote c = true) : c = '\'' ∨ c = '"' := by
  simpa [isQuote] using h

theorem not_isBlank_of_isQuote {c : Char} (h : isQuote c = true) : isBlank c = false := by
  rcases isQuote_cases h with rfl | rfl <;> decide

theorem not_isQuote_of_isBlank {c : Char} (h : isBlank c = true) : isQuote c = false := by
  refine Bool.eq_false_iff.2 fun hq => ?_
  rw [not_isBlank_of_isQuote hq] at h
  cases h

theorem not_isQuote_of_isWord {c : Char} (h : isWord c = true) : isQuote c = false := by
  refine Bool.eq_false_iff.2 fun hq => ?_
  rcases isQuote_cases hq with rfl | rfl <;> exact absurd h (by decide)

theorem not_isBlank_of_isIdentifierStart {c : Char} (h : isIdentifierStart c = true) :
    isBlank c = false := by
  refine not_isBlank_of_isWord_ascii ?_ (isWord_of_isIdentifierStart h)
  simp only [isIdentifierStart, Bool.or_eq_true, Bool.and_eq_true, decide_eq_true_eq,
    beq_iff_eq] at h
  rcases h with (h | h) | rfl
  · omega
  · omega
  · decide

/-! ## Trimming -/

theorem trimLeft_append_of_blank {b : Text} (h : ∀ c ∈ b, isBlank c = true) (s : Text) :
    trimLeft (b ++ s) = trimLeft s := List.dropWhile_append_of_pos h

theorem trimLeft_cons_of_not_blank {c : Char} (h : isBlank c = false) (s : Text) :
    trimLeft (c :: s) = c :: s := List.dropWhile_cons_of_neg (by rw [h]; exact Bool.false_ne_true)

theorem exists_append_trimLeft (s : Text) :
    ∃ b, (∀ c ∈ b, isBlank c = true) ∧ s = b ++ trimLeft s :=
  ⟨s.takeWhile isBlank, List.all_eq_true.1 List.all_takeWhile,
    List.takeWhile_append_dropWhile.symm⟩

theorem not_isBlank_of_trimLeft {c : Char} {s : Text} (h : trimLeft (c :: s) = c :: s) :
    isBlank c = false := by
  cases hc : isBlank c with
  | false => rfl
  | true =>
    have hlen : (trimLeft s).length ≤ s.length := (List.dropWhile_suffix isBlank).length_le
    rw [trimLeft, List.dropWhile_cons_of_pos hc] at h
    rw [trimLeft, h, List.length_cons] at hlen
    omega

theorem trimRight_append_stop {c : Char} (hc : isBlank c = false) (w s : Text) :
    trimRight (w ++ c :: s) = w ++ c :: trimRight s := by
  have hrev : (w ++ c :: s).reverse = s.reverse ++ c :: w.reverse := by simp
  rw [trimRight, dropTrailing, hrev, dropWhile_append_stop hc]
  simp [trimRight, dropTrailing]

theorem trimRight_append_of_blank {b : Text} (h : ∀ c ∈ b, isBlank c = true) (w : Text) :
    trimRight (w ++ b) = trimRight w := by
  have hrev : ∀ c ∈ b.reverse, isBlank c = true := fun c hc => h c (List.mem_reverse.1 hc)
  rw [trimRight, dropTrailing, List.reverse_append, List.dropWhile_append_of_pos hrev]
  rfl

theorem eq_trimRight_append (s : Text) :
    ∃ b, (∀ c ∈ b, isBlank c = true) ∧ s = trimRight s ++ b := by
  refine ⟨(s.reverse.takeWhile isBlank).reverse, fun c hc => ?_, ?_⟩
  · exact List.all_eq_true.1 List.all_takeWhile c (List.mem_reverse.1 hc)
  · rw [trimRight, dropTrailing, ← List.reverse_append, List.takeWhile_append_dropWhile,
      List.reverse_reverse]

theorem trimRight_trimRight (s : Text) : trimRight (trimRight s) = trimRight s := by
  obtain ⟨b, hb, hs⟩ := eq_trimRight_append s
  have h := trimRight_append_of_blank hb (trimRight s)
  rw [← hs] at h
  exact h.symm

theorem trimLeft_trimLeft (s : Text) : trimLeft (trimLeft s) = trimLeft s := by
  unfold trimLeft
  rw [List.dropWhile_idempotent]

/-- A text that trimming leaves as it is has no blank at either end. -/
theorem trim_eq_self {s : Text} (h : trim s = s) : trimLeft s = s ∧ trimRight s = s := by
  have hsuffix : trimLeft s <:+ s := List.dropWhile_suffix isBlank
  obtain ⟨b, -, hb⟩ := eq_trimRight_append (trimLeft s)
  have hlen := congrArg List.length hb
  rw [List.length_append, show trimRight (trimLeft s) = s from h] at hlen
  have hleft : trimLeft s = s := hsuffix.eq_of_length_le (by omega)
  rw [trim, hleft] at h
  exact ⟨hleft, h⟩

theorem trim_sublist (s : Text) : (trim s).Sublist s := by
  obtain ⟨b, -, hb⟩ := eq_trimRight_append (trimLeft s)
  have hright : (trim s).Sublist (trimLeft s) := by
    conv_rhs => rw [hb]
    exact List.sublist_append_left _ b
  exact hright.trans (List.dropWhile_suffix isBlank).sublist

theorem trim_between {mark : Char} (h : isBlank mark = false) (body : Text) :
    trim (mark :: body ++ [mark]) = mark :: body ++ [mark] := by
  rw [trim, List.cons_append, trimLeft_cons_of_not_blank h]
  exact trimRight_append_stop h (mark :: body) []

/-! ## Comments -/

section
variable {mark c : Char} {w body : Text}

theorem commentFrom_cons_plain (hq : isQuote c = false) (hs : c ≠ '/') (offset : Nat) (t : Text) :
    commentFrom none offset (c :: t) = commentFrom none (offset + 1) t := by
  cases t with
  | nil => rfl
  | cons d t =>
    rw [commentFrom]
    simp [hq, hs]

/-- Plain text in front only moves a comment. -/
theorem commentFrom_append_plain (h : ∀ c ∈ w, isQuote c = false ∧ c ≠ '/') (offset : Nat)
    (t : Text) : commentFrom none offset (w ++ t) = commentFrom none (offset + w.length) t := by
  induction w generalizing offset with
  | nil => rfl
  | cons c w ih =>
    obtain ⟨hq, hs⟩ := h c List.mem_cons_self
    rw [List.cons_append, commentFrom_cons_plain hq hs,
      ih (fun d hd => h d (List.mem_cons_of_mem c hd)), List.length_cons]
    congr 1
    omega

theorem ne_backslash_of_isQuote (h : isQuote mark = true) : mark ≠ '\\' := by
  rcases isQuote_cases h with rfl | rfl <;> decide

theorem commentFrom_open (h : isQuote mark = true) (offset : Nat) (t : Text) :
    commentFrom none offset (mark :: t) = commentFrom (some mark) (offset + 1) t := by
  cases t with
  | nil => rfl
  | cons d t =>
    rw [commentFrom]
    exact if_pos h

theorem commentFrom_close (h : isQuote mark = true) (offset : Nat) (t : Text) :
    commentFrom (some mark) offset (mark :: t) = commentFrom none (offset + 1) t := by
  cases t with
  | nil => rfl
  | cons d t =>
    rw [commentFrom]
    simp [ne_backslash_of_isQuote h]

theorem commentFrom_inside (h : ∀ c ∈ body, c ≠ mark ∧ c ≠ '\\') (offset : Nat) (t : Text) :
    commentFrom (some mark) offset (body ++ t) =
      commentFrom (some mark) (offset + body.length) t := by
  induction body generalizing offset with
  | nil => rfl
  | cons c body ih =>
    obtain ⟨hm, hb⟩ := h c List.mem_cons_self
    have hstep : ∀ s, commentFrom (some mark) offset (c :: s) =
        commentFrom (some mark) (offset + 1) s := by
      intro s
      cases s with
      | nil => rfl
      | cons d s =>
        rw [commentFrom]
        simp [hm, hb]
    rw [List.cons_append, hstep, ih (fun d hd => h d (List.mem_cons_of_mem c hd)),
      List.length_cons]
    congr 1
    omega

/-- A literal in front only moves a comment. -/
theorem commentFrom_append_literal (hmark : isQuote mark = true)
    (h : ∀ c ∈ body, c ≠ mark ∧ c ≠ '\\') (offset : Nat) (t : Text) :
    commentFrom none offset (mark :: body ++ [mark] ++ t) =
      commentFrom none (offset + (mark :: body ++ [mark]).length) t := by
  have hlen : offset + 1 + body.length + 1 = offset + (mark :: body ++ [mark]).length := by
    simp only [List.length_append, List.length_cons, List.length_nil]
    omega
  rw [List.append_assoc, List.cons_append, List.singleton_append, commentFrom_open hmark,
    commentFrom_inside h, commentFrom_close hmark, hlen]

/-- A comment begins with its two slashes. -/
theorem commentFrom_spec {quote : Option Char} {offset i : Nat} {s : Text}
    (h : commentFrom quote offset s = some i) :
    ∃ w r, s = w ++ '/' :: '/' :: r ∧ i = offset + w.length := by
  fun_induction commentFrom quote offset s with
  | case1 => cases h
  | case2 => cases h
  | case3 offset d s mark ih =>
    obtain ⟨w, r, rfl, rfl⟩ := ih h
    refine ⟨_ :: d :: w, r, rfl, ?_⟩
    rw [List.length_cons, List.length_cons]
    omega
  | case4 offset c d s mark _ ih =>
    obtain ⟨w, r, e, rfl⟩ := ih h
    refine ⟨c :: w, r, congrArg _ e, ?_⟩
    rw [List.length_cons]
    omega
  | case5 offset c d s _ ih =>
    obtain ⟨w, r, e, rfl⟩ := ih h
    refine ⟨c :: w, r, congrArg _ e, ?_⟩
    rw [List.length_cons]
    omega
  | case6 offset c d s _ hslash =>
    cases h
    exact ⟨[], s, by rw [hslash.1, hslash.2]; rfl, rfl⟩
  | case7 offset c d s _ _ ih =>
    obtain ⟨w, r, e, rfl⟩ := ih h
    refine ⟨c :: w, r, congrArg _ e, ?_⟩
    rw [List.length_cons]
    omega

theorem eq_beforeComment_append (s : Text) :
    ∃ r, s = beforeComment s ++ r ∧ (r = [] ∨ ∃ t, r = '/' :: '/' :: t) := by
  unfold beforeComment
  split
  · next i hi =>
    obtain ⟨w, r, rfl, rfl⟩ := commentFrom_spec hi
    refine ⟨'/' :: '/' :: r, ?_, Or.inr ⟨r, rfl⟩⟩
    rw [Nat.zero_add, List.take_left]
  · exact ⟨[], (List.append_nil s).symm, Or.inl rfl⟩

theorem beforeComment_eq_nil_iff {s : Text} :
    beforeComment s = [] ↔ s = [] ∨ startsWith ['/', '/'] s = true := by
  unfold beforeComment
  constructor
  · intro h
    split at h
    · next i hi =>
      obtain ⟨w, r, rfl, rfl⟩ := commentFrom_spec hi
      cases w with
      | nil => exact Or.inr (by rfl)
      | cons c w => simp at h
    · exact Or.inl h
  · rintro (rfl | h)
    · rfl
    · obtain ⟨r, hr⟩ := Option.isSome_iff_exists.1 h
      obtain rfl := eq_append_of_after? hr
      rfl

end

/-! ## Literals -/

section
variable {mark : Char} {body : Text}

theorem closeLiteral?_append (h : ∀ c ∈ body, c ≠ mark ∧ c ≠ '\\') (t : Text) :
    closeLiteral? mark (body ++ mark :: t) = some t := by
  induction body with
  | nil => cases t <;> simp [closeLiteral?]
  | cons c body ih =>
    obtain ⟨hm, hb⟩ := h c List.mem_cons_self
    have ih := ih fun d hd => h d (List.mem_cons_of_mem c hd)
    rw [List.cons_append]
    generalize body ++ mark :: t = s at ih
    cases s with
    | nil => cases ih
    | cons d s =>
      rw [closeLiteral?, if_neg hm, if_neg hb]
      exact ih

theorem isLiteral_of_body (hmark : isQuote mark = true) (h : ∀ c ∈ body, c ≠ mark ∧ c ≠ '\\') :
    isLiteral (mark :: body ++ [mark]) = true := by
  rw [List.cons_append, isLiteral, hmark, closeLiteral?_append h]
  rfl

theorem eq_append_of_closeLiteral? {s rest : Text} (h : closeLiteral? mark s = some rest) :
    ∃ body, s = body ++ mark :: rest := by
  fun_induction closeLiteral? mark s with
  | case1 => cases h
  | case2 => cases h; exact ⟨[], rfl⟩
  | case3 => cases h
  | case4 => cases h; exact ⟨[], rfl⟩
  | case5 => cases h
  | case6 d s hmark hlf ih =>
    obtain ⟨body, rfl⟩ := ih h
    exact ⟨'\\' :: d :: body, rfl⟩
  | case7 c d s hmark hother ih =>
    obtain ⟨body, hbody⟩ := ih h
    exact ⟨c :: body, by rw [hbody]; rfl⟩

end

/-! ## Words in a text -/

theorem after?_eq_some_iff {word s r : Text} : after? word s = some r ↔ s = word ++ r :=
  ⟨eq_append_of_after?, fun h => by rw [h, after?_append]⟩

theorem suffix_of_after? {word s r : Text} (h : after? word s = some r) : r <:+ s :=
  ⟨word, (eq_append_of_after? h).symm⟩

theorem startsWith_append {word s : Text} (h : startsWith word s = true) (t : Text) :
    startsWith word (s ++ t) = true := by
  obtain ⟨r, hr⟩ := Option.isSome_iff_exists.1 h
  rw [after?_eq_some_iff.1 hr, List.append_assoc, startsWith, after?_append]
  rfl

theorem startsWith_of_fields {word s f : Text} {fs : List Text} {sep : Char} (hsep : sep ∉ word)
    (h : fields sep s = f :: fs) : startsWith word s = startsWith word f := by
  have hs := intercalate_fields sep s
  rw [h] at hs
  cases fs with
  | nil => rw [← hs, List.intercalate_singleton]
  | cons g gs =>
    rw [← hs, intercalate_cons_cons, List.append_assoc, List.singleton_append,
      startsWith_append_stop hsep]

theorem contains_cons (word : Text) (c : Char) (s : Text) :
    contains word (c :: s) = (startsWith word (c :: s) || contains word s) := by
  rw [contains, find?]
  split
  · next h => rw [h]; rfl
  · next h => rw [Bool.eq_false_iff.2 h, Option.isSome_map]; rfl

/-- A word does not reach over a character that it lacks. -/
theorem contains_append_stop {word : Text} {c : Char} (hc : c ∉ word) (w s : Text) :
    contains word (w ++ c :: s) = (contains word w || contains word s) := by
  induction w with
  | nil =>
    rw [List.nil_append, contains_cons]
    have hstart : startsWith word (c :: s) = startsWith word [] := startsWith_append_stop hc [] s
    rw [hstart]
    cases word <;> rfl
  | cons d w ih =>
    have hstart : startsWith word (d :: (w ++ c :: s)) = startsWith word (d :: w) :=
      startsWith_append_stop hc (d :: w) s
    rw [List.cons_append, contains_cons, contains_cons, hstart, ih, Bool.or_assoc]

/-- An address has two slashes in front of a field other than the first. -/
theorem contains_scheme (s : Text) : contains [':', '/', '/'] s = true ↔
    ∃ f ∈ (fields ':' s).tail, startsWith ['/', '/'] f = true := by
  induction s with
  | nil => simp [contains, find?, fields]
  | cons c s ih =>
    obtain ⟨f, fs, hf, hc⟩ := fields_cons ':' c s
    have hstart : startsWith [':', '/', '/'] (c :: s) =
        (decide (c = ':') && startsWith ['/', '/'] f) := by
      rw [← startsWith_of_fields (by decide) hf]
      by_cases hcolon : c = ':'
      · simp [startsWith, after?, hcolon]
      · simp [startsWith, after?, hcolon, Ne.symm hcolon]
    rw [contains_cons, Bool.or_eq_true, ih, hstart, hc, hf]
    by_cases hcolon : c = ':' <;> simp [hcolon]

end BuildScript.Text
