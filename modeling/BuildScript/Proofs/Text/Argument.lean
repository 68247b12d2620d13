import BuildScript.Proofs.Text.Search
/-!
# Quoted arguments in place

An argument is a quoted body with what a call may have around it: blanks and one opening parenthesis
in front, blanks and a closing parenthesis behind. Both readers take the longest such piece, so what
`skipCallOpening` and `readArgument?` take off a text can be put down again, and a text that is put
together from these pieces is read back as them, as long as what follows is no part of them.

Results:
* `readArgument?_eq_some_iff`: what is read as an argument, and what it is written as.
* `skipCallClosing_append`: what a closing parenthesis takes with it.
* `cut_quote`: the first mark of a text, and what stands in front of it.
-/
namespace BuildScript.Text

variable {s r : Text}

/-! ## Parentheses -/

/-- Blanks, or blanks and one opening parenthesis among them. -/
def IsOpening (s : Text) : Prop :=
  (∀ c ∈ s, isBlank c = true) ∨ ∃ b b', (∀ c ∈ b, isBlank c = true) ∧
    (∀ c ∈ b', isBlank c = true) ∧ s = b ++ '(' :: b'

/-- Nothing, or blanks and a closing parenthesis. -/
def IsClosing (s : Text) : Prop :=
  s = [] ∨ ∃ b, (∀ c ∈ b, isBlank c = true) ∧ s = b ++ [')']

theorem IsOpening.cases (h : IsOpening s) : ∀ c ∈ s, isBlank c = true ∨ c = '(' := by
  intro c hc
  rcases h with h | ⟨b, b', hb, hb', rfl⟩
  · exact Or.inl (h c hc)
  · simp only [List.mem_append, List.mem_cons] at hc
    rcases hc with hc | rfl | hc
    · exact Or.inl (hb c hc)
    · exact Or.inr rfl
    · exact Or.inl (hb' c hc)

theorem IsClosing.cases (h : IsClosing s) : ∀ c ∈ s, isBlank c = true ∨ c = ')' := by
  intro c hc
  rcases h with rfl | ⟨b, hb, rfl⟩
  · cases hc
  · rcases List.mem_append.1 hc with hc | hc
    · exact Or.inl (hb c hc)
    · exact Or.inr (List.mem_singleton.1 hc)

theorem IsOpening.not_isQuote (h : IsOpening s) : ∀ c ∈ s, isQuote c = false := by
  intro c hc
  rcases h.cases c hc with hblank | rfl
  · exact not_isQuote_of_isBlank hblank
  · rfl

theorem IsClosing.not_isQuote (h : IsClosing s) : ∀ c ∈ s, isQuote c = false := by
  intro c hc
  rcases h.cases c hc with hblank | rfl
  · exact not_isQuote_of_isBlank hblank
  · rfl

theorem IsOpening.skip (h : IsOpening s) {mark : Char} (hmark : isQuote mark = true) (r : Text) :
    skipCallOpening (s ++ mark :: r) = mark :: r := by
  have hblank := not_isBlank_of_isQuote hmark
  unfold skipCallOpening
  rcases h with h | ⟨b, b', hb, hb', rfl⟩
  · rw [trimLeft_append_of_blank h, trimLeft_cons_of_not_blank hblank]
    split
    · next e =>
      rw [(List.cons.inj e).1] at hmark
      cases hmark
    · rfl
  · rw [List.append_assoc, trimLeft_append_of_blank hb, List.cons_append,
      trimLeft_cons_of_not_blank (by decide)]
    show trimLeft (b' ++ mark :: r) = mark :: r
    rw [trimLeft_append_of_blank hb', trimLeft_cons_of_not_blank hblank]

theorem exists_opening (s : Text) : ∃ o, IsOpening o ∧ s = o ++ skipCallOpening s := by
  have hall (t : Text) : ∀ c ∈ t.takeWhile isBlank, isBlank c = true :=
    List.all_eq_true.1 List.all_takeWhile
  have hsplit (t : Text) : t = t.takeWhile isBlank ++ trimLeft t :=
    List.takeWhile_append_dropWhile.symm
  unfold skipCallOpening
  split
  · next r e =>
    refine ⟨s.takeWhile isBlank ++ '(' :: r.takeWhile isBlank,
      Or.inr ⟨_, _, hall s, hall r, rfl⟩, ?_⟩
    rw [List.append_assoc, List.cons_append, ← hsplit r, ← e, ← hsplit s]
  · exact ⟨s.takeWhile isBlank, Or.inl (hall s), hsplit s⟩

/-- A closing parenthesis is taken off with the blanks in front of it. Where there is none, nothing
is, provided that none follows. -/
theorem skipCallClosing_append (h : IsClosing s)
    (hr : ∀ t, trimLeft r ≠ ')' :: t) : skipCallClosing (s ++ r) = r := by
  rcases h with rfl | ⟨b, hb, rfl⟩
  · rw [List.nil_append, skipCallClosing]
    split
    · next t e => exact absurd e (hr t)
    · rfl
  · rw [List.append_assoc, skipCallClosing, trimLeft_append_of_blank hb, List.cons_append,
      trimLeft_cons_of_not_blank (by decide)]
    rfl

theorem exists_closing (s : Text) : ∃ t, IsClosing t ∧ s = t ++ skipCallClosing s := by
  unfold skipCallClosing
  split
  · next r e =>
    refine ⟨s.takeWhile isBlank ++ [')'],
      Or.inr ⟨_, List.all_eq_true.1 List.all_takeWhile, rfl⟩, ?_⟩
    rw [List.append_assoc, List.singleton_append, ← e]
    exact List.takeWhile_append_dropWhile.symm
  · exact ⟨[], Or.inl rfl, rfl⟩

/-! ## Marks -/

/-- The first mark of a text is where its unmarked front ends. -/
theorem cut_quote {u v s t : Text} {m n : Char} (hu : ∀ c ∈ u, isQuote c = false)
    (hv : ∀ c ∈ v, isQuote c = false) (hm : isQuote m = true) (hn : isQuote n = true)
    (h : u ++ m :: s = v ++ n :: t) : u = v ∧ m = n ∧ s = t := by
  have hplain {w : Text} (hw : ∀ c ∈ w, isQuote c = false) : ∀ c ∈ w, (!isQuote c) = true :=
    fun c hc => by rw [hw c hc]; rfl
  have hstop {c : Char} (hc : isQuote c = true) : (!isQuote c) = false := by rw [hc]; rfl
  have htake := congrArg (List.takeWhile (!isQuote ·)) h
  rw [takeWhile_of_all (hplain hu) (hstop hm), takeWhile_of_all (hplain hv) (hstop hn)] at htake
  subst htake
  have hrest := List.cons.inj (List.append_cancel_left h)
  exact ⟨rfl, hrest.1, hrest.2⟩

/-- What is read as an argument: an opening and a body between two equal marks. -/
theorem readArgument?_eq_some_iff {mark : Char} {body : Text} :
    readArgument? s = some (mark, body, r) ↔ isQuote mark = true ∧
      (∀ c ∈ body, isQuote c = false) ∧
      ∃ o, IsOpening o ∧ s = o ++ mark :: (body ++ mark :: r) := by
  constructor
  · intro h
    obtain ⟨o, ho, hs⟩ := exists_opening s
    obtain ⟨hmark, u, hu, hbody, hr⟩ := readQuoted?_eq_some_iff.1 h
    have hplain : ∀ c ∈ body, isQuote c = false := by
      intro c hc
      rw [← hbody] at hc
      simpa using List.all_eq_true.1 List.all_takeWhile c hc
    refine ⟨hmark, hplain, o, ho, ?_⟩
    have hsplit : u = body ++ mark :: r := by
      rw [← List.takeWhile_append_dropWhile (p := (!isQuote ·)) (l := u), hbody,
        eq_append_of_after? hr]
      rfl
    rw [hs, eq_append_of_after? hu, hsplit]
    rfl
  · rintro ⟨hmark, hbody, o, ho, rfl⟩
    rw [readArgument?, ho.skip hmark]
    exact readQuoted?_append hmark hbody r

/-! ## Arguments -/

/-- A quoted argument and what a call has around it. -/
structure Argument where
  opening : Text
  mark : Char
  body : Text
  closing : Text
  isOpening : IsOpening opening
  isQuote_mark : isQuote mark = true
  plain : ∀ c ∈ body, isQuote c = false
  isClosing : IsClosing closing

namespace Argument

def text (a : Argument) : Text := a.opening ++ a.mark :: (a.body ++ a.mark :: a.closing)

def withBody (a : Argument) (body : Text) (h : ∀ c ∈ body, isQuote c = false) : Argument :=
  { a with body, plain := h }

theorem readArgument?_text (a : Argument) (r : Text) :
    readArgument? (a.text ++ r) = some (a.mark, a.body, a.closing ++ r) :=
  readArgument?_eq_some_iff.2
    ⟨a.isQuote_mark, a.plain, a.opening, a.isOpening, by simp [text]⟩

theorem exists_of_readArgument? {mark : Char} {body : Text}
    (h : readArgument? s = some (mark, body, r)) : ∃ a : Argument, a.mark = mark ∧
      a.body = body ∧ s = a.text ++ skipCallClosing r := by
  obtain ⟨hmark, hbody, o, ho, rfl⟩ := readArgument?_eq_some_iff.1 h
  obtain ⟨t, ht, hr⟩ := exists_closing r
  refine ⟨⟨o, mark, body, t, ho, hmark, hbody, ht⟩, rfl, rfl, ?_⟩
  rw [hr]
  simp [text, ← hr]

end Argument

end BuildScript.Text
