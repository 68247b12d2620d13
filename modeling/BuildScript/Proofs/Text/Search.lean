import BuildScript.Proofs.Text.Occurrence
import BuildScript.Proofs.Declaration.Bounds
/-!
# Searches that pass over text

A reader that begins with a word finds nothing where the word does not stand, and a reader that
takes a quoted argument finds nothing where two marks are missing. So a search passes over a front
part without the word, and comes to nothing in a rest without the word or without marks.

Results:
* `search_append_of_head`, `search_append_stop`: a search passes over a front part.
* `exists_read_of_searchIn`: what is found is what the reader took.
* `searchIn_of_read`: a search ends where the reader succeeds.
* `search_eq_none_of_contains`, `search_eq_none_of_quoted`: a search comes to nothing.
* `readQuoted?_append`: a quoted body is read.
-/
namespace BuildScript.Text

/-! ## Passing over -/

section
variable {α : Type} {read : Option Char → Text → Option (α × Text)}

theorem getLast?_cons_or (c : Char) (w : Text) (before : Option Char) :
    (c :: w).getLast?.or before = w.getLast?.or (some c) := by
  rw [List.getLast?_cons]
  cases w.getLast? <;> rfl

/-- A search passes over a front part if the reader fails at each of its places, each of them seen
with the character that stands in front of it. -/
theorem search_append_of_none {u s : Text} {before : Option Char}
    (h : ∀ w c v, u = w ++ c :: v → read (w.getLast?.or before) (c :: (v ++ s)) = none)
    (offset : Nat) : search read before offset (u ++ s) =
      search read (u.getLast?.or before) (offset + u.length) s := by
  induction u generalizing before offset with
  | nil => rfl
  | cons c u ih =>
    have hrest : ∀ w d v, u = w ++ d :: v →
        read (w.getLast?.or (some c)) (d :: (v ++ s)) = none := by
      intro w d v hu
      rw [← getLast?_cons_or c w before]
      exact h (c :: w) d v (by rw [hu]; rfl)
    rw [List.cons_append, search, show read before (c :: (u ++ s)) = none from h [] c u rfl]
    dsimp only
    rw [ih hrest, getLast?_cons_or, List.length_cons, Nat.add_assoc, Nat.add_comm 1]

/-- A search passes over a front part if the reader fails at each of its places, whatever stands in
front of them. -/
theorem search_append {u s : Text}
    (h : ∀ w c v, u = w ++ c :: v → ∀ b, read b (c :: (v ++ s)) = none)
    (before : Option Char) (offset : Nat) : search read before offset (u ++ s) =
      search read (u.getLast?.or before) (offset + u.length) s :=
  search_append_of_none (fun w c v hu => h w c v hu _) offset

theorem search_eq_none {s : Text} (h : ∀ t, t <:+ s → ∀ b, read b t = none)
    (before : Option Char) (offset : Nat) : search read before offset s = none := by
  induction s generalizing before offset with
  | nil => rfl
  | cons c s ih =>
    rw [search, h (c :: s) (List.suffix_refl _)]
    exact ih (fun t ht => h t (ht.trans (List.suffix_cons c s))) (some c) (offset + 1)

/-- What is found by a reader that leaves an end of the text is what the reader took. -/
theorem exists_read_of_searchIn (hread : ∀ before s a r, read before s = some (a, r) → r <:+ s)
    {s : Text} {found : Found α} (h : searchIn read s = some found) : ∃ before rest,
      read before (found.text s ++ rest) = some (found.value, rest) := by
  obtain ⟨w, t, before, rest, rfl, ht, hstart, hstop⟩ := search_spec h
  obtain ⟨m, rfl⟩ := hread _ _ _ _ ht
  refine ⟨before, rest, ?_⟩
  have hlength : found.stop = w.length + m.length := by
    rw [hstop, List.length_append]
    omega
  have hm : found.text (w ++ (m ++ rest)) = m := by
    rw [Found.text, hstart, hlength, Nat.zero_add, ← List.append_assoc]
    exact drop_take_append w m rest
  rwa [hm]

/-! ## Readers that begin with a word -/

section
variable (words : List Text)
  (hread : ∀ before s a, read before s = some a → ∃ word ∈ words, startsWith word s = true)
include hread

/-- A search passes over characters that no word begins with. -/
theorem search_append_of_head {u : Text} (hu : ∀ word ∈ words, word.head?.any (· ∉ u) = true)
    (before : Option Char) (offset : Nat) (s : Text) : search read before offset (u ++ s) =
      search read (u.getLast?.or before) (offset + u.length) s := by
  refine search_append (fun w d v hcut b => ?_) before offset
  refine Option.eq_none_iff_forall_ne_some.2 fun a ha => ?_
  obtain ⟨word, hword, hstarts⟩ := hread b _ a ha
  have hhead := hu word hword
  cases word with
  | nil => cases hhead
  | cons c word =>
    obtain ⟨r, hr⟩ := startsWith_iff.1 hstarts
    have hmem : c ∈ u := by
      rw [hcut, (List.cons.inj hr).1]
      exact List.mem_append_right w List.mem_cons_self
    exact of_decide_eq_true hhead hmem

/-- A search ends where the reader succeeds, if no word begins with a character in front. -/
theorem searchIn_of_read {u m v : Text} (hu : ∀ word ∈ words, word.head?.any (· ∉ u) = true)
    (hm : m ≠ []) {a : α} (h : read u.getLast? (m ++ v) = some (a, v)) :
    searchIn read (u ++ m ++ v) = some ⟨u.length, (u ++ m).length, a⟩ := by
  rw [searchIn, List.append_assoc, search_append_of_head words hread hu, Option.or_none,
    Nat.zero_add]
  cases m with
  | nil => exact absurd rfl hm
  | cons c m =>
    rw [List.cons_append] at h ⊢
    rw [search, h]
    simp only [List.length_append, List.length_cons, Option.some.injEq, Found.mk.injEq, and_true,
      true_and]
    omega

/-- A search passes over a part in which no word stands, up to a character that they lack. -/
theorem search_append_stop {c : Char} (hstop : ∀ word ∈ words, c ∉ word) {u : Text}
    (hu : ∀ word ∈ words, contains word u = false) (before : Option Char) (offset : Nat)
    (s : Text) :
    search read before offset (u ++ c :: s) =
      search read (u.getLast?.or before) (offset + u.length) (c :: s) := by
  refine search_append (fun w d v hcut b => ?_) before offset
  refine Option.eq_none_iff_forall_ne_some.2 fun a ha => ?_
  obtain ⟨word, hword, hstarts⟩ := hread b _ a ha
  rw [← List.cons_append, startsWith_append_stop (hstop word hword)] at hstarts
  obtain ⟨r, hr⟩ := startsWith_iff.1 hstarts
  have hoccurs : contains word u = true :=
    contains_iff.2 ⟨w, r, by rw [hcut, hr, List.append_assoc]⟩
  rw [hu word hword] at hoccurs
  cases hoccurs

/-- A search comes to nothing in a text in which no word stands. -/
theorem search_eq_none_of_contains {s : Text} (hs : ∀ word ∈ words, contains word s = false)
    (before : Option Char) (offset : Nat) : search read before offset s = none := by
  refine search_eq_none (fun t ht b => ?_) before offset
  refine Option.eq_none_iff_forall_ne_some.2 fun a ha => ?_
  obtain ⟨word, hword, hstarts⟩ := hread b t a ha
  obtain ⟨r, rfl⟩ := startsWith_iff.1 hstarts
  obtain ⟨w, rfl⟩ := ht
  have hoccurs : contains word (w ++ (word ++ r)) = true :=
    contains_iff.2 ⟨w, r, (List.append_assoc _ _ _).symm⟩
  rw [hs word hword] at hoccurs
  cases hoccurs

end

/-- A search for a word with a quoted argument comes to nothing in a text with one quoted body, if
no word stands in front of the body. -/
theorem search_eq_none_of_quoted (words : List Text) (hread : ∀ before s a,
      read before s = some a → ∃ word ∈ words, ∃ r, s = word ++ r ∧ 2 ≤ r.countP isQuote)
    {mark : Char} (hstop : ∀ word ∈ words, mark ∉ word) {u s : Text}
    (hu : ∀ word ∈ words, contains word u = false) (hs : s.countP isQuote ≤ 1)
    (before : Option Char) (offset : Nat) : search read before offset (u ++ mark :: s) = none := by
  have hstarts : ∀ before s a, read before s = some a →
      ∃ word ∈ words, startsWith word s = true := by
    intro b t a ha
    obtain ⟨word, hword, r, hr, -⟩ := hread b t a ha
    exact ⟨word, hword, startsWith_iff.2 ⟨r, hr⟩⟩
  rw [search_append_stop words hstarts hstop hu]
  refine search_eq_none (fun t ht b => ?_) _ _
  refine Option.eq_none_iff_forall_ne_some.2 fun a ha => ?_
  obtain ⟨word, hword, r, rfl, hquotes⟩ := hread b t a ha
  have hr : r <:+ s := by
    rcases List.suffix_cons_iff.1 ht with h | h
    · cases word with
      | nil =>
        have hoccurs : contains [] u = true := contains_iff.2 ⟨[], u, rfl⟩
        rw [hu [] hword] at hoccurs
        cases hoccurs
      | cons c word =>
        rw [(List.cons.inj h).1] at hword
        exact absurd List.mem_cons_self (hstop _ hword)
    · exact (List.suffix_append word r).trans h
  have hle : r.countP isQuote ≤ s.countP isQuote := hr.sublist.countP_le
  omega

end

/-! ## Quoted arguments -/

section
variable {mark : Char} {body s : Text}

theorem isQuote_eq_false_of_any (h : s.any isQuote = false) : ∀ c ∈ s, isQuote c = false :=
  fun c hc => Bool.eq_false_iff.2 (List.any_eq_false.1 h c hc)

/-- A body without marks is read between two marks. -/
theorem readQuoted?_append (hmark : isQuote mark = true) (hbody : ∀ c ∈ body, isQuote c = false)
    (rest : Text) : readQuoted? (mark :: (body ++ mark :: rest)) = some (mark, body, rest) := by
  have hplain : ∀ c ∈ body, (!isQuote c) = true := fun c hc => by rw [hbody c hc]; rfl
  have hstop : (!isQuote mark) = false := by rw [hmark]; rfl
  rw [readQuoted?, if_pos hmark, dropWhile_of_all hplain hstop, takeWhile_of_all hplain hstop]
  exact if_pos rfl

/-- A quoted body is read from one mark to the next mark, which is the same. -/
theorem readQuoted?_eq_some_iff {mark : Char} {body s r : Text} :
    readQuoted? s = some (mark, body, r) ↔
    isQuote mark = true ∧ ∃ u, after? [mark] s = some u ∧
      (u.takeWhile (!isQuote ·) = body ∧ after? [mark] (u.dropWhile (!isQuote ·)) = some r) := by
  simp only [after?_eq_some_iff, List.singleton_append]
  cases s with
  | nil => simp [readQuoted?]
  | cons c s =>
    rw [readQuoted?]
    constructor
    · intro h
      split at h
      · next hc =>
        split at h
        · cases h
        · next d rest e =>
          split at h
          · next hd =>
            cases h
            exact ⟨hc, s, rfl, rfl, by rw [e, hd]⟩
          · cases h
      · cases h
    · rintro ⟨hmark, u, hu, rfl, hrest⟩
      obtain ⟨rfl, rfl⟩ := List.cons.inj hu
      rw [if_pos hmark, hrest]
      simp

theorem two_le_countP_of_readQuoted? {a : Char × Text × Text} (h : readQuoted? s = some a) :
    2 ≤ s.countP isQuote := by
  cases s with
  | nil => cases h
  | cons c s =>
    rw [readQuoted?] at h
    split at h
    · next hc =>
      split at h
      · cases h
      · next d rest e =>
        have hd : isQuote d = true := by
          have := List.head?_dropWhile_not (!isQuote ·) s
          rw [e] at this
          simpa using this
        have hmem : d ∈ s := (List.dropWhile_suffix _).subset (by rw [e]; exact List.mem_cons_self)
        rw [List.countP_cons_of_pos hc]
        have := List.countP_pos_iff.2 ⟨d, hmem, hd⟩
        omega
    · cases h

theorem two_le_countP_of_readArgument? {a : Char × Text × Text} (h : readArgument? s = some a) :
    2 ≤ s.countP isQuote :=
  Nat.le_trans (two_le_countP_of_readQuoted? h)
    (skipCallOpening_suffix s).sublist.countP_le

end

end BuildScript.Text
