import BuildScript.Proofs.Text.Argument
import BuildScript.Proofs.Text.Trailer
/-!
# What is read of an excerpt

A reader that takes a piece off the front of a text takes the same piece where nothing stands behind
it: whatever it looked at there, it did not take. This is kept by steps that follow one another and
by words and characters that may be left out, provided that what is read there is not read any
better with more behind it. A search in the text of what it has found then finds that again, from
end to end.

`Steady` is the law for one kind of text behind the piece, and it goes both ways; here the text is
any, and the law goes one way only.

Results:
* `Confined` and its closure under sequence, spans and optional parts.
* `Alone.searchIn_text`: a search finds again what it has found, in the text of it.
* `searchIn_eq_none_of_append`: what a search has not found it does not find in a part.
* `Alone.or_searchIn_text`: the same of two searches of which the second stands in for the first.
-/
namespace BuildScript.Text

/-! ## Confined steps -/

/-- A step that leaves `r` of `s` leaves an end of it, and does so whatever stands behind both: a
text that both end in may be cut off. -/
structure Confined (R : Text → Text → Prop) : Prop where
  suffix {s r : Text} : R s r → r <:+ s
  cut {s r t : Text} : R (s ++ t) (r ++ t) → R s r

section
variable {R R' A B : Text → Text → Prop}

theorem Confined.congr (h : Confined R) (heq : ∀ s r, R' s r ↔ R s r) : Confined R' := by
  have : R' = R := funext fun s => funext fun r => propext (heq s r)
  rwa [this]

theorem Confined.and {p : Prop} (h : p → Confined R) : Confined fun s r => p ∧ R s r where
  suffix hr := (h hr.1).suffix hr.2
  cut hr := ⟨hr.1, (h hr.1).cut hr.2⟩

theorem Confined.exists {ι : Type} {R : ι → Text → Text → Prop} (h : ∀ i, Confined (R i)) :
    Confined fun s r => ∃ i, R i s r where
  suffix := fun ⟨i, hr⟩ => (h i).suffix hr
  cut := fun ⟨i, hr⟩ => ⟨i, (h i).cut hr⟩

theorem Confined.comp (hA : Confined A) (hB : Confined B) :
    Confined fun s r => ∃ m, A s m ∧ B m r where
  suffix := fun ⟨_, ha, hb⟩ => (hB.suffix hb).trans (hA.suffix ha)
  cut := by
    rintro s r t ⟨m, ha, hb⟩
    -- what is left in the end is left in between as well
    obtain ⟨q, rfl⟩ := (List.suffix_append r t).trans (hB.suffix hb)
    exact ⟨q, hA.cut ha, hB.cut hb⟩

theorem Confined.skip {f : Text → Text} (hR : Confined R) (hf : Confined fun s r => f s = r) :
    Confined fun s r => R (f s) r :=
  (hf.comp hR).congr fun s _ => ⟨fun h => ⟨f s, rfl, h⟩, fun ⟨_, hm, h⟩ => hm ▸ h⟩

theorem confined_after (word : Text) : Confined fun s r => after? word s = some r where
  suffix := suffix_of_after?
  cut := by
    intro s _ t h
    rw [after?_eq_some_iff, ← List.append_assoc] at h
    exact after?_eq_some_iff.2 (List.append_cancel_right h)

theorem confined_dropWhile (p : Char → Bool) : Confined fun s r => s.dropWhile p = r where
  suffix := by
    rintro s _ rfl
    exact List.dropWhile_suffix p
  cut := by
    intro s r t h
    rw [List.dropWhile_append] at h
    split at h
    · next hs =>
      -- nothing is left of the front part, so nothing of what is behind it is left there
      have hlen := (List.dropWhile_suffix p (l := t)).length_le
      rw [h, List.length_append] at hlen
      rw [List.isEmpty_iff] at hs
      rw [hs, List.eq_nil_of_length_eq_zero (by omega : r.length = 0)]
    · exact List.append_cancel_right h

theorem confined_trimLeft : Confined fun s r => trimLeft s = r := confined_dropWhile isBlank

theorem Confined.span (hR : Confined R) (p : Char → Bool) (w : Text) :
    Confined fun s r => s.takeWhile p = w ∧ R (s.dropWhile p) r where
  suffix hr := (hR.suffix hr.2).trans (List.dropWhile_suffix p)
  cut := by
    rintro s r t ⟨rfl, hr⟩
    obtain ⟨q, hq⟩ := (List.suffix_append r t).trans (hR.suffix hr)
    have hs : s.dropWhile p = q := (confined_dropWhile p).cut hq.symm
    have hsplit := List.takeWhile_append_dropWhile (p := p) (l := s ++ t)
    rw [← hq, ← List.append_assoc, ← hs] at hsplit
    have hfront : s.takeWhile p ++ s.dropWhile p = s := List.takeWhile_append_dropWhile
    have htake := hfront.trans (List.append_cancel_right hsplit).symm
    refine ⟨List.append_cancel_right htake, ?_⟩
    rw [hs]
    exact hR.cut (hq ▸ hr)

theorem Confined.blank (hR : Confined R) :
    Confined fun s r => ∃ c u, s = c :: u ∧ isBlank c = true ∧ R (trimLeft u) r :=
  (Confined.exists fun w => Confined.and (p := w ≠ []) fun _ => hR.span isBlank w).congr
    fun _ r => exists_blank_iff (p := (R · r))

/-! ## Optional parts -/

/-- A reader that succeeds does so whatever stands behind. -/
def Lasting {α : Type} (read : Text → Option α) : Prop :=
  ∀ s t, (read s).isSome → (read (s ++ t)).isSome

theorem Lasting.none_of_append {α : Type} {read : Text → Option α} (h : Lasting read) {s t : Text}
    (hnone : read (s ++ t) = none) : read s = none := by
  refine Option.not_isSome_iff_eq_none.1 fun hs => ?_
  have := h s t hs
  rw [hnone] at this
  cases this

/-- What may be left out: `part` reads it, and where it is not there nothing is taken. -/
theorem Confined.optional {part : Text → Option Text} (hpart : Confined fun s r => part s = some r)
    (hlasting : Lasting part) : Confined fun s r => (part s).getD s = r where
  suffix := by
    intro s r h
    cases hs : part s with
    | none =>
      rw [hs, Option.getD_none] at h
      exact h ▸ List.suffix_refl s
    | some q =>
      rw [hs] at h
      exact hpart.suffix (hs.trans (congrArg some h))
  cut := by
    intro s r t h
    cases hst : part (s ++ t) with
    | some q =>
      rw [hst] at h
      rw [hpart.cut (hst.trans (congrArg some h)), Option.getD_some]
    | none =>
      rw [hst] at h
      rw [hlasting.none_of_append hst]
      exact List.append_cancel_right h

theorem Confined.orNothing {α : Type} {read : Text → Option (α × Text)} {p : α → Prop} {q : Prop}
    (hread : ∀ a, Confined fun s r => read s = some (a, r)) (hlasting : Lasting read) :
    Confined fun s r => (∃ a, read s = some (a, r) ∧ p a) ∨ (read s = none ∧ s = r ∧ q) where
  suffix := by
    rintro s r (⟨a, hr, -⟩ | ⟨-, rfl, -⟩)
    · exact (hread a).suffix hr
    · exact List.suffix_refl s
  cut := by
    rintro s r t (⟨a, hr, ha⟩ | ⟨hnone, hr, hq⟩)
    · exact Or.inl ⟨a, (hread a).cut hr, ha⟩
    · exact Or.inr ⟨hlasting.none_of_append hnone, List.append_cancel_right hr, hq⟩

theorem Confined.guard {α : Type} {read : Text → Option (α × Text)} (p : Bool) {a : α}
    (h : Confined fun s r => read s = some (a, r)) :
    Confined fun s r => (if p then read s else none) = some (a, r) := by
  cases p with
  | false =>
    refine ⟨fun hr => ?_, fun hr => ?_⟩
    · cases hr
    · cases hr
  | true => exact h

theorem Lasting.guard {α : Type} {read : Text → Option α} (p : Bool) (h : Lasting read) :
    Lasting fun s => if p then read s else none := by
  cases p with
  | false => exact fun _ _ hs => hs
  | true => exact h

theorem Confined.findSome {α ι : Type} {read : ι → Text → Option (α × Text)} {l : List ι}
    (hread : ∀ i a, Confined fun s r => read i s = some (a, r)) (hlasting : ∀ i, Lasting (read i))
    (a : α) : Confined fun s r => l.findSome? (fun i => read i s) = some (a, r) where
  suffix := by
    intro s r h
    obtain ⟨i, -, hr⟩ := List.exists_of_findSome?_eq_some h
    exact (hread i a).suffix hr
  cut := by
    intro s r t h
    obtain ⟨l₁, i, l₂, rfl, hr, hnone⟩ := List.findSome?_eq_some_iff.1 h
    exact List.findSome?_eq_some_iff.2 ⟨l₁, i, l₂, rfl, (hread i a).cut hr,
      fun j hj => (hlasting j).none_of_append (hnone j hj)⟩

theorem Lasting.findSome {α ι : Type} {read : ι → Text → Option α} (h : ∀ i, Lasting (read i))
    (l : List ι) : Lasting fun s => l.findSome? fun i => read i s := by
  intro s t hs
  rw [List.isSome_findSome?, List.any_eq_true] at hs ⊢
  obtain ⟨i, hi, hs⟩ := hs
  exact ⟨i, hi, h i s t hs⟩

theorem after?_append_right {word s r : Text} (h : after? word s = some r) (t : Text) :
    after? word (s ++ t) = some (r ++ t) := by
  rw [after?_eq_some_iff.1 h, List.append_assoc, after?_append]

theorem after?_trimLeft_append_right {word s r : Text} (hne : word ≠ [])
    (h : after? word (trimLeft s) = some r) (t : Text) :
    after? word (trimLeft (s ++ t)) = some (r ++ t) := by
  obtain ⟨c, word, rfl⟩ := List.exists_cons_of_ne_nil hne
  rw [trimLeft_append_of_cons (u := word ++ r) (after?_eq_some_iff.1 h), ← List.cons_append,
    ← List.cons_append, List.append_assoc, after?_append]

theorem lasting_after (word : Text) : Lasting (after? word) := by
  intro s t h
  obtain ⟨r, hr⟩ := Option.isSome_iff_exists.1 h
  exact Option.isSome_of_mem (after?_append_right hr t)

theorem lasting_after_trimLeft {word : Text} (hne : word ≠ []) :
    Lasting fun s => after? word (trimLeft s) := by
  intro s t h
  obtain ⟨r, hr⟩ := Option.isSome_iff_exists.1 h
  exact Option.isSome_of_mem (after?_trimLeft_append_right hne hr t)

theorem Lasting.map {α β : Type} {read : Text → Option α} (h : Lasting read) (f : α → β) :
    Lasting fun s => (read s).map f := by
  intro s t hs
  rw [Option.isSome_map] at hs ⊢
  exact h s t hs

end

/-! ## Pieces -/

theorem confined_readQuoted (mark : Char) (body : Text) :
    Confined fun s r => readQuoted? s = some (mark, body, r) := by
  refine (Confined.and fun _ => ?_).congr fun s r => readQuoted?_eq_some_iff
  exact (confined_after [mark]).comp ((confined_after [mark]).span (!isQuote ·) body)

theorem confined_optional_word (word : Text) :
    Confined fun s r => ((after? word s).map trimLeft).getD s = r := by
  refine Confined.optional ?_ ((lasting_after word).map trimLeft)
  exact ((confined_after word).comp confined_trimLeft).congr fun s r => Option.map_eq_some_iff

theorem confined_skipCallOpening : Confined fun s r => skipCallOpening s = r := by
  simp only [skipCallOpening_eq]
  exact (confined_optional_word ['(']).skip confined_trimLeft

theorem confined_skipCallClosing : Confined fun s r => skipCallClosing s = r := by
  simp only [skipCallClosing_eq]
  exact ((confined_after [')']).skip confined_trimLeft).optional
    (lasting_after_trimLeft (List.cons_ne_nil _ _))

theorem confined_readArgument (mark : Char) (body : Text) :
    Confined fun s r => readArgument? s = some (mark, body, r) :=
  (confined_readQuoted mark body).skip confined_skipCallOpening

theorem readArgument?_append_right {mark : Char} {body s r : Text}
    (h : readArgument? s = some (mark, body, r)) (t : Text) :
    readArgument? (s ++ t) = some (mark, body, r ++ t) := by
  obtain ⟨hmark, hbody, o, ho, rfl⟩ := readArgument?_eq_some_iff.1 h
  exact readArgument?_eq_some_iff.2 ⟨hmark, hbody, o, ho, by simp⟩

/-! ## Searches -/

/-- A reader that can be given the text it takes alone: it takes something, does not need what
stands around it, and succeeds at the front of a text if it does behind some character. -/
structure Alone {α : Type} (read : Option Char → Text → Option (α × Text)) : Prop where
  confined (before : Option Char) (a : α) : Confined fun s r => read before s = some (a, r)
  front {before : Option Char} {s : Text} {a : α × Text} :
    read before s = some a → read none s = some a
  takes {before : Option Char} {s r : Text} {a : α} :
    read before s = some (a, r) → r.length < s.length

theorem exists_around_text {α : Type} {found : Found α} {s : Text}
    (hle : found.start ≤ found.stop) (hstop : found.stop ≤ s.length) :
    ∃ u v, s = u ++ found.text s ++ v := by
  obtain ⟨u, m, v, hs, -, -, hm⟩ := exists_cut hle hstop
  exact ⟨u, v, by rw [Found.text, ← hm, ← hs]⟩

theorem text_whole {α : Type} (s : Text) (value : α) :
    (⟨0, s.length, value⟩ : Found α).text s = s := by
  rw [Found.text, List.take_length, List.drop_zero]

section
variable {α : Type} {read read' : Option Char → Text → Option (α × Text)} {s : Text}
variable {found : Found α}

theorem Alone.read_text (hread : Alone read) (h : searchIn read s = some found) :
    read none (found.text s) = some (found.value, []) := by
  obtain ⟨before, rest, htext⟩ :=
    exists_read_of_searchIn (fun before _ a _ => (hread.confined before a).suffix) h
  exact hread.front ((hread.confined before found.value).cut htext)

/-- A search finds again what it has found in the text of it, from end to end. -/
theorem Alone.searchIn_text (hread : Alone read) (h : searchIn read s = some found) :
    searchIn read (found.text s) = some ⟨0, (found.text s).length, found.value⟩ := by
  have htext := hread.read_text h
  generalize found.text s = m at htext
  cases m with
  | nil => exact absurd (hread.takes htext) (Nat.not_lt_zero _)
  | cons c m =>
    rw [searchIn, search, htext]
    simp

/-- A search comes to nothing just when the reader does at every place. -/
theorem search_eq_none_iff {before : Option Char} {offset : Nat} :
    search read before offset s = none ↔
      ∀ w c t, s = w ++ c :: t → read (w.getLast?.or before) (c :: t) = none := by
  constructor
  · rintro h w c t rfl
    induction w generalizing before offset with
    | nil =>
      rw [List.nil_append, search] at h
      split at h
      · cases h
      · next hnone => exact hnone
    | cons d w ih =>
      rw [List.cons_append, search] at h
      split at h
      · cases h
      · rw [getLast?_cons_or]
        exact ih h
  · intro h
    have hpast : search read before offset (s ++ []) = none := by
      refine search_append_of_none (fun w c t hs => ?_) offset
      rw [List.append_nil]
      exact h w c t hs
    rwa [List.append_nil] at hpast

/-- What a search has not found in a text it does not find in a part of it, unless it stands at the
front of the part. -/
theorem searchIn_eq_none_of_append {u m v : Text} (hread : ∀ before, Lasting (read before))
    (h : searchIn read (u ++ m ++ v) = none) (hm : read none m = none) :
    searchIn read m = none := by
  refine search_eq_none_iff.2 fun w c t hmt => ?_
  cases w with
  | nil =>
    rw [List.nil_append] at hmt
    rwa [← hmt]
  | cons d w =>
    have hplace := search_eq_none_iff.1 h (u ++ d :: w) c (t ++ v) (by simp [hmt])
    have hlast : (u ++ d :: w).getLast? = (d :: w).getLast? := by
      rw [List.getLast?_append, List.getLast?_cons]
      rfl
    rw [hlast] at hplace
    exact (hread _).none_of_append (s := c :: t) hplace

/-- Of two searches, the second made where the first comes to nothing, the one that has found
something finds it again in the text of it. At the front of a text the two readers must not both
succeed. -/
theorem Alone.or_searchIn_text (hread : Alone read) (hread' : Alone read')
    (hlasting : ∀ before, Lasting (read before))
    (hapart : ∀ {s : Text} {a : α × Text}, read' none s = some a → read none s = none)
    (h : (searchIn read s).or (searchIn read' s) = some found) :
    (searchIn read (found.text s)).or (searchIn read' (found.text s)) =
      some ⟨0, (found.text s).length, found.value⟩ := by
  rcases Option.or_eq_some_iff.1 h with h | ⟨hnone, h⟩
  · rw [hread.searchIn_text h]
    rfl
  · have hbounds := searchIn_bounds (fun _ _ _ _ => hread'.takes) h
    obtain ⟨u, v, hs⟩ := exists_around_text (Nat.le_of_lt hbounds.1) hbounds.2
    have hfirst : searchIn read (found.text s) = none :=
      searchIn_eq_none_of_append hlasting (u := u) (v := v) (hs ▸ hnone)
        (hapart (hread'.read_text h))
    rw [hfirst, hread'.searchIn_text h]
    rfl

end

end BuildScript.Text
