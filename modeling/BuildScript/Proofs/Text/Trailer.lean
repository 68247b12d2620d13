import BuildScript.Proofs.Text.Search
import BuildScript.Proofs.Text.Comment
/-!
# Readers and what stands behind the code

Behind the code of a line stands a comment, or the carriage return of a line that ends in two
characters, or nothing. Such a trailer begins with a character that belongs to no word, no name and
no mark, but a reader that takes a quoted text may run into it, and so may one that takes blanks.

**Steps.** A step of reading is a relation between a text and what the step leaves of it. It is
`Steady` if it takes something that does not end in a blank, and takes the same with or without a
trailer. Words and marks are steady, and so is what is put together from steady steps, with blanks
or a name skipped in front of any of them.

**Readers.** A reader with an optional end is only `Settled`: in front of a trailer it may take more
than without one, but it takes the same if it stops short of the trailer, and it succeeds if it
does without the trailer. That is enough for a search, where it is called `Kept`.

Results:
* `Steady.comp`, `Steady.skip`, `Steady.span`: steady steps one behind the other.
* `Settled.kept`: a search with a settled reader is kept.
* `Kept.return_eq`: a kept search finds the same in front of a carriage return.
-/
namespace BuildScript.Text

/-- What may stand behind the code of a line: a comment, or the carriage return of a line that ends
in two characters. -/
def IsTrailer (t : Text) : Prop := t = ['\r'] ∨ ∃ r, t = '/' :: '/' :: r

section
variable {s t : Text}

theorem isTrailer_return : IsTrailer ['\r'] := Or.inl rfl

theorem IsTrailer.exists_cons (ht : IsTrailer t) : ∃ c r, t = c :: r ∧ (c = '\r' ∨ c = '/') := by
  rcases ht with rfl | ⟨r, rfl⟩
  · exact ⟨'\r', [], rfl, Or.inl rfl⟩
  · exact ⟨'/', '/' :: r, rfl, Or.inr rfl⟩

theorem IsTrailer.trimLeft_cases (ht : IsTrailer t) :
    trimLeft t = [] ∨ ∃ r, trimLeft t = '/' :: r := by
  rcases ht with rfl | ⟨r, rfl⟩
  · exact Or.inl rfl
  · exact Or.inr ⟨'/' :: r, rfl⟩

theorem trimLeft_append_of_nil (h : trimLeft s = []) (t : Text) :
    trimLeft (s ++ t) = trimLeft t := by
  unfold trimLeft at *
  rw [List.dropWhile_append, h]
  rfl

theorem trimLeft_append_of_cons {c : Char} {u : Text} (h : trimLeft s = c :: u) (t : Text) :
    trimLeft (s ++ t) = c :: (u ++ t) := by
  unfold trimLeft at *
  rw [List.dropWhile_append, h]
  rfl

theorem trimLeft_trimLeft_append (s t : Text) :
    trimLeft (trimLeft s ++ t) = trimLeft (s ++ t) := by
  cases hs : trimLeft s with
  | nil => rw [List.nil_append, trimLeft_append_of_nil hs]
  | cons c u =>
    have hfront := trimLeft_append_of_cons ((trimLeft_trimLeft s).trans hs) t
    rw [hs] at hfront
    rw [hfront, trimLeft_append_of_cons hs]

theorem IsTrailer.takeWhile_append {p : Char → Bool} (ht : IsTrailer t) (hreturn : p '\r' = false)
    (hslash : p '/' = false) (s : Text) : (s ++ t).takeWhile p = s.takeWhile p := by
  obtain ⟨c, r, rfl, rfl | rfl⟩ := ht.exists_cons
  · exact takeWhile_append_stop hreturn s r
  · exact takeWhile_append_stop hslash s r

theorem IsTrailer.dropWhile_append {p : Char → Bool} (ht : IsTrailer t) (hreturn : p '\r' = false)
    (hslash : p '/' = false) (s : Text) : (s ++ t).dropWhile p = s.dropWhile p ++ t := by
  obtain ⟨c, r, rfl, rfl | rfl⟩ := ht.exists_cons
  · exact dropWhile_append_stop hreturn s r
  · exact dropWhile_append_stop hslash s r

/-- A word that holds neither a carriage return nor a slash does not reach into a trailer. -/
theorem IsTrailer.after?_append (ht : IsTrailer t) (word : Text) (hreturn : '\r' ∉ word)
    (hslash : '/' ∉ word) (s : Text) :
    after? word (s ++ t) = (after? word s).map (· ++ t) := by
  obtain ⟨c, r, rfl, hc⟩ := ht.exists_cons
  have hword : c ∉ word := by rcases hc with rfl | rfl <;> assumption
  clear hreturn hslash ht hc
  induction word generalizing s with
  | nil => rfl
  | cons a word ih =>
    rw [List.mem_cons, not_or] at hword
    cases s with
    | nil => simp [after?, Ne.symm hword.1]
    | cons d s =>
      simp only [List.cons_append, after?]
      split
      · exact ih s hword.2
      · rfl

theorem IsTrailer.after?_trimLeft {word : Text} (ht : IsTrailer t) (hne : word ≠ [])
    (hreturn : '\r' ∉ word) (hslash : '/' ∉ word) (s : Text) :
    after? word (trimLeft (s ++ t)) = (after? word (trimLeft s)).map (· ++ t) := by
  cases hs : trimLeft s with
  | nil =>
    rw [trimLeft_append_of_nil hs]
    obtain ⟨a, word, rfl⟩ := List.exists_cons_of_ne_nil hne
    rcases ht.trimLeft_cases with h | ⟨r, h⟩
    · rw [h]
      rfl
    · have ha : a ≠ '/' := fun e => hslash (by rw [e]; exact List.mem_cons_self)
      rw [h]
      simp [after?, ha]
  | cons c u =>
    rw [trimLeft_append_of_cons hs]
    exact ht.after?_append word hreturn hslash (c :: u)

end

/-- What is left of a text with a trailer has the trailer at its end if it is long enough. -/
theorem exists_append_of_suffix {s t r : Text} (h : r <:+ s ++ t) (hlen : t.length ≤ r.length) :
    ∃ q, r = q ++ t := by
  obtain ⟨q, rfl⟩ := List.suffix_of_suffix_length_le ⟨s, rfl⟩ h hlen
  exact ⟨q, rfl⟩

/-! ## Lines and their trailers -/

section
variable {s t : Text}

/-- What stands behind the code of the line `s ++ t`: the carriage return of its ending, or its
comment. -/
def IsTrailerOf (s t : Text) : Prop :=
  t = ['\r'] ∨ '\n' ∉ s ++ t ∧ commentStart (s ++ t) = some s.length

theorem IsTrailerOf.isTrailer (h : IsTrailerOf s t) : IsTrailer t := by
  rcases h with h | ⟨-, h⟩
  · exact Or.inl h
  · exact Or.inr (exists_comment h)

theorem IsTrailerOf.of_append_plain {w : Text} (hw : ∀ c ∈ w, isQuote c = false ∧ c ≠ '/')
    (h : IsTrailerOf (w ++ s) t) : IsTrailerOf s t := by
  rcases h with h | ⟨hlf, h⟩
  · exact Or.inl h
  · rw [List.append_assoc, List.length_append] at h
    rw [List.append_assoc] at hlf
    exact Or.inr ⟨fun hmem => hlf (List.mem_append_right w hmem), commentStart_of_append_plain hw h⟩

theorem isTrailerOf_of_commentStart {line : Text} {i : Nat} (hlf : '\n' ∉ line)
    (h : commentStart line = some i) :
    ∃ code comment, line = code ++ comment ∧ code.length = i ∧ beforeComment line = code ∧
      IsTrailerOf code comment := by
  have hlt := commentStart_lt h
  have hlength : (line.take i).length = i := List.length_take_of_le (by omega)
  refine ⟨line.take i, line.drop i, (List.take_append_drop i line).symm, hlength, ?_, Or.inr ?_⟩
  · rw [beforeComment, h]
  · rw [List.take_append_drop, hlength]
    exact ⟨hlf, h⟩

end

/-! ## Steady steps -/

/-- A step that leaves `r` of `s` takes something that does not end in a blank, and takes the same
with or without a trailer. -/
structure Steady (R : Text → Text → Prop) : Prop where
  taken {s r : Text} : R s r → ∃ m c, s = m ++ c :: r ∧ isBlank c = false
  append {s r t : Text} : IsTrailer t → R s r → R (s ++ t) (r ++ t)
  cut {s r t : Text} : IsTrailer t → R (s ++ t) (r ++ t) → R s r

/-- A function that skips something in front, and nothing of a trailer if it stops in front of
it. -/
structure Skips (f : Text → Text) : Prop where
  suffix (s : Text) : f s <:+ s
  append {s t : Text} : IsTrailer t → f s ≠ [] → f (s ++ t) = f s ++ t
  empty {s t : Text} : IsTrailer t → f s = [] → (f (s ++ t)).length ≤ t.length

section
variable {R R' A B : Text → Text → Prop}

theorem Steady.length_lt (h : Steady R) {s r : Text} (hr : R s r) : r.length < s.length := by
  obtain ⟨m, c, rfl, -⟩ := h.taken hr
  simp only [List.length_append, List.length_cons]
  omega

theorem Steady.suffix (h : Steady R) {s r : Text} (hr : R s r) : r <:+ s := by
  obtain ⟨m, c, rfl, -⟩ := h.taken hr
  exact ⟨m ++ [c], by simp⟩

theorem Steady.congr (h : Steady R) (heq : ∀ s r, R' s r ↔ R s r) : Steady R' := by
  have : R' = R := funext fun s => funext fun r => propext (heq s r)
  rwa [this]

theorem Steady.and {p : Prop} (h : p → Steady R) : Steady fun s r => p ∧ R s r where
  taken hr := (h hr.1).taken hr.2
  append ht hr := ⟨hr.1, (h hr.1).append ht hr.2⟩
  cut ht hr := ⟨hr.1, (h hr.1).cut ht hr.2⟩

theorem Steady.or (hA : Steady A) (hB : Steady B) : Steady fun s r => A s r ∨ B s r where
  taken hr := hr.elim hA.taken hB.taken
  append ht hr := hr.imp (hA.append ht) (hB.append ht)
  cut ht hr := hr.imp (hA.cut ht) (hB.cut ht)

theorem Steady.exists {ι : Type} {R : ι → Text → Text → Prop} (h : ∀ i, Steady (R i)) :
    Steady fun s r => ∃ i, R i s r where
  taken := by
    rintro s r ⟨i, hr⟩
    exact (h i).taken hr
  append := by
    rintro s r t ht ⟨i, hr⟩
    exact ⟨i, (h i).append ht hr⟩
  cut := by
    rintro s r t ht ⟨i, hr⟩
    exact ⟨i, (h i).cut ht hr⟩

/-- One step behind another. -/
theorem Steady.comp (hA : Steady A) (hB : Steady B) : Steady fun s r => ∃ m, A s m ∧ B m r where
  taken := by
    rintro s r ⟨m, ha, hb⟩
    obtain ⟨u, c, rfl, -⟩ := hA.taken ha
    obtain ⟨v, d, rfl, hd⟩ := hB.taken hb
    exact ⟨u ++ c :: v, d, by simp, hd⟩
  append := by
    rintro s r t ht ⟨m, ha, hb⟩
    exact ⟨m ++ t, hA.append ht ha, hB.append ht hb⟩
  cut := by
    rintro s r t ht ⟨m, ha, hb⟩
    -- the second step has taken something in front of the trailer, so the first one stopped there
    obtain ⟨v, d, rfl, -⟩ := hB.taken hb
    have hm : v ++ d :: (r ++ t) = v ++ d :: r ++ t := by simp
    rw [hm] at ha hb
    exact ⟨v ++ d :: r, hA.cut ht ha, hB.cut ht hb⟩

/-- What is left in front of a trailer is left without it. -/
theorem Skips.eq_of_append {f : Text → Text} (hf : Skips f) {s t m : Text} (ht : IsTrailer t)
    (h : f (s ++ t) = m ++ t) (hm : m ≠ []) : f s = m := by
  by_cases hs : f s = []
  · have hlen := hf.empty ht hs
    have hpos := List.length_pos_iff.2 hm
    rw [h, List.length_append] at hlen
    omega
  · rw [hf.append ht hs] at h
    exact List.append_cancel_right h

/-- A step behind something that is skipped. -/
theorem Steady.skip {f : Text → Text} (hR : Steady R) (hf : Skips f) :
    Steady fun s r => R (f s) r where
  taken := by
    intro s r hr
    obtain ⟨m, c, hm, hc⟩ := hR.taken hr
    obtain ⟨u, hu⟩ := hf.suffix s
    exact ⟨u ++ m, c, by rw [← hu, hm, List.append_assoc], hc⟩
  append := by
    intro s r t ht hr
    obtain ⟨m, c, hm, -⟩ := hR.taken hr
    have hne : f s ≠ [] := by
      rw [hm]
      simp
    show R (f (s ++ t)) (r ++ t)
    rw [hf.append ht hne]
    exact hR.append ht hr
  cut := by
    intro s r t ht hr
    obtain ⟨m, c, hm, -⟩ := hR.taken hr
    have hsplit : f (s ++ t) = m ++ c :: r ++ t := by rw [hm]; simp
    show R (f s) r
    rw [hf.eq_of_append ht hsplit (by simp)]
    refine hR.cut ht ?_
    rwa [← hsplit]

theorem skips_dropWhile (p : Char → Bool) : Skips fun s => s.dropWhile p where
  suffix s := List.dropWhile_suffix p
  append := by
    intro s t _ hs
    rw [List.dropWhile_append, if_neg]
    rwa [List.isEmpty_iff]
  empty := by
    intro s t _ hs
    rw [List.dropWhile_append, hs]
    exact (List.dropWhile_suffix p).length_le

theorem skips_trimLeft : Skips trimLeft := skips_dropWhile isBlank

/-- A step behind characters of one kind that are kept as a value. -/
theorem Steady.span (hR : Steady R) (p : Char → Bool) (w : Text) :
    Steady fun s r => s.takeWhile p = w ∧ R (s.dropWhile p) r where
  taken hr := (hR.skip (skips_dropWhile p)).taken hr.2
  append := by
    rintro s r t ht ⟨hw, hr⟩
    refine ⟨?_, (hR.skip (skips_dropWhile p)).append ht hr⟩
    have hne : s.dropWhile p ≠ [] := by
      obtain ⟨m, c, hm, -⟩ := hR.taken hr
      rw [hm]
      simp
    rw [← hw, List.takeWhile_append, if_neg]
    intro hlen
    have hsum := congrArg List.length (List.takeWhile_append_dropWhile (p := p) (l := s))
    have hpos := List.length_pos_iff.2 hne
    rw [List.length_append] at hsum
    omega
  cut := by
    rintro s r t ht ⟨hw, hr⟩
    have hcut : R (s.dropWhile p) r := (hR.skip (skips_dropWhile p)).cut ht hr
    refine ⟨?_, hcut⟩
    have hpos := hR.length_lt hcut
    rw [← hw, List.takeWhile_append, if_neg]
    intro hlen
    have hsum := congrArg List.length (List.takeWhile_append_dropWhile (p := p) (l := s))
    rw [List.length_append] at hsum
    omega

theorem exists_blank_iff {p : Text → Prop} {s : Text} :
    (∃ c u, s = c :: u ∧ isBlank c = true ∧ p (trimLeft u)) ↔
      ∃ w, w ≠ [] ∧ s.takeWhile isBlank = w ∧ p (s.dropWhile isBlank) := by
  constructor
  · rintro ⟨c, u, rfl, hc, hr⟩
    refine ⟨_, ?_, rfl, ?_⟩
    · simp [hc]
    · rwa [List.dropWhile_cons_of_pos hc]
  · rintro ⟨w, hw, hs, hr⟩
    cases s with
    | nil => exact absurd hs.symm hw
    | cons c u =>
      have hc : isBlank c = true := by
        by_contra hc
        rw [List.takeWhile_cons_of_neg hc] at hs
        exact hw hs.symm
      rw [List.dropWhile_cons_of_pos hc] at hr
      exact ⟨c, u, rfl, hc, hr⟩

theorem Steady.blank (hR : Steady R) :
    Steady fun s r => ∃ c u, s = c :: u ∧ isBlank c = true ∧ R (trimLeft u) r :=
  (Steady.exists fun w => Steady.and (p := w ≠ []) fun _ => hR.span isBlank w).congr
    fun _ r => exists_blank_iff (p := (R · r))

theorem steady_after (word : Text) (hword : word.getLast?.any (!isBlank ·) = true) :
    Steady fun s r => after? word s = some r where
  taken := by
    intro s r hr
    rcases List.eq_nil_or_concat word with rfl | ⟨m, c, rfl⟩
    · cases hword
    · rw [eq_append_of_after? hr, List.concat_eq_append]
      refine ⟨m, c, by simp, ?_⟩
      simpa using hword
  append := by
    intro s r t _ hr
    rw [eq_append_of_after? hr, List.append_assoc]
    exact after?_append word (r ++ t)
  cut := by
    intro s r t _ hr
    have hs := eq_append_of_after? hr
    rw [← List.append_assoc] at hs
    rw [List.append_cancel_right hs]
    exact after?_append word r

end

/-! ## Pieces -/

section
variable {mark : Char} {body : Text}

theorem getLast?_any_of_isQuote (h : isQuote mark = true) :
    [mark].getLast?.any (!isBlank ·) = true := by
  simp [not_isBlank_of_isQuote h]

theorem steady_readQuoted (mark : Char) (body : Text) :
    Steady fun s r => readQuoted? s = some (mark, body, r) := by
  refine (Steady.and fun hmark => ?_).congr fun s r => readQuoted?_eq_some_iff
  have hword := steady_after _ (getLast?_any_of_isQuote hmark)
  exact hword.comp (hword.span (!isQuote ·) body)

/-- What may be left out, with something skipped behind it: `h` reads it and sees nothing of a
trailer, and `g` skips behind it. -/
theorem Skips.optional {h : Text → Option Text} {g : Text → Text} (hg : Skips g)
    (hsuffix : ∀ {s r}, h s = some r → r <:+ s)
    (happend : ∀ {t}, IsTrailer t → ∀ s, h (s ++ t) = (h s).map (· ++ t)) :
    Skips fun s => ((h s).map g).getD s where
  suffix s := by
    cases hs : h s with
    | none => exact List.suffix_refl s
    | some r => exact (hg.suffix r).trans (hsuffix hs)
  append := by
    intro s t ht hne
    cases hs : h s with
    | none => simp [happend ht, hs]
    | some r =>
      have hr : g r ≠ [] := by simpa [hs] using hne
      simpa [happend ht, hs] using hg.append ht hr
  empty := by
    intro s t ht hnil
    cases hs : h s with
    | none =>
      have hs' : s = [] := by simpa [hs] using hnil
      rw [happend ht, hs, hs']
      exact Nat.le_refl _
    | some r =>
      have hr : g r = [] := by simpa [hs] using hnil
      simpa [happend ht, hs] using hg.empty ht hr

theorem skips_id : Skips fun s => s where
  suffix := List.suffix_refl
  append _ _ := rfl
  empty := by
    rintro s t - rfl
    exact Nat.le_refl _

theorem Skips.comp {f g : Text → Text} (hg : Skips g) (hf : Skips f) : Skips fun s => g (f s) where
  suffix s := (hg.suffix (f s)).trans (hf.suffix s)
  append := by
    intro s t ht hne
    have hs : f s ≠ [] := by
      intro hs
      have hlen := (hg.suffix (f s)).length_le
      rw [hs, List.length_nil, Nat.le_zero, List.length_eq_zero_iff] at hlen
      exact hne (by rw [hs, hlen])
    rw [hf.append ht hs, hg.append ht hne]
  empty := by
    intro s t ht hnil
    by_cases hs : f s = []
    · exact Nat.le_trans (hg.suffix _).length_le (hf.empty ht hs)
    · rw [hf.append ht hs]
      exact hg.empty ht hnil

theorem skipCallOpening_eq (s : Text) :
    skipCallOpening s = ((after? ['('] (trimLeft s)).map trimLeft).getD (trimLeft s) := by
  unfold skipCallOpening
  split
  · next r e => rw [e]; rfl
  · next hne =>
    cases ha : after? ['('] (trimLeft s) with
    | none => rfl
    | some r => exact absurd (eq_append_of_after? ha) (hne r)

theorem skips_skipCallOpening : Skips skipCallOpening := by
  have hskip := (skips_trimLeft.optional suffix_of_after?
    fun ht => ht.after?_append ['('] (by decide) (by decide)).comp skips_trimLeft
  rw [funext skipCallOpening_eq]
  exact hskip

theorem steady_readArgument (mark : Char) (body : Text) :
    Steady fun s r => readArgument? s = some (mark, body, r) :=
  (steady_readQuoted mark body).skip skips_skipCallOpening

theorem skipCallClosing_eq (s : Text) :
    skipCallClosing s = (after? [')'] (trimLeft s)).getD s := by
  unfold skipCallClosing
  split
  · next r e => rw [e]; rfl
  · next hne =>
    cases ha : after? [')'] (trimLeft s) with
    | none => rfl
    | some r => exact absurd (eq_append_of_after? ha) (hne r)

theorem IsTrailer.skipCallClosing_append {t : Text} (ht : IsTrailer t) (s : Text) :
    skipCallClosing (s ++ t) = skipCallClosing s ++ t := by
  rw [skipCallClosing_eq, skipCallClosing_eq,
    ht.after?_trimLeft (List.cons_ne_nil _ _) (by decide) (by decide)]
  cases after? [')'] (trimLeft s) <;> rfl

theorem Steady.closing {R : Text → Text → Prop} (hR : Steady R) :
    Steady fun s r => ∃ u, R s u ∧ skipCallClosing u = r where
  taken := by
    rintro s r ⟨u, hu, rfl⟩
    obtain ⟨m, c, rfl, hc⟩ := hR.taken hu
    rw [skipCallClosing_eq]
    cases ha : after? [')'] (trimLeft u) with
    | none => exact ⟨m, c, rfl, hc⟩
    | some r =>
      have hu' : u.takeWhile isBlank ++ ')' :: r = u := by
        rw [← show trimLeft u = ')' :: r from eq_append_of_after? ha]
        exact List.takeWhile_append_dropWhile
      refine ⟨m ++ c :: u.takeWhile isBlank, ')', ?_, by decide⟩
      rw [Option.getD_some, List.append_assoc, List.cons_append, hu']
  append := by
    rintro s r t ht ⟨u, hu, rfl⟩
    exact ⟨u ++ t, hR.append ht hu, ht.skipCallClosing_append u⟩
  cut := by
    rintro s r t ht ⟨u, hu, hr⟩
    -- what the parenthesis leaves is an end of what the step leaves
    obtain ⟨w, rfl⟩ : t <:+ u := by
      have hsuffix : skipCallClosing u <:+ u := by
        rw [skipCallClosing_eq]
        cases ha : after? [')'] (trimLeft u) with
        | none => exact List.suffix_refl u
        | some r => exact (suffix_of_after? ha).trans (List.dropWhile_suffix isBlank)
      exact (List.suffix_append r t).trans (hr ▸ hsuffix)
    rw [ht.skipCallClosing_append] at hr
    exact ⟨w, hR.cut ht hu, List.append_cancel_right hr⟩

end

/-! ## Settled readers -/

/-- A reader that takes something that does not end in a blank, takes the same without a trailer if
it stops in front of it, and succeeds in front of a trailer if it does without one. -/
structure Settled {α : Type} (read : Text → Option (α × Text)) : Prop where
  taken {s r : Text} {a : α} : read s = some (a, r) → ∃ m c, s = m ++ c :: r ∧ isBlank c = false
  cut {s r t : Text} {a : α} : IsTrailer t → read (s ++ t) = some (a, r ++ t) → read s = some (a, r)
  grow {s t : Text} : IsTrailer t → (read s).isSome → (read (s ++ t)).isSome

theorem Settled.of_steady {α : Type} {read : Text → Option (α × Text)}
    (h : ∀ a, Steady fun s r => read s = some (a, r)) : Settled read where
  taken := fun {_ _ a} hr => (h a).taken hr
  cut := fun {_ _ _ a} ht hr => (h a).cut ht hr
  grow := by
    intro s t ht hs
    obtain ⟨⟨a, r⟩, hr⟩ := Option.isSome_iff_exists.1 hs
    rw [(h a).append ht hr]
    rfl

theorem Settled.none_of_append {α : Type} {read : Text → Option (α × Text)} (h : Settled read)
    {s t : Text} (ht : IsTrailer t) (hnone : read (s ++ t) = none) : read s = none := by
  refine Option.not_isSome_iff_eq_none.1 fun hs => ?_
  have := h.grow ht hs
  rw [hnone] at this
  cases this

theorem Settled.guard {α : Type} {read : Text → Option (α × Text)} (p : Bool) (h : Settled read) :
    Settled fun s => if p then read s else none := by
  cases p with
  | false =>
    refine ⟨fun hr => ?_, fun _ hr => ?_, fun _ hs => ?_⟩
    · cases hr
    · cases hr
    · cases hs
  | true => exact h

theorem Settled.findSome {α ι : Type} {read : ι → Text → Option (α × Text)} {l : List ι}
    (h : ∀ i ∈ l, Settled (read i)) : Settled fun s => l.findSome? fun i => read i s where
  taken := by
    intro s r a hr
    obtain ⟨i, hi, hr⟩ := List.exists_of_findSome?_eq_some hr
    exact (h i hi).taken hr
  cut := by
    intro s r t a ht hr
    obtain ⟨l₁, i, l₂, rfl, hr, hnone⟩ := List.findSome?_eq_some_iff.1 hr
    refine List.findSome?_eq_some_iff.2 ⟨l₁, i, l₂, rfl, (h i (by simp)).cut ht hr, fun j hj => ?_⟩
    exact (h j (List.mem_append_left _ hj)).none_of_append ht (hnone j hj)
  grow := by
    intro s t ht hs
    rw [List.isSome_findSome?, List.any_eq_true] at hs ⊢
    obtain ⟨i, hi, hs⟩ := hs
    exact ⟨i, hi, (h i hi).grow ht hs⟩

/-- A steady step with an optional part behind it, which may run into a trailer. -/
theorem Settled.optional {α β γ : Type} {read : Text → Option (γ × Text)}
    {A : α → Text → Text → Prop} {part : Text → Option (β × Text)} {f : α → β → γ} {g : α → γ}
    (hA : ∀ a, Steady (A a)) (hpart : ∀ b, Steady fun s r => part s = some (b, r))
    (hread : ∀ {s c r}, read s = some (c, r) ↔ ∃ a u, A a s u ∧
      ((∃ b, part u = some (b, r) ∧ c = f a b) ∨ (part u = none ∧ u = r ∧ c = g a))) :
    Settled read where
  taken := by
    intro s r c h
    obtain ⟨a, u, hu, ⟨b, hb, -⟩ | ⟨-, rfl, -⟩⟩ := hread.1 h
    · exact ((hA a).comp (hpart b)).taken ⟨u, hu, hb⟩
    · exact (hA a).taken hu
  cut := by
    intro s r t c ht h
    refine hread.2 ?_
    obtain ⟨a, u, hu, ⟨b, hb, rfl⟩ | ⟨hnone, rfl, rfl⟩⟩ := hread.1 h
    · obtain ⟨v, hv, hb⟩ := ((hA a).comp (hpart b)).cut ht ⟨u, hu, hb⟩
      exact ⟨a, v, hv, Or.inl ⟨b, hb, rfl⟩⟩
    · refine ⟨a, r, (hA a).cut ht hu, Or.inr ⟨?_, rfl, rfl⟩⟩
      -- a part read without the trailer would be read in front of it
      refine Option.eq_none_iff_forall_ne_some.2 fun b hb => ?_
      rw [(hpart b.1).append ht hb] at hnone
      cases hnone
  grow := by
    intro s t ht hs
    obtain ⟨⟨c, r⟩, hr⟩ := Option.isSome_iff_exists.1 hs
    obtain ⟨a, u, hu, -⟩ := hread.1 hr
    have hu := (hA a).append ht hu
    cases hp : part (u ++ t) with
    | none => exact Option.isSome_of_mem (hread.2 ⟨a, _, hu, Or.inr ⟨hp, rfl, rfl⟩⟩)
    | some b => exact Option.isSome_of_mem (hread.2 ⟨a, _, hu, Or.inl ⟨b.1, hp, rfl⟩⟩)

/-- A search that finds something that does not end in a blank, finds the same without a trailer if
that lies in front of it, and finds something in front of a trailer if it does without one. -/
structure Kept {α : Type} (find : Text → Option (Found α)) : Prop where
  taken {s : Text} {found : Found α} : find s = some found →
    ∃ u c v, s = u ++ c :: v ∧ isBlank c = false ∧ found.stop = (u ++ [c]).length
  cut {s t : Text} {found : Found α} : IsTrailer t → find (s ++ t) = some found →
    found.stop ≤ s.length → find s = some found
  grow {s t : Text} : IsTrailer t → (find s).isSome → (find (s ++ t)).isSome

section
variable {α : Type} {read : Option Char → Text → Option (α × Text)}

theorem Settled.length_lt {read : Text → Option (α × Text)} (h : Settled read) {s r : Text} {a : α}
    (hr : read s = some (a, r)) : r.length < s.length := by
  obtain ⟨m, c, rfl, -⟩ := h.taken hr
  simp only [List.length_append, List.length_cons]
  omega

theorem search_cut (h : ∀ b, Settled (read b)) {s t : Text} (ht : IsTrailer t)
    {before : Option Char} {offset : Nat} {found : Found α}
    (hfound : search read before offset (s ++ t) = some found)
    (hstop : found.stop ≤ offset + s.length) : search read before offset s = some found := by
  have hshort : ∀ b s a r, read b s = some (a, r) → r.length < s.length :=
    fun b _ _ _ hr => (h b).length_lt hr
  induction s generalizing before offset with
  | nil =>
    have hlt := search_start_lt_stop hshort hfound
    have hstart := (search_bounds hfound).1
    simp only [List.length_nil] at hstop
    omega
  | cons c s ih =>
    rw [List.cons_append, search] at hfound
    rw [search]
    split at hfound
    · next a rest hr =>
      -- the trailer is left over, so the reader takes the same without it
      obtain ⟨m, d, hm, -⟩ := (h before).taken hr
      cases hfound
      have hlen := hshort _ _ _ _ hr
      simp only [List.length_cons, List.length_append] at hlen hstop
      have hsuffix : rest <:+ c :: s ++ t := ⟨m ++ [d], by rw [List.cons_append, hm]; simp⟩
      obtain ⟨r, rfl⟩ := exists_append_of_suffix hsuffix (by omega)
      rw [(h before).cut (s := c :: s) ht hr]
      simp only [List.length_append, Option.some.injEq, Found.mk.injEq, and_true, true_and]
      omega
    · next hr =>
      rw [(h before).none_of_append (s := c :: s) ht hr]
      refine ih hfound ?_
      simp only [List.length_cons] at hstop
      omega

theorem search_grow (h : ∀ b, Settled (read b)) {s t : Text} (ht : IsTrailer t)
    {before : Option Char} {offset : Nat} (hs : (search read before offset s).isSome) :
    (search read before offset (s ++ t)).isSome := by
  induction s generalizing before offset with
  | nil => cases hs
  | cons c s ih =>
    rw [search] at hs
    rw [List.cons_append, search]
    split at hs
    · next a rest hr =>
      have hgrow := (h before).grow (s := c :: s) ht (by rw [hr]; rfl)
      obtain ⟨⟨a', rest'⟩, hr'⟩ := Option.isSome_iff_exists.1 hgrow
      rw [List.cons_append] at hr'
      rw [hr']
      rfl
    · split
      · rfl
      · exact ih hs

/-- A search with a settled reader is kept. -/
theorem Settled.kept (h : ∀ b, Settled (read b)) : Kept (searchIn read) where
  taken := by
    intro s found hfound
    obtain ⟨w, v, b, rest, rfl, hr, -, hstop⟩ := search_spec hfound
    obtain ⟨m, c, rfl, hc⟩ := (h b).taken hr
    refine ⟨w ++ m, c, rest, by simp, hc, ?_⟩
    simp only [hstop, List.length_append, List.length_cons, List.length_nil]
    omega
  cut ht hfound hstop := search_cut h ht hfound (by omega)
  grow ht hs := search_grow h ht hs

end

section
variable {α : Type} {find find' : Text → Option (Found α)}

theorem Kept.none_of_append (h : Kept find) {s t : Text} (ht : IsTrailer t)
    (hnone : find (s ++ t) = none) : find s = none := by
  refine Option.not_isSome_iff_eq_none.1 fun hs => ?_
  have := h.grow ht hs
  rw [hnone] at this
  cases this

theorem Kept.or (h : Kept find) (h' : Kept find') : Kept fun s => (find s).or (find' s) where
  taken hfound := by
    rcases Option.or_eq_some_iff.1 hfound with hf | ⟨-, hf⟩
    · exact h.taken hf
    · exact h'.taken hf
  cut ht hfound hstop := by
    rcases Option.or_eq_some_iff.1 hfound with hf | ⟨hnone, hf⟩
    · exact Option.or_eq_some_iff.2 (Or.inl (h.cut ht hf hstop))
    · exact Option.or_eq_some_iff.2 (Or.inr ⟨h.none_of_append ht hnone, h'.cut ht hf hstop⟩)
  grow ht hs := by
    rw [Option.isSome_or, Bool.or_eq_true] at hs ⊢
    exact hs.imp (h.grow ht) (h'.grow ht)

/-- A search that a condition on the text is put to which sees nothing of a trailer. -/
theorem Kept.filter (h : Kept find) {p : Text → Bool}
    (hp : ∀ {t}, IsTrailer t → ∀ s, p (s ++ t) = p s) :
    Kept fun s => if p s then find s else none where
  taken hfound := by
    split at hfound
    · exact h.taken hfound
    · cases hfound
  cut := by
    intro s t found ht hfound hstop
    rw [hp ht] at hfound
    split at hfound
    · next hs =>
      rw [if_pos hs]
      exact h.cut ht hfound hstop
    · cases hfound
  grow := by
    intro s t ht hs
    rw [hp ht]
    split at hs
    · next hs' =>
      rw [if_pos hs']
      exact h.grow ht hs
    · cases hs

/-- A search whose values are read off the text in front of the end of what is found. -/
theorem Kept.map {β : Type} (h : Kept find) {g : Text → Found α → β}
    (hg : ∀ {s t found}, IsTrailer t → found.stop ≤ s.length → g (s ++ t) found = g s found) :
    Kept fun s => (find s).map fun found => found.map fun _ => g s found where
  taken hfound := by
    obtain ⟨f, hf, rfl⟩ := Option.map_eq_some_iff.1 hfound
    exact h.taken hf
  cut ht hfound hstop := by
    obtain ⟨f, hf, rfl⟩ := Option.map_eq_some_iff.1 hfound
    refine Option.map_eq_some_iff.2 ⟨f, h.cut ht hf hstop, ?_⟩
    rw [hg ht hstop]
  grow ht hs := by
    rw [Option.isSome_map] at hs ⊢
    exact h.grow ht hs

/-- A kept search finds the same in front of a carriage return. -/
theorem Kept.return_eq (h : Kept find) (s : Text) : find (s ++ ['\r']) = find s := by
  cases hfound : find (s ++ ['\r']) with
  | none => exact (h.none_of_append isTrailer_return hfound).symm
  | some found =>
    obtain ⟨u, c, v, hs, hc, hstop⟩ := h.taken hfound
    have hle : found.stop ≤ s.length := by
      rcases List.eq_nil_or_concat v with rfl | ⟨w, d, rfl⟩
      · obtain ⟨-, hlast⟩ := List.append_inj' hs rfl
        rw [← (List.cons.inj hlast).1] at hc
        exact absurd hc (by decide)
      · have hlen := congrArg List.length hs
        simp only [List.concat_eq_append, List.length_append, List.length_cons,
          List.length_nil] at hlen hstop
        omega
    exact (h.cut isTrailer_return hfound hle).symm

end

end BuildScript.Text
