import BuildScript.Proofs.Declaration.Trailer
import BuildScript.Proofs.Text.Argument
/-!
# The version of a plugin, found twice

A declaration by `id` with a version clause is read in pieces: the quoted name, blanks, the word
`version` and the quoted version. To set the version the place is looked for again, in the text of
the declaration: from the left, the first word `version` with a quoted argument behind it.

Nothing keeps that search out of the name. A name that ends in the word `version` is followed by
its own closing mark, and if the version is quoted by the same kind of mark, then what stands
between the two quoted texts is taken for the argument. In all other declarations the search comes
to the clause that was read.

Results:
* `Versioned.exists_of_readVersion?`, `Versioned.value_of_readDeclaration?`: what is read with a
  version clause is such a declaration, and how it reads.
* `Versioned.setVersion?_eq`, `Versioned.setVersion?_of_mistaken`: what setting a version gives.
* `Versioned.setVersion?_eq_iff`: the version alone is replaced just when no name is mistaken.
-/
namespace BuildScript.Plugin

open Text

/-- The word that a version clause begins with. -/
def clauseWord : Text := "version".toList

theorem clauseWord_not_isQuote : ∀ c ∈ clauseWord, isQuote c = false :=
  isQuote_eq_false_of_any rfl

theorem trimLeft_clauseWord (s : Text) : trimLeft (clauseWord ++ s) = clauseWord ++ s :=
  trimLeft_cons_of_not_blank (by decide) _

/-- A declaration by `id` with a version clause, in its pieces. -/
structure Versioned where
  name : Argument
  gap : Text
  version : Argument
  name_ne_nil : name.body ≠ []
  gap_ne_nil : gap ≠ []
  gap_blank : ∀ c ∈ gap, isBlank c = true

/-! ## The place of a version -/

section
variable {before : Option Char} {s r o body : Text} {mark : Char}

theorem readVersionPlace?_eq (hbefore : startsWord before = true) (s : Text) :
    readVersionPlace? before s = (after? clauseWord s).bind fun u =>
      (readArgument? u).bind fun a =>
        some ((s.length - a.2.2.length - 1 - a.2.1.length, a.2.1.length), a.2.2) := by
  rw [readVersionPlace?, hbefore]
  rfl

theorem readVersionPlace?_append (hbefore : startsWord before = true) (ho : IsOpening o)
    (hmark : isQuote mark = true) (hbody : ∀ c ∈ body, isQuote c = false) :
    readVersionPlace? before (clauseWord ++ (o ++ mark :: (body ++ mark :: r))) =
      some ((clauseWord.length + (o.length + 1), body.length), r) := by
  have hread : readArgument? (o ++ mark :: (body ++ mark :: r)) = some (mark, body, r) :=
    readArgument?_eq_some_iff.2 ⟨hmark, hbody, o, ho, rfl⟩
  have hdistance : (clauseWord ++ (o ++ mark :: (body ++ mark :: r))).length - r.length - 1 -
      body.length = clauseWord.length + (o.length + 1) := by
    simp only [List.length_append, List.length_cons]
    omega
  rw [← hdistance, readVersionPlace?_eq hbefore, after?_append, Option.bind_some, hread]
  rfl

theorem readVersionPlace?_spec {a : (Nat × Nat) × Text} (h : readVersionPlace? before s = some a) :
    startsWord before = true ∧ ∃ o mark body r, IsOpening o ∧ isQuote mark = true ∧
      (∀ c ∈ body, isQuote c = false) ∧ s = clauseWord ++ (o ++ mark :: (body ++ mark :: r)) := by
  cases hbefore : startsWord before with
  | false => simp [readVersionPlace?, hbefore] at h
  | true =>
    rw [readVersionPlace?_eq hbefore] at h
    obtain ⟨u, hu, h⟩ := Option.bind_eq_some_iff.1 h
    obtain ⟨⟨mark, body, r⟩, hread, -⟩ := Option.bind_eq_some_iff.1 h
    obtain ⟨hmark, hbody, o, ho, rfl⟩ := readArgument?_eq_some_iff.1 hread
    exact ⟨rfl, o, mark, body, r, ho, hmark, hbody, eq_append_of_after? hu⟩

theorem startsWith_of_readVersionPlace? (before : Option Char) (s : Text) (a : (Nat × Nat) × Text)
    (h : readVersionPlace? before s = some a) :
    ∃ word ∈ [clauseWord], startsWith word s = true := by
  obtain ⟨-, o, mark, body, r, -, -, -, rfl⟩ := readVersionPlace?_spec h
  exact ⟨clauseWord, List.mem_singleton_self _, startsWith_iff.2 ⟨_, rfl⟩⟩

/-- Where the first place of a version is found, the version there is replaced. -/
theorem setVersion?_of_search {u raw : Text} (value : Text)
    (hraw : raw = u ++ (clauseWord ++ (o ++ mark :: (body ++ mark :: r))))
    (hsearch : searchIn readVersionPlace? raw = search readVersionPlace? u.getLast? u.length
      (clauseWord ++ (o ++ mark :: (body ++ mark :: r))))
    (hbefore : startsWord u.getLast? = true) (ho : IsOpening o) (hmark : isQuote mark = true)
    (hbody : ∀ c ∈ body, isQuote c = false) :
    setVersion? raw value =
      some (u ++ (clauseWord ++ (o ++ mark :: (value ++ mark :: r)))) := by
  have hread := readVersionPlace?_append (r := r) hbefore ho hmark hbody
  have hfound : ∃ stop, searchIn readVersionPlace? raw =
      some ⟨u.length, stop, (clauseWord.length + (o.length + 1), body.length)⟩ := by
    rw [hsearch, show clauseWord = 'v' :: "ersion".toList from rfl, List.cons_append, search,
      ← List.cons_append, show 'v' :: "ersion".toList = clauseWord from rfl, hread]
    exact ⟨_, rfl⟩
  obtain ⟨stop, hfound⟩ := hfound
  have hlength : (u ++ clauseWord ++ o ++ [mark]).length =
      u.length + (clauseWord.length + (o.length + 1)) := by
    simp only [List.length_append, List.length_singleton]
    omega
  have hcut : raw = (u ++ clauseWord ++ o ++ [mark]) ++ body ++ mark :: r := by
    rw [hraw]
    simp
  have hmiddle := replace_middle (u ++ clauseWord ++ o ++ [mark]) body (mark :: r) value
  rw [← hcut, hlength] at hmiddle
  rw [setVersion?, hfound]
  show some (raw.take _ ++ value ++ raw.drop _) = _
  rw [hmiddle]
  simp

end

namespace Versioned

variable (d : Versioned)

/-- What stands in front of the name. -/
def front : Text := "id".toList ++ (d.name.opening ++ [d.name.mark])

/-- What stands between the name, with its closing mark, and the version clause. -/
def between : Text := d.name.closing ++ d.gap

/-- The version clause, and what follows the version in it. -/
def clause : Text := clauseWord ++ d.version.text

def text : Text := d.front ++ (d.name.body ++ d.name.mark :: (d.between ++ d.clause))

def withVersion (value : Text) (h : ∀ c ∈ value, isQuote c = false) : Versioned :=
  { d with version := d.version.withBody value h }

/-- A declaration whose name is taken for its version clause: the name ends in the word, perhaps
with blanks and an opening parenthesis behind it, and the two marks are the same. -/
def Mistaken : Prop :=
  d.name.mark = d.version.mark ∧ ∃ w o, d.name.body = w ++ (clauseWord ++ o) ∧
    startsWord w.getLast? = true ∧ IsOpening o

theorem text_withVersion_ne {value : Text} (h : ∀ c ∈ value, isQuote c = false)
    (hne : value ≠ d.version.body) : (d.withVersion value h).text ≠ d.text := by
  intro heq
  have hrest : value ++ d.version.mark :: d.version.closing =
      d.version.body ++ d.version.mark :: d.version.closing := by
    simpa [withVersion, Argument.withBody, text, front, between, clause, Argument.text] using heq
  exact hne (List.append_cancel_right hrest)

/-! ## How a declaration reads -/

theorem between_not_isQuote : ∀ c ∈ d.between, isQuote c = false := by
  intro c hc
  rcases List.mem_append.1 hc with hc | hc
  · exact d.name.isClosing.not_isQuote c hc
  · exact not_isQuote_of_isBlank (d.gap_blank c hc)

theorem between_version_not_isQuote :
    ∀ c ∈ d.between ++ (clauseWord ++ d.version.opening), isQuote c = false :=
  List.forall_mem_append.2 ⟨d.between_not_isQuote,
    List.forall_mem_append.2 ⟨clauseWord_not_isQuote, d.version.isOpening.not_isQuote⟩⟩

theorem readVersion?_gap (t : Text) : readVersion? (d.gap ++ d.clause ++ t) =
    some (d.version.body, skipCallClosing (d.version.closing ++ t)) := by
  obtain ⟨c, gap, hgap⟩ := List.exists_cons_of_ne_nil d.gap_ne_nil
  have hblank : ∀ x ∈ c :: gap, isBlank x = true := hgap ▸ d.gap_blank
  refine readVersion?_eq_some_iff.2 ⟨c, gap ++ d.clause ++ t, ?_, hblank c List.mem_cons_self,
    d.version.closing ++ t, ⟨d.version.text ++ t, ?_, d.version.mark, ?_⟩, rfl⟩
  · rw [hgap]
    rfl
  · rw [List.append_assoc,
      trimLeft_append_of_blank fun x hx => hblank x (List.mem_cons_of_mem c hx), clause,
      List.append_assoc, trimLeft_clauseWord]
    exact after?_append _ _
  · exact Argument.readArgument?_text _ _

theorem value_of_readDeclaration? {before : Option Char} {p : Plugin} {t r : Text}
    (h : readDeclaration? before (d.text ++ t) = some (p, r)) :
    p = ⟨d.name.body, d.version.body, true⟩ := by
  obtain ⟨a, u, hcall, hp⟩ := readDeclaration?_eq_some_iff.1 h
  obtain ⟨v, hid, hu⟩ := readIdCall?_eq_some_iff.1 hcall
  obtain ⟨-, w, hw, hname⟩ := readId?_eq_some_iff.1 hid
  have hw' : w = d.name.text ++ (d.gap ++ d.clause ++ t) := by
    rw [text, front, List.append_assoc, List.append_assoc, List.append_assoc, after?_append] at hw
    rw [← Option.some.inj hw]
    simp [Argument.text, between]
  rw [hw', Argument.readArgument?_text, Option.some.injEq, Prod.mk.injEq, Prod.mk.injEq] at hname
  obtain ⟨-, ha, hv⟩ := hname
  have hrest : u = d.gap ++ d.clause ++ t := by
    rw [← hu, ← hv]
    refine skipCallClosing_append d.name.isClosing fun x hx => ?_
    rw [List.append_assoc, trimLeft_append_of_blank d.gap_blank, clause, List.append_assoc,
      trimLeft_clauseWord] at hx
    cases hx
  have hversion := d.readVersion?_gap t
  rw [← hrest] at hversion
  rcases hp with ⟨version, hv, rfl⟩ | ⟨hnone, -⟩
  · rw [hversion] at hv
    rw [ha, (Prod.mk.inj (Option.some.inj hv)).1]
  · rw [hversion] at hnone
    cases hnone

theorem exists_of_readVersion? {before : Option Char} {s u r name version : Text} {mark : Char}
    (hcall : readIdCall? before s = some ((mark, name), u))
    (hversion : readVersion? u = some (version, r)) : ∃ d : Versioned, d.name.mark = mark ∧
      d.name.body = name ∧ d.version.body = version ∧ s = d.text ++ r := by
  obtain ⟨v, hid, rfl⟩ := readIdCall?_eq_some_iff.1 hcall
  obtain ⟨⟨-, hne⟩, w, hw, hname⟩ := readId?_eq_some_iff.1 hid
  obtain ⟨a, rfl, rfl, rfl⟩ := Argument.exists_of_readArgument? hname
  obtain ⟨c, x, hx, hc, q, ⟨y, hy, mark', hargument⟩, rfl⟩ := readVersion?_eq_some_iff.1 hversion
  obtain ⟨b, -, rfl, rfl⟩ := Argument.exists_of_readArgument? hargument
  obtain ⟨gap, hgap, hsplit⟩ : ∃ gap, (∀ z ∈ gap, isBlank z = true) ∧
      x = gap ++ (clauseWord ++ (b.text ++ skipCallClosing q)) := by
    refine ⟨x.takeWhile isBlank, List.all_eq_true.1 List.all_takeWhile, ?_⟩
    rw [show clauseWord = "version".toList from rfl, ← eq_append_of_after? hy]
    exact List.takeWhile_append_dropWhile.symm
  refine ⟨⟨a, c :: gap, b, hne, List.cons_ne_nil c gap, List.forall_mem_cons.2 ⟨hc, hgap⟩⟩,
    rfl, rfl, rfl, ?_⟩
  rw [eq_append_of_after? hw, hx, hsplit]
  simp [text, front, between, clause, Argument.text]

/-! ## Setting the version -/

/-- The word cannot begin in front of the name. -/
theorem not_mem_front : 'v' ∉ d.front := by
  have hblank : isBlank 'v' = false := by decide
  have hword : ('v' : Char) ∉ "id".toList := by decide
  intro h
  simp only [front, List.mem_append, List.mem_singleton] at h
  rcases h with h | h | h
  · exact hword h
  · rcases d.name.isOpening.cases 'v' h with h | h
    · rw [hblank] at h
      cases h
    · cases h
  · have hmark := d.name.isQuote_mark
    rw [← h] at hmark
    cases hmark

theorem not_mem_between : 'v' ∉ d.name.mark :: d.between := by
  have hblank : isBlank 'v' = false := by decide
  intro h
  simp only [between, List.mem_cons, List.mem_append] at h
  rcases h with h | h | h
  · have hmark := d.name.isQuote_mark
    rw [← h] at hmark
    cases hmark
  · rcases d.name.isClosing.cases 'v' h with h | h
    · rw [hblank] at h
      cases h
    · cases h
  · rw [d.gap_blank 'v' h] at hblank
    cases hblank

theorem getLast?_front : d.front.getLast? = some d.name.mark := by
  rw [front, ← List.append_assoc, List.getLast?_concat]

/-- The search for a version passes over what stands in front of the name. -/
theorem searchIn_text : searchIn readVersionPlace? d.text =
    search readVersionPlace? (some d.name.mark) d.front.length
      (d.name.body ++ d.name.mark :: (d.between ++ d.clause)) := by
  have hhead : ∀ word ∈ [clauseWord], word.head?.any (· ∉ d.front) = true :=
    List.forall_mem_singleton.2 (decide_eq_true d.not_mem_front)
  rw [searchIn, text, search_append_of_head [clauseWord] startsWith_of_readVersionPlace? hhead,
    d.getLast?_front, Option.some_or, Nat.zero_add]

/-- Where a version is read within the name, the name ends in the word and the marks are equal. -/
theorem of_readVersionPlace? {before : Option Char} {t : Text} (ht : t <:+ d.name.body)
    {a : (Nat × Nat) × Text}
    (h : readVersionPlace? before (t ++ d.name.mark :: (d.between ++ d.clause)) = some a) :
    startsWord before = true ∧ d.name.mark = d.version.mark ∧
      ∃ o, IsOpening o ∧ t = clauseWord ++ o := by
  obtain ⟨hbefore, o, mark, body, r, ho, hmark, hbody, h⟩ := readVersionPlace?_spec h
  have hopening : ∀ c ∈ clauseWord ++ o, isQuote c = false :=
    List.forall_mem_append.2 ⟨clauseWord_not_isQuote, ho.not_isQuote⟩
  rw [← List.append_assoc clauseWord] at h
  -- the first mark ends the name, the second one begins the version
  obtain ⟨rfl, rfl, hrest⟩ := cut_quote (fun c hc => d.name.plain c (ht.subset hc)) hopening
    d.name.isQuote_mark hmark h
  have hrest' : d.between ++ (clauseWord ++ d.version.opening) ++
      d.version.mark :: (d.version.body ++ d.version.mark :: d.version.closing) =
        body ++ d.name.mark :: r := by
    rw [← hrest]
    simp [clause, Argument.text]
  obtain ⟨-, hsame, -⟩ :=
    cut_quote d.between_version_not_isQuote hbody d.version.isQuote_mark hmark hrest'
  exact ⟨hbefore, hsame.symm, o, ho, rfl⟩

theorem startsWord_or_mark {mark : Char} {before : Option Char} (hmark : isQuote mark = true) :
    startsWord (before.or (some mark)) = startsWord before := by
  cases before with
  | some c => rfl
  | none => rcases isQuote_cases hmark with rfl | rfl <;> decide

theorem startsWord_of_isBlank {c : Char} (h : isBlank c = true) : startsWord (some c) = true := by
  cases hword : isWord c with
  | false => simp [startsWord, hword]
  | true =>
    rw [not_isBlank_of_isWord hword] at h
    cases h

theorem startsWord_getLast?_between (before : Option Char) :
    startsWord ((d.name.mark :: d.between).getLast?.or before) = true := by
  obtain ⟨gap, blank, hgap⟩ : ∃ gap blank, d.gap = gap ++ [blank] := by
    rcases List.eq_nil_or_concat d.gap with hnil | ⟨gap, blank, hgap⟩
    · exact absurd hnil d.gap_ne_nil
    · exact ⟨gap, blank, by rw [hgap, List.concat_eq_append]⟩
  rw [between, hgap, ← List.append_assoc, ← List.cons_append, List.getLast?_concat]
  exact startsWord_of_isBlank (d.gap_blank blank (by simp [hgap]))

/-- Setting the version of a declaration whose name is not mistaken replaces the version. -/
theorem setVersion?_eq (h : ¬ d.Mistaken) {value : Text} (hvalue : ∀ c ∈ value, isQuote c = false) :
    setVersion? d.text value = some (d.withVersion value hvalue).text := by
  have hname : ∀ w c v, d.name.body = w ++ c :: v →
      readVersionPlace? (w.getLast?.or (some d.name.mark))
        (c :: (v ++ d.name.mark :: (d.between ++ d.clause))) = none := by
    intro w c v hcut
    refine Option.eq_none_iff_forall_ne_some.2 fun a ha => ?_
    obtain ⟨hbefore, hsame, o, ho, hword⟩ := d.of_readVersionPlace? ⟨w, hcut.symm⟩ ha
    rw [startsWord_or_mark d.name.isQuote_mark] at hbefore
    exact h ⟨hsame, w, o, by rw [hcut, hword], hbefore, ho⟩
  have hhead : ∀ word ∈ [clauseWord], word.head?.any (· ∉ d.name.mark :: d.between) = true :=
    List.forall_mem_singleton.2 (decide_eq_true d.not_mem_between)
  have htext : d.text = (d.front ++ d.name.body ++ d.name.mark :: d.between) ++ (clauseWord ++
      (d.version.opening ++ d.version.mark :: (d.version.body ++
        d.version.mark :: d.version.closing))) := by
    simp [text, clause, Argument.text]
  have hlast : (d.front ++ d.name.body ++ d.name.mark :: d.between).getLast? =
      (d.name.mark :: d.between).getLast?.or (d.name.body.getLast?.or (some d.name.mark)) := by
    rw [List.getLast?_append, List.getLast?_append, d.getLast?_front]
  have hpassed : searchIn readVersionPlace? d.text = search readVersionPlace?
      (d.front ++ d.name.body ++ d.name.mark :: d.between).getLast?
      (d.front ++ d.name.body ++ d.name.mark :: d.between).length d.clause := by
    rw [d.searchIn_text, search_append_of_none hname, ← List.cons_append,
      search_append_of_head [clauseWord] startsWith_of_readVersionPlace? hhead, hlast]
    simp only [List.length_append, Nat.add_assoc]
  have hbefore :
      startsWord (d.front ++ d.name.body ++ d.name.mark :: d.between).getLast? = true := by
    rw [hlast]
    exact d.startsWord_getLast?_between _
  rw [setVersion?_of_search value htext hpassed hbefore d.version.isOpening
    d.version.isQuote_mark d.version.plain]
  simp [withVersion, Argument.withBody, text, front, between, clause, Argument.text]

theorem not_opening_of_word {c : Char} {v o o' : Text} (ho : IsOpening o')
    (h : c :: v ++ (clauseWord ++ o) = clauseWord ++ o') : False := by
  have hsplit : c :: v ++ (clauseWord ++ o) = (c :: v ++ "versio".toList) ++ 'n' :: o :=
    (List.append_assoc (c :: v) "versio".toList ('n' :: o)).symm
  have hdrop : o' = ((c :: v ++ "versio".toList) ++ 'n' :: o).drop clauseWord.length := by
    rw [← hsplit, h, List.drop_left]
  have hle : clauseWord.length ≤ (c :: v ++ "versio".toList).length := by
    rw [List.length_append, List.length_cons]
    show 7 ≤ v.length + 1 + 6
    omega
  have hmem : 'n' ∈ o' := by
    rw [hdrop, List.drop_append_of_le_length hle]
    exact List.mem_append_right _ List.mem_cons_self
  rcases ho.cases 'n' hmem with hblank | hparen
  · exact absurd hblank (by decide)
  · exact absurd hparen (by decide)

/-- A declaration whose name is mistaken, with a version set: the version stands in the place of
what was between the name and the old version, which it does not replace. -/
def misread (value : Text) : Text :=
  d.front ++ (d.name.body ++ d.name.mark ::
    (value ++ d.version.mark :: (d.version.body ++ d.version.mark :: d.version.closing)))

/-- Setting the version of a declaration whose name is mistaken leaves the version there. -/
theorem setVersion?_of_mistaken (h : d.Mistaken) (value : Text) :
    setVersion? d.text value = some (d.misread value) := by
  obtain ⟨hsame, w, o, hbody, hbefore, ho⟩ := h
  have hname : ∀ x c y, w = x ++ c :: y →
      readVersionPlace? (x.getLast?.or (some d.name.mark))
        (c :: (y ++ (clauseWord ++ o ++ d.name.mark :: (d.between ++ d.clause)))) = none := by
    intro x c y hcut
    refine Option.eq_none_iff_forall_ne_some.2 fun a ha => ?_
    have hsuffix : c :: y ++ (clauseWord ++ o) <:+ d.name.body := ⟨x, by rw [hbody, hcut]; simp⟩
    rw [← List.append_assoc, ← List.cons_append] at ha
    obtain ⟨-, -, o', ho', hword⟩ := d.of_readVersionPlace? hsuffix ha
    exact not_opening_of_word ho' hword
  have htext : d.text = (d.front ++ w) ++ (clauseWord ++ (o ++ d.name.mark ::
      (d.between ++ (clauseWord ++ d.version.opening) ++
        d.name.mark :: (d.version.body ++ d.version.mark :: d.version.closing)))) := by
    simp [text, clause, Argument.text, hbody, hsame]
  have hlast : (d.front ++ w).getLast? = w.getLast?.or (some d.name.mark) := by
    rw [List.getLast?_append, d.getLast?_front]
  have hpassed : searchIn readVersionPlace? d.text = search readVersionPlace?
      (d.front ++ w).getLast? (d.front ++ w).length
      (clauseWord ++ (o ++ d.name.mark :: (d.between ++ (clauseWord ++ d.version.opening) ++
        d.name.mark :: (d.version.body ++ d.version.mark :: d.version.closing)))) := by
    have hsearch := search_append_of_none hname d.front.length
    rw [d.searchIn_text, hbody, List.append_assoc w, hsearch, hlast, List.length_append]
    simp [clause, Argument.text, hsame]
  have hbefore' : startsWord (d.front ++ w).getLast? = true := by
    rw [hlast, startsWord_or_mark d.name.isQuote_mark]
    exact hbefore
  rw [setVersion?_of_search value htext hpassed hbefore' ho d.name.isQuote_mark
    d.between_version_not_isQuote]
  simp [misread, hbody, hsame]

/-- Another version set into a declaration takes the place of the one that was read just when the
name is not mistaken. -/
theorem setVersion?_eq_iff {value : Text} (hvalue : ∀ c ∈ value, isQuote c = false)
    (hne : value ≠ d.version.body) :
    setVersion? d.text value = some (d.withVersion value hvalue).text ↔ ¬ d.Mistaken := by
  refine ⟨fun h hmistaken => hne ?_, fun h => d.setVersion?_eq h hvalue⟩
  rw [d.setVersion?_of_mistaken hmistaken] at h
  have hrest : value ++ d.version.mark :: (d.version.body ++ d.version.mark :: d.version.closing) =
      d.between ++ (clauseWord ++ d.version.opening) ++
        d.version.mark :: (value ++ d.version.mark :: d.version.closing) := by
    simpa [misread, withVersion, Argument.withBody, text, front, between, clause,
      Argument.text] using h
  -- behind the first mark both texts have a version up to the next mark
  obtain ⟨-, -, hrest⟩ := cut_quote hvalue d.between_version_not_isQuote d.version.isQuote_mark
    d.version.isQuote_mark hrest
  exact (cut_quote d.version.plain hvalue d.version.isQuote_mark d.version.isQuote_mark
    hrest).1.symm

end Versioned

end BuildScript.Plugin
