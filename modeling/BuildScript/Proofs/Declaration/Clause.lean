import BuildScript.Proofs.Declaration.Version
import BuildScript.Proofs.Text.Words
/-!
# Version clauses, added and counted

A plugin that is declared by `id` has a version clause in its text or it has none. In the first case
the version goes into the clause, in the second a clause is added behind the name, and a plugin that
is declared by `apply` is given no version at all. So there are three forms of a declaration, and
the form decides what setting the version comes to.

What else stands on the line has no say in this. A clause whose version is no string literal, or
that follows a method call, is not in the text of the declaration, and so another one is added in
front of it. Counted in the code of the line, the word `version` then stands there once more, while
a version that goes into a clause leaves the words of the code as they are.

Results:
* `form_of_readDeclaration?`, `form_of_readApplication?`: the forms of what is read as a plugin.
* `setVersion?_bare`: a bare declaration is given a clause.
* `codeWords_bare`, `codeWords_versioned`, `codeWords_misread`: the words of a line by the form of
  the declaration on it.
* `clauseCount_setVersion?_iff`: when the word stands there at most once with another version set.
-/
namespace BuildScript.Plugin

open Text

/-! ## Forms of a declaration -/

/-- A declaration by `id` without a version clause. -/
def bareText (a : Argument) : Text := "id".toList ++ a.text

theorem id_not_isQuote : ∀ c ∈ "id".toList, isQuote c = false := isQuote_eq_false_of_any rfl

theorem id_opening_not_isQuote (a : Argument) :
    ∀ c ∈ "id".toList ++ a.opening, isQuote c = false :=
  List.forall_mem_append.2 ⟨id_not_isQuote, a.isOpening.not_isQuote⟩

theorem space_ne_nil : [' '] ≠ [] := by decide

theorem isBlank_space : ∀ c ∈ [' '], isBlank c = true := List.all_eq_true.1 rfl

theorem isOpening_space : IsOpening [' '] := .inl isBlank_space

theorem isClosing_nil : IsClosing [] := .inl rfl

/-- What a declaration without a version clause becomes with one. -/
def Versioned.appended (a : Argument) (hname : a.body ≠ []) (value : Text)
    (h : ∀ c ∈ value, isQuote c = false) : Versioned where
  name := a
  gap := [' ']
  version := ⟨[' '], a.mark, value, [], isOpening_space, a.isQuote_mark, h, isClosing_nil⟩
  name_ne_nil := hname
  gap_ne_nil := space_ne_nil
  gap_blank := isBlank_space

/-- What the text of a plugin can be. -/
inductive Form : Text → Plugin → Prop
  | versioned (d : Versioned) : Form d.text ⟨d.name.body, d.version.body, true⟩
  | bare (a : Argument) (hname : a.body ≠ []) : Form (bareText a) ⟨a.body, [], true⟩
  | application {raw name : Text} (h : ∀ value, setVersion? raw value = none) :
    Form raw ⟨name, [], true⟩

section
variable {before : Option Char} {raw rest s r value : Text} {mark : Char} {p : Plugin}

theorem quoted_of_readVersionPlace? (before : Option Char) (s : Text) (a : (Nat × Nat) × Text)
    (h : readVersionPlace? before s = some a) :
    ∃ word ∈ [clauseWord], ∃ r, s = word ++ r ∧ 2 ≤ r.countP isQuote := by
  obtain ⟨-, o, mark, body, r, -, hmark, -, rfl⟩ := readVersionPlace?_spec h
  refine ⟨clauseWord, List.mem_singleton_self _, _, rfl, ?_⟩
  simp only [List.countP_append, List.countP_cons_of_pos hmark]
  omega

theorem quoted_of_readIdCall? (before : Option Char) (s : Text) (a : (Char × Text) × Text)
    (h : readIdCall? before s = some a) :
    ∃ word ∈ ["id".toList], ∃ r, s = word ++ r ∧ 2 ≤ r.countP isQuote := by
  obtain ⟨⟨mark, name⟩, r⟩ := a
  obtain ⟨u, hid, -⟩ := readIdCall?_eq_some_iff.1 h
  obtain ⟨-, v, hv, hname⟩ := readId?_eq_some_iff.1 hid
  exact ⟨_, List.mem_singleton_self _, v, eq_append_of_after? hv,
    two_le_countP_of_readArgument? hname⟩

theorem countP_isQuote_argument (a : Argument) :
    (a.body ++ a.mark :: a.closing).countP isQuote = 1 := by
  have hnone {t : Text} (h : ∀ c ∈ t, isQuote c = false) : t.countP isQuote = 0 :=
    List.countP_eq_zero.2 fun c hc => by rw [h c hc]; decide
  rw [List.countP_append, List.countP_cons_of_pos a.isQuote_mark, hnone a.plain,
    hnone a.isClosing.not_isQuote]

/-- A search for a word with an argument comes to nothing in a text with one quoted body, if a
character of the word is not found in front of the body. -/
theorem searchIn_eq_none_of_not_mem {α : Type} {read : Option Char → Text → Option (α × Text)}
    {word front back : Text} {c : Char}
    (hread : ∀ before s a, read before s = some a →
      ∃ w ∈ [word], ∃ r, s = w ++ r ∧ 2 ≤ r.countP isQuote)
    (hword : ∀ d ∈ word, isQuote d = false) (hc : c ∈ word) (hfront : c ∉ front)
    (hmark : isQuote mark = true) (hback : back.countP isQuote ≤ 1) :
    searchIn read (front ++ mark :: back) = none := by
  have hstop : mark ∉ word := fun h => by
    rw [hword mark h] at hmark
    cases hmark
  exact search_eq_none_of_quoted [word] hread (List.forall_mem_singleton.2 hstop)
    (List.forall_mem_singleton.2 (contains_eq_false_of_not_mem hc hfront)) hback none 0

theorem searchIn_readVersionPlace?_bare (a : Argument) :
    searchIn readVersionPlace? (bareText a) = none := by
  have hopening : 'v' ∉ "id".toList ++ a.opening := by
    intro h
    rcases List.mem_append.1 h with h | h
    · exact absurd h (by decide)
    · rcases a.isOpening.cases 'v' h with h | h
      · exact absurd h (by decide)
      · exact absurd h (by decide)
  rw [bareText, Argument.text, ← List.append_assoc]
  exact searchIn_eq_none_of_not_mem quoted_of_readVersionPlace? clauseWord_not_isQuote (by decide)
    hopening a.isQuote_mark (Nat.le_of_eq (countP_isQuote_argument a))

theorem searchIn_readIdCall?_bare (a : Argument) (hname : a.body ≠ []) :
    searchIn readIdCall? (bareText a) = some ⟨0, (bareText a).length, (a.mark, a.body)⟩ := by
  have hstarts : ∀ before s x, readIdCall? before s = some x →
      ∃ word ∈ ["id".toList], startsWith word s = true := by
    intro before s x hx
    obtain ⟨word, hword, r, hr, -⟩ := quoted_of_readIdCall? before s x hx
    exact ⟨word, hword, startsWith_iff.2 ⟨r, hr⟩⟩
  have hcall : readIdCall? none (bareText a ++ []) = some ((a.mark, a.body), []) := by
    have hclosing : skipCallClosing (a.closing ++ []) = [] :=
      skipCallClosing_append a.isClosing fun t ht => by cases ht
    refine readIdCall?_eq_some_iff.2 ⟨a.closing ++ [], readId?_eq_some_iff.2
      ⟨⟨rfl, hname⟩, a.text ++ [], ?_, a.readArgument?_text []⟩, hclosing⟩
    rw [bareText, List.append_assoc]
    exact after?_append _ _
  have hfound := searchIn_of_read ["id".toList] hstarts (u := []) (by decide)
    (List.cons_ne_nil 'i' ('d' :: a.text)) hcall
  rwa [List.append_nil] at hfound

/-- A declaration without a version clause is given one behind its name. -/
theorem setVersion?_bare (a : Argument) (hname : a.body ≠ [])
    (hvalue : ∀ c ∈ value, isQuote c = false) : setVersion? (bareText a) value =
      some (Versioned.appended a hname value hvalue).text := by
  have hword : " version ".toList = ' ' :: (clauseWord ++ [' ']) := rfl
  rw [setVersion?, searchIn_readVersionPlace?_bare, searchIn_readIdCall?_bare a hname]
  dsimp only
  rw [List.take_length, List.drop_length, hword]
  simp [Versioned.text, Versioned.front, Versioned.between, Versioned.clause, Versioned.appended,
    Argument.text, bareText]

/-- What is read by `id` is a declaration with a version clause or without one. -/
theorem form_of_readDeclaration? (h : readDeclaration? before (raw ++ rest) = some (p, rest)) :
    Form raw p := by
  obtain ⟨⟨mark, name⟩, u, hcall, ⟨version, hclause, rfl⟩ | ⟨-, rfl, rfl⟩⟩ :=
    readDeclaration?_eq_some_iff.1 h
  · obtain ⟨d, -, rfl, rfl, hd⟩ := Versioned.exists_of_readVersion? hcall hclause
    rw [List.append_cancel_right hd]
    exact .versioned d
  · obtain ⟨v, hid, hv⟩ := readIdCall?_eq_some_iff.1 hcall
    obtain ⟨⟨-, hne⟩, w, hw, hname⟩ := readId?_eq_some_iff.1 hid
    obtain ⟨a, rfl, rfl, rfl⟩ := Argument.exists_of_readArgument? hname
    have hraw : raw ++ u = bareText a ++ u := by
      rw [eq_append_of_after? hw, hv, bareText, List.append_assoc]
    rw [List.append_cancel_right hraw]
    exact .bare a hne

theorem eq_of_readQuoted? {body : Text} (h : readQuoted? s = some (mark, body, r)) :
    isQuote mark = true ∧ (∀ c ∈ body, isQuote c = false) ∧ s = mark :: (body ++ mark :: r) := by
  obtain ⟨hmark, u, hu, rfl, hr⟩ := readQuoted?_eq_some_iff.1 h
  refine ⟨hmark, fun c hc => ?_, ?_⟩
  · simpa using List.all_eq_true.1 List.all_takeWhile c hc
  · rw [eq_append_of_after? hu, ← List.singleton_append (x := mark) (l := r),
      ← eq_append_of_after? hr, List.takeWhile_append_dropWhile, List.singleton_append]

/-- A declaration by `apply` is given no version. -/
theorem form_of_readApplication? (h : readApplication? before (raw ++ rest) = some (p, rest)) :
    Form raw p := by
  obtain ⟨-, u, hu, c, v, rfl, hc, w, hw, x, hx, mark, name, ⟨-, rfl⟩, hname⟩ :=
    readApplication?_eq_some_iff.1 h
  obtain ⟨hmark, hplain, hquoted⟩ := eq_of_readQuoted? hname
  obtain ⟨b, hb, hv⟩ := exists_append_trimLeft v
  obtain ⟨b', hb', hw'⟩ := exists_append_trimLeft w
  obtain ⟨b'', hb'', hx'⟩ := exists_append_trimLeft x
  rw [eq_append_of_after? hw] at hv
  rw [eq_append_of_after? hx] at hw'
  rw [hquoted] at hx'
  have hraw : raw = ("apply".toList ++ c :: (b ++ ("plugin".toList ++ (b' ++ ':' :: b'')))) ++
      mark :: (name ++ [mark]) := by
    have hrest : raw ++ rest = ("apply".toList ++ c :: (b ++ ("plugin".toList ++
        (b' ++ ':' :: b'')))) ++ mark :: (name ++ [mark]) ++ rest := by
      rw [eq_append_of_after? hu, hv, hw', hx']
      simp
    exact List.append_cancel_right hrest
  -- neither word stands in front of the name
  have hfront {d : Char} (hd : isBlank d = false)
      (hwords : d ∉ "apply".toList ++ ("plugin".toList ++ [':'])) :
      d ∉ "apply".toList ++ c :: (b ++ ("plugin".toList ++ (b' ++ ':' :: b''))) := by
    have hnot {t : Text} (ht : ∀ x ∈ t, isBlank x = true) : d ∉ t := fun h => by
      rw [ht d h] at hd
      cases hd
    simp only [List.mem_append, List.mem_cons, List.not_mem_nil, or_false, not_or] at hwords ⊢
    have hne : d ≠ c := fun e => by
      rw [e, hc] at hd
      cases hd
    exact ⟨hwords.1, hne, hnot hb, hwords.2.1, hnot hb', hwords.2.2, hnot hb''⟩
  have hback : (name ++ [mark]).countP isQuote ≤ 1 := by
    have hnone : name.countP isQuote = 0 :=
      List.countP_eq_zero.2 fun d hd => by rw [hplain d hd]; decide
    rw [List.countP_append, hnone, Nat.zero_add]
    exact List.countP_le_length
  refine .application fun value => ?_
  rw [setVersion?, hraw, searchIn_eq_none_of_not_mem quoted_of_readVersionPlace?
    clauseWord_not_isQuote (c := 'v') (by decide) (hfront (by decide) (by decide)) hmark hback,
    searchIn_eq_none_of_not_mem quoted_of_readIdCall? id_not_isQuote (c := 'd') (by decide)
    (hfront (by decide) (by decide)) hmark hback]

end

/-! ## Words on the line of a declaration -/

/-- How often the word of a version clause stands in the code of a line. -/
def clauseCount (line : Text) : Nat := (codeWords line).count clauseWord

/-- Nothing that stands behind the beginning of a comment is counted. -/
theorem clauseCount_append_of_isSome {s : Text} (h : (commentStart s).isSome = true) (t : Text) :
    clauseCount (s ++ t) = clauseCount s :=
  congrArg (fun code => (words code).count clauseWord) (spacedCode_append_of_isSome h t)

/-- The words of a line up to the name of a plugin, if the line starts with `front`. -/
def wordsUpTo (front : Text) (a : Argument) : List Text :=
  words (spacedCode front ++ ("id".toList ++ a.opening))

section
variable {front value t o : Text} {c : Char}

theorem plain_of_frame (h : isBlank c = true ∨ c = '(' ∨ c = ')') :
    isWord c = false ∧ isQuote c = false ∧ c ≠ '/' := by
  rcases h with h | rfl | rfl
  · refine ⟨Bool.eq_false_iff.2 fun hword => ?_, plain_of_isBlank h⟩
    rw [not_isBlank_of_isWord hword] at h
    cases h
  · decide
  · decide

theorem plain_of_isOpening (h : IsOpening o) :
    ∀ c ∈ o, isWord c = false ∧ isQuote c = false ∧ c ≠ '/' :=
  fun c hc => plain_of_frame ((h.cases c hc).imp_right .inl)

theorem plain_of_isClosing (h : IsClosing o) :
    ∀ c ∈ o, isWord c = false ∧ isQuote c = false ∧ c ≠ '/' :=
  fun c hc => plain_of_frame ((h.cases c hc).imp_right .inr)

theorem plain_append_isOpening {word : Text} (hword : ∀ c ∈ word, isQuote c = false)
    (hslash : '/' ∉ word) (h : IsOpening o) : ∀ c ∈ word ++ o, isQuote c = false ∧ c ≠ '/' :=
  List.forall_mem_append.2 ⟨fun c hc => ⟨hword c hc, ne_of_mem_of_not_mem hc hslash⟩,
    fun c hc => (plain_of_isOpening h c hc).2⟩

theorem isLiteral_argument (a : Argument) (h : '\\' ∉ a.body) :
    isLiteral (a.mark :: a.body ++ [a.mark]) = true := by
  refine isLiteral_of_body a.isQuote_mark fun c hc => ⟨?_, ?_⟩
  · rintro rfl
    have hplain := a.plain _ hc
    rw [a.isQuote_mark] at hplain
    cases hplain
  · rintro rfl
    exact h hc

theorem codeWords_append_breaks
    (ho : ∀ c ∈ o, isWord c = false ∧ isQuote c = false ∧ c ≠ '/') (t : Text) :
    codeWords (o ++ t) = codeWords t := by
  rw [codeWords, spacedCode_append_plain fun c hc => (ho c hc).2,
    words_append_breaks fun c hc => (ho c hc).1]
  rfl

/-- The words of a line that goes on behind the name of a plugin. -/
theorem codeWords_name (hfront : EndsInCode front) (hlf : '\n' ∉ front) (a : Argument)
    (ha : '\\' ∉ a.body) (t : Text) :
    codeWords (front ++ ("id".toList ++ (a.opening ++ a.mark :: (a.body ++ a.mark :: t)))) =
      wordsUpTo front a ++ codeWords t := by
  have hid : ∀ c ∈ "id".toList ++ a.opening, isQuote c = false ∧ c ≠ '/' :=
    plain_append_isOpening id_not_isQuote (by decide) a.isOpening
  have hcut : "id".toList ++ (a.opening ++ a.mark :: (a.body ++ a.mark :: t)) =
      ("id".toList ++ a.opening) ++ ((a.mark :: a.body ++ [a.mark]) ++ t) := by simp
  rw [codeWords, hfront.spacedCode_append hlf, hcut, spacedCode_append_plain hid,
    spacedCode_append_of_isLiteral (isLiteral_argument a ha), ← List.append_assoc,
    words_append_break (by decide)]
  rfl

theorem codeWords_clause (b : Argument) (hb : '\\' ∉ b.body) (t : Text) :
    codeWords (clauseWord ++ (b.text ++ t)) = clauseWord :: codeWords t := by
  have hword : ∀ c ∈ clauseWord ++ b.opening, isQuote c = false ∧ c ≠ '/' :=
    plain_append_isOpening clauseWord_not_isQuote (by decide) b.isOpening
  have hcut : clauseWord ++ (b.text ++ t) = (clauseWord ++ b.opening) ++
      ((b.mark :: b.body ++ [b.mark]) ++ (b.closing ++ t)) := by simp [Argument.text]
  rw [codeWords, hcut, spacedCode_append_plain hword,
    spacedCode_append_of_isLiteral (isLiteral_argument b hb), words_append_break (by decide),
    words_append_of_breaks fun c hc => (plain_of_isOpening b.isOpening c hc).1]
  exact congrArg (clauseWord :: ·) (codeWords_append_breaks (plain_of_isClosing b.isClosing) t)

theorem codeWords_bare (hfront : EndsInCode front) (hlf : '\n' ∉ front) (a : Argument)
    (ha : '\\' ∉ a.body) (t : Text) :
    codeWords (front ++ bareText a ++ t) = wordsUpTo front a ++ codeWords t := by
  have hcut : front ++ bareText a ++ t = front ++ ("id".toList ++ (a.opening ++
      a.mark :: (a.body ++ a.mark :: (a.closing ++ t)))) := by simp [bareText, Argument.text]
  rw [hcut, codeWords_name hfront hlf a ha,
    codeWords_append_breaks (plain_of_isClosing a.isClosing)]

theorem codeWords_versioned (hfront : EndsInCode front) (hlf : '\n' ∉ front) (d : Versioned)
    (hname : '\\' ∉ d.name.body) (hversion : '\\' ∉ d.version.body) (t : Text) :
    codeWords (front ++ d.text ++ t) = wordsUpTo front d.name ++ clauseWord :: codeWords t := by
  have hcut : front ++ d.text ++ t =
      front ++ bareText d.name ++ (d.gap ++ (clauseWord ++ (d.version.text ++ t))) := by
    simp [Versioned.text, Versioned.front, Versioned.between, Versioned.clause, bareText,
      Argument.text]
  have hgap : ∀ c ∈ d.gap, isWord c = false ∧ isQuote c = false ∧ c ≠ '/' :=
    fun c hc => plain_of_frame (.inl (d.gap_blank c hc))
  rw [hcut, codeWords_bare hfront hlf d.name hname, codeWords_append_breaks hgap,
    codeWords_clause d.version hversion]

/-- Where the name is mistaken for the clause, the new version is code of the line. -/
theorem codeWords_misread (hfront : EndsInCode front) (hlf : '\n' ∉ front) (d : Versioned)
    (hname : '\\' ∉ d.name.body) (hversion : '\\' ∉ d.version.body)
    (hvalue : ∀ c ∈ value, isQuote c = false) (t : Text) :
    codeWords (front ++ d.misread value ++ t) = wordsUpTo front d.name ++
      (codeWords value ++ if (commentStart value).isSome then [] else codeWords t) := by
  have hcut : front ++ d.misread value ++ t = front ++ ("id".toList ++ (d.name.opening ++
      d.name.mark :: (d.name.body ++ d.name.mark :: (value ++
        d.version.mark :: (d.version.body ++ [d.version.mark] ++ (d.version.closing ++ t)))))) := by
    simp [Versioned.misread, Versioned.front]
  rw [hcut, codeWords_name hfront hlf d.name hname]
  congr 1
  rw [codeWords, spacedCode_append_unquoted hvalue d.version.isQuote_mark]
  split
  · rw [List.append_nil, List.append_nil]
    rfl
  · rw [← List.cons_append, ← List.cons_append,
      spacedCode_append_of_isLiteral (isLiteral_argument d.version hversion),
      words_append_break (by decide)]
    exact congrArg (codeWords value ++ ·)
      (codeWords_append_breaks (plain_of_isClosing d.version.isClosing) t)

/-! ## Counts before and after -/

/-- A text is mistaken or not, whichever way it is put together. -/
theorem Versioned.mistaken_congr {d d' : Versioned} (h : d.text = d'.text) :
    d.Mistaken ↔ d'.Mistaken := by
  have hcut (x : Versioned) : x.text = ("id".toList ++ x.name.opening) ++ x.name.mark ::
      (x.name.body ++ x.name.mark :: ((x.between ++ (clauseWord ++ x.version.opening)) ++
        x.version.mark :: (x.version.body ++ x.version.mark :: x.version.closing))) := by
    simp [text, front, clause, Argument.text]
  rw [hcut d, hcut d'] at h
  obtain ⟨-, hmark, h⟩ := cut_quote (id_opening_not_isQuote d.name)
    (id_opening_not_isQuote d'.name) d.name.isQuote_mark d'.name.isQuote_mark h
  obtain ⟨hname, -, h⟩ :=
    cut_quote d.name.plain d'.name.plain d.name.isQuote_mark d'.name.isQuote_mark h
  obtain ⟨-, hversion, -⟩ := cut_quote d.between_version_not_isQuote d'.between_version_not_isQuote
    d.version.isQuote_mark d'.version.isQuote_mark h
  rw [Mistaken, Mistaken, hmark, hname, hversion]

theorem bareText_ne_text (a : Argument) (d : Versioned) : bareText a ≠ d.text := by
  intro h
  have hbare : (bareText a).countP isQuote = 2 := by
    rw [bareText, Argument.text, ← List.append_assoc, List.countP_append,
      List.countP_eq_zero.2 fun c hc => by rw [id_opening_not_isQuote a c hc]; decide,
      List.countP_cons_of_pos a.isQuote_mark, countP_isQuote_argument]
  have htext : 3 ≤ d.text.countP isQuote := by
    simp only [Versioned.text, Versioned.front, Versioned.clause, Argument.text,
      List.countP_append, List.countP_cons_of_pos d.name.isQuote_mark,
      List.countP_cons_of_pos d.version.isQuote_mark]
    omega
  rw [h] at hbare
  omega

/-- Where the word stands in the code of a line at most once, it does so with another version set
just when the word did not stand there at all or the declaration has a clause of its own, and is not
mistaken for one with the word in the version. -/
theorem clauseCount_setVersion?_iff {raw new back : Text} {p : Plugin} (hform : Form raw p)
    (hset : setVersion? raw value = some new) (hfront : EndsInCode front) (hlf : '\n' ∉ front)
    (hvalue : ∀ c ∈ value, isQuote c = false) (hplain : ∀ t ∈ [p.id, p.version, value], '\\' ∉ t)
    (honce : clauseCount (front ++ raw ++ back) ≤ 1) :
    clauseCount (front ++ new ++ back) ≤ 1 ↔ clauseCount (front ++ raw ++ back) = 0 ∨
      ∃ d : Versioned, raw = d.text ∧ (d.Mistaken → clauseCount value ≤ 1) := by
  simp only [List.forall_mem_cons, List.not_mem_nil, false_implies, implies_true, and_true]
    at hplain
  obtain ⟨hname, hversion, hplain⟩ := hplain
  unfold clauseCount at honce ⊢
  cases hform with
  | versioned d =>
    rw [codeWords_versioned hfront hlf d hname hversion, List.count_append,
      List.count_cons_self] at honce ⊢
    by_cases hmistaken : d.Mistaken
    · rw [d.setVersion?_of_mistaken hmistaken] at hset
      cases hset
      have hcount : (wordsUpTo front d.name ++ (codeWords value ++
          if (commentStart value).isSome then [] else codeWords back)).count clauseWord =
            (codeWords value).count clauseWord := by
        rw [List.count_append, List.count_append]
        split
        · rw [List.count_nil]
          omega
        · omega
      rw [codeWords_misread hfront hlf d hname hversion hvalue, hcount]
      constructor
      · exact fun h => .inr ⟨d, rfl, fun _ => h⟩
      · rintro (h | ⟨d', hd', h⟩)
        · omega
        · exact h ((Versioned.mistaken_congr hd').1 hmistaken)
    · rw [d.setVersion?_eq hmistaken hvalue] at hset
      cases hset
      refine iff_of_true ?_ (.inr ⟨d, rfl, fun h => absurd h hmistaken⟩)
      rw [codeWords_versioned hfront hlf (d.withVersion value hvalue) hname hplain,
        List.count_append, List.count_cons_self]
      exact honce
  | bare a ha =>
    rw [setVersion?_bare a ha hvalue] at hset
    cases hset
    rw [codeWords_bare hfront hlf a hname, List.count_append] at honce ⊢
    have hname' : wordsUpTo front (Versioned.appended a ha value hvalue).name =
        wordsUpTo front a := rfl
    rw [codeWords_versioned hfront hlf (Versioned.appended a ha value hvalue) hname hplain, hname',
      List.count_append, List.count_cons_self]
    constructor
    · exact fun h => .inl (by omega)
    · rintro (h | ⟨d, hd, -⟩)
      · omega
      · exact absurd hd (bareText_ne_text a d)
  | application h =>
    rw [h] at hset
    cases hset

end

end BuildScript.Plugin
