import BuildScript.Proofs.Text.Excerpt
import BuildScript.Proofs.Declaration.Grammar
import BuildScript.Proofs.Declaration.Written
/-!
# Declarations read from their own text

The text of a declaration declares the same without the line around it: the recognizer that found it
finds it there again, from end to end. Only the scope of a dependency is not part of its text.

Where a kind is looked for in two ways, the text of what was found in the second way must not be
found in the first. A first way that has failed on the whole line fails on the text, since what it
reads it reads whatever stands behind, and the text begins with another word. The search for
coordinates passes over quoted bodies and is argued apart.

Results:
* `Plugin.find?_text`, `Repository.find?_text`, `Dependency.find?_text`, `Property.find?_text`: what
  is found in the text of what was found.
* `Recognizer.sight?_text`: all recognizers but that of tasks see the same in the text of a
  sighting.
-/
namespace BuildScript

open Text

/-! ## Plugins -/

namespace Plugin

variable {before : Option Char}

theorem confined_readId (before : Option Char) (a : Char × Text) :
    Confined fun s r => readId? before s = some (a, r) :=
  (Confined.and fun _ => (confined_after _).comp (confined_readArgument a.1 a.2)).congr
    fun _ _ => readId?_eq_some_iff

theorem confined_readIdCall (before : Option Char) (a : Char × Text) :
    Confined fun s r => readIdCall? before s = some (a, r) :=
  ((confined_readId before a).comp confined_skipCallClosing).congr
    fun _ _ => readIdCall?_eq_some_iff

theorem confined_readVersion (version : Text) :
    Confined fun s r => readVersion? s = some (version, r) :=
  (((confined_after "version".toList).comp (Confined.exists fun mark =>
    confined_readArgument mark version)).comp confined_skipCallClosing).blank.congr
      fun _ _ => readVersion?_eq_some_iff

theorem lasting_readVersion : Lasting readVersion? := by
  intro s t h
  obtain ⟨⟨version, r⟩, hr⟩ := Option.isSome_iff_exists.1 h
  obtain ⟨c, u, rfl, hc, q, ⟨v, hv, mark, hq⟩, -⟩ := readVersion?_eq_some_iff.1 hr
  refine Option.isSome_iff_exists.2 ⟨(version, skipCallClosing (q ++ t)), ?_⟩
  exact readVersion?_eq_some_iff.2 ⟨c, u ++ t, rfl, hc, q ++ t,
    ⟨v ++ t, after?_trimLeft_append_right (by decide) hv t, mark, readArgument?_append_right hq t⟩,
    rfl⟩

theorem confined_readDeclaration (before : Option Char) (p : Plugin) :
    Confined fun s r => readDeclaration? before s = some (p, r) := by
  have hversion (a : Char × Text) := Confined.orNothing
    (p := fun version => p = ⟨a.2, version, true⟩) (q := p = ⟨a.2, [], true⟩)
    confined_readVersion lasting_readVersion
  exact (Confined.exists fun a => (confined_readIdCall before a).comp (hversion a)).congr
    fun _ _ => readDeclaration?_eq_some_iff

theorem isSome_readDeclaration? (before : Option Char) (s : Text) :
    (readDeclaration? before s).isSome = (readId? before s).isSome := by
  cases hid : readId? before s with
  | none => simp [readDeclaration?, readIdCall?, hid]
  | some a =>
    cases hversion : readVersion? (skipCallClosing a.2) <;>
      simp [readDeclaration?, readIdCall?, hid, hversion]

theorem lasting_readDeclaration (before : Option Char) : Lasting (readDeclaration? before) := by
  intro s t h
  rw [isSome_readDeclaration?] at h ⊢
  obtain ⟨⟨⟨mark, name⟩, r⟩, hr⟩ := Option.isSome_iff_exists.1 h
  obtain ⟨hname, u, hu, hq⟩ := readId?_eq_some_iff.1 hr
  refine Option.isSome_iff_exists.2 ⟨((mark, name), r ++ t), ?_⟩
  exact readId?_eq_some_iff.2
    ⟨hname, u ++ t, after?_append_right hu t, readArgument?_append_right hq t⟩

theorem confined_readApplication (before : Option Char) (p : Plugin) :
    Confined fun s r => readApplication? before s = some (p, r) := by
  have hname (mark : Char) (name : Text) : Confined fun s r =>
      (name ≠ [] ∧ p = ⟨name, [], true⟩) ∧ readQuoted? (trimLeft s) = some (mark, name, r) :=
    Confined.and fun _ => (confined_readQuoted mark name).skip confined_trimLeft
  have hcolon := ((confined_after [':']).comp
    (Confined.exists fun mark => Confined.exists (hname mark))).skip confined_trimLeft
  have hplugin := ((confined_after "plugin".toList).comp hcolon).blank
  exact (Confined.and fun _ => (confined_after _).comp hplugin).congr
    fun _ _ => readApplication?_eq_some_iff

theorem alone_readDeclaration : Alone readDeclaration? where
  confined := confined_readDeclaration
  front := by
    intro before s a h
    have hid : readId? before s = readId? none s := by
      have hsome := isSome_readDeclaration? before s
      rw [h] at hsome
      obtain ⟨⟨b, r⟩, hb⟩ := Option.isSome_iff_exists.1 hsome.symm
      obtain ⟨⟨-, hname⟩, hsteps⟩ := readId?_eq_some_iff.1 hb
      rw [hb, readId?_eq_some_iff.2 ⟨⟨rfl, hname⟩, hsteps⟩]
    rw [← h, readDeclaration?, readDeclaration?, readIdCall?, readIdCall?, hid]
  takes := length_of_readDeclaration?

theorem alone_readApplication : Alone readApplication? where
  confined := confined_readApplication
  front h := readApplication?_eq_some_iff.2 ⟨rfl, (readApplication?_eq_some_iff.1 h).2⟩
  takes := length_of_readApplication?

theorem find?_text {line : Text} {found : Found Plugin} (h : find? line = some found) :
    find? (found.text line) = some ⟨0, (found.text line).length, found.value⟩ := by
  refine alone_readDeclaration.or_searchIn_text alone_readApplication lasting_readDeclaration ?_ h
  intro s a ha
  obtain ⟨-, u, hu, -⟩ := readApplication?_eq_some_iff.1 ha
  rw [eq_append_of_after? hu]
  rfl

end Plugin

/-! ## Repositories -/

namespace Repository

theorem confined_readEmptyCall : Confined fun s r => readEmptyCall? s = some r :=
  ((confined_after ['(']).comp ((confined_after [')']).skip confined_trimLeft)).congr
    fun _ _ => readEmptyCall?_eq_some_iff

theorem lasting_readEmptyCall : Lasting readEmptyCall? := by
  intro s t h
  obtain ⟨r, hr⟩ := Option.isSome_iff_exists.1 h
  obtain ⟨u, hu, hr⟩ := readEmptyCall?_eq_some_iff.1 hr
  exact Option.isSome_iff_exists.2 ⟨r ++ t, readEmptyCall?_eq_some_iff.2
    ⟨u ++ t, after?_append_right hu t, after?_trimLeft_append_right (by decide) hr t⟩⟩

theorem lasting_readCall (name : Text) : Lasting fun s =>
    ((after? name s).bind readEmptyCall?).map fun rest =>
      ((⟨name, "maven".toList, []⟩ : Repository), rest) := by
  refine Lasting.map (fun s t h => ?_) _
  obtain ⟨r, hr⟩ := Option.isSome_iff_exists.1 h
  obtain ⟨u, hu, hr⟩ := Option.bind_eq_some_iff.1 hr
  rw [after?_append_right hu, Option.bind_some]
  exact lasting_readEmptyCall u t (Option.isSome_of_mem hr)

theorem confined_readWellKnown (before : Option Char) (repository : Repository) :
    Confined fun s r => readWellKnown? before s = some (repository, r) := by
  simp only [readWellKnown?_eq]
  refine (Confined.findSome (fun name repository => ?_) lasting_readCall repository).guard _
  exact (Confined.and fun _ => (confined_after name).comp confined_readEmptyCall).congr
    fun _ _ => map_readEmptyCall?_eq_some_iff

theorem lasting_readWellKnown (before : Option Char) : Lasting (readWellKnown? before) := by
  rw [funext (readWellKnown?_eq before)]
  exact (Lasting.findSome lasting_readCall wellKnown).guard _

theorem confined_readUrl (before : Option Char) (repository : Repository) :
    Confined fun s r => readUrl? before s = some (repository, r) := by
  have hskipEquals : Confined fun s r => skipEquals s = r := by
    simp only [skipEquals_eq]
    exact confined_optional_word ['=']
  have hskipUri : Confined fun s r => skipUriOpening s = r := by
    simp only [skipUriOpening_eq]
    exact confined_optional_word "uri(".toList
  have hurl (mark : Char) (url : Text) : Confined fun s r =>
      (isAddress url = true ∧ repository = ⟨nameOfUrl url, "maven".toList, url⟩) ∧
        readQuoted? (skipUriOpening (skipEquals (trimLeft s))) = some (mark, url, r) :=
    Confined.and fun _ =>
      (((confined_readQuoted mark url).skip hskipUri).skip hskipEquals).skip confined_trimLeft
  have hclause := ((confined_after "url".toList).comp
    (Confined.exists fun mark => Confined.exists (hurl mark))).comp confined_skipCallClosing
  exact (Confined.and fun _ => hclause).congr fun _ _ => readUrl?_eq_some_iff

theorem alone_readWellKnown : Alone readWellKnown? where
  confined := confined_readWellKnown
  front := by
    intro before s a h
    rw [readWellKnown?_eq] at h ⊢
    split at h
    · exact h
    · cases h
  takes := length_of_readWellKnown?

theorem alone_readUrl : Alone readUrl? where
  confined := confined_readUrl
  front h := readUrl?_eq_some_iff.2 ⟨rfl, (readUrl?_eq_some_iff.1 h).2⟩
  takes := length_of_readUrl?

theorem find?_text {line : Text} {found : Found Repository} (h : find? line = some found) :
    find? (found.text line) = some ⟨0, (found.text line).length, found.value⟩ := by
  refine alone_readWellKnown.or_searchIn_text alone_readUrl lasting_readWellKnown ?_ h
  intro s a ha
  obtain ⟨-, q, ⟨u, hu, -⟩, -⟩ := readUrl?_eq_some_iff.1 ha
  rw [eq_append_of_after? hu]
  rfl

end Repository

/-! ## Dependencies -/

namespace Dependency

variable {s m r name line : Text} {found : Found Dependency}

theorem confined_skipPathLabel : Confined fun s r => skipPathLabel s = r := by
  have hpath : Confined fun s r =>
      ((after? "path".toList s).bind fun u => after? [':'] (trimLeft u)) = some r :=
    ((confined_after _).comp ((confined_after [':']).skip confined_trimLeft)).congr
      fun _ _ => Option.bind_eq_some_iff
  have hlasting : Lasting fun s =>
      (after? "path".toList s).bind fun u => after? [':'] (trimLeft u) := by
    intro s t h
    obtain ⟨r, hr⟩ := Option.isSome_iff_exists.1 h
    obtain ⟨u, hu, hr⟩ := Option.bind_eq_some_iff.1 hr
    simp only [after?_append_right hu, Option.bind_some,
      after?_trimLeft_append_right (by decide) hr, Option.isSome_some]
  simp only [skipPathLabel_eq]
  exact ((hpath.comp confined_trimLeft).congr fun _ _ => Option.map_eq_some_iff).optional
    (hlasting.map trimLeft)

theorem confined_readReference (name : Text) :
    Confined fun s r => readReference? s = some (name, r) := by
  have hclosing : Confined fun s r => ∃ mark', isQuote mark' = true ∧
      ∃ w, after? [mark'] s = some w ∧ after? [')'] (trimLeft w) = some r :=
    Confined.exists fun mark' => Confined.and fun _ =>
      (confined_after _).comp ((confined_after _).skip confined_trimLeft)
  refine ((confined_after _).comp (Confined.exists fun mark => Confined.and fun _ => ?_)).congr
    fun _ _ => readReference?_eq_some_iff
  have hbody := (confined_after [mark, ':']).comp (hclosing.span (!isQuote ·) name)
  exact (hbody.skip confined_skipPathLabel).skip confined_trimLeft

theorem alone_readReference : Alone fun _ s => readReference? s where
  confined _ := confined_readReference
  front h := h
  takes := length_of_readReference?

theorem exists_append_skipPathLabel (s : Text) :
    ∃ w, (∀ c ∈ w, isQuote c = false) ∧ s = w ++ skipPathLabel s := by
  have hblank {b : Text} (hb : ∀ c ∈ b, isBlank c = true) : ∀ c ∈ b, isQuote c = false :=
    fun c hc => not_isQuote_of_isBlank (hb c hc)
  rw [skipPathLabel_eq]
  cases hu : after? "path".toList s with
  | none => exact ⟨[], by simp, rfl⟩
  | some u =>
    rw [Option.bind_some]
    cases hv : after? [':'] (trimLeft u) with
    | none => exact ⟨[], by simp, rfl⟩
    | some v =>
      obtain ⟨b, hb, hu'⟩ := exists_append_trimLeft u
      obtain ⟨b', hb', hv'⟩ := exists_append_trimLeft v
      rw [eq_append_of_after? hv] at hu'
      refine ⟨"path".toList ++ (b ++ ':' :: b'), fun c hc => ?_, ?_⟩
      · simp only [List.mem_append, List.mem_cons] at hc
        rcases hc with hc | hc | rfl | hc
        · exact isQuote_eq_false_of_any (s := "path".toList) rfl c hc
        · exact hblank hb c hc
        · rfl
        · exact hblank hb' c hc
      · rw [eq_append_of_after? hu, hu', Option.map_some, Option.getD_some]
        conv_lhs => rw [hv']
        simp

/-- A reference and nothing else: one quoted part, which begins with a colon. -/
theorem eq_of_readReference? (h : readReference? s = some (name, [])) :
    ∃ u mark body mark' v, s = u ++ mark :: ':' :: (body ++ mark' :: v) ∧
      ∀ c ∈ u ++ ':' :: (body ++ v), isQuote c = false := by
  obtain ⟨u, hu, mark, -, v, hv, rfl, mark', -, w, hw, hr⟩ := readReference?_eq_some_iff.1 h
  obtain ⟨b, hb, hu'⟩ := exists_append_trimLeft u
  obtain ⟨l, hl, hlabel⟩ := exists_append_skipPathLabel (trimLeft u)
  obtain ⟨b', hb', hw'⟩ := exists_append_trimLeft w
  rw [eq_append_of_after? hv] at hlabel
  rw [eq_append_of_after? hr] at hw'
  have hsplit := List.takeWhile_append_dropWhile (p := (!isQuote ·)) (l := v)
  rw [eq_append_of_after? hw, hw'] at hsplit
  refine ⟨"project(".toList ++ (b ++ l), mark, v.takeWhile (!isQuote ·), mark', b' ++ [')'], ?_, ?_⟩
  · rw [eq_append_of_after? hu, hu', hlabel]
    conv_lhs => rw [← hsplit]
    simp
  · intro c hc
    simp only [List.mem_append, List.mem_cons, List.not_mem_nil, or_false] at hc
    rcases hc with (hc | hc | hc) | rfl | hc | hc | rfl
    · exact isQuote_eq_false_of_any (s := "project(".toList) rfl c hc
    · exact not_isQuote_of_isBlank (hb c hc)
    · exact hl c hc
    · rfl
    · simpa using List.all_eq_true.1 List.all_takeWhile c hc
    · exact not_isQuote_of_isBlank (hb' c hc)
    · rfl

/-- The one quoted part of a reference is no coordinate: nothing stands in front of its colon. -/
theorem coordinate_eq_none_of_readReference? (h : readReference? s = some (name, [])) :
    Coordinate.find? s = none := by
  obtain ⟨u, mark, body, mark', v, rfl, hplain⟩ := eq_of_readReference? h
  have hu : ∀ c ∈ u, isQuote c = false := fun c hc => hplain c (List.mem_append_left _ hc)
  have hcolon : Coordinate.readBody? (mark :: ':' :: (body ++ mark' :: v)) = none := by
    rw [Coordinate.readBody?]
    split <;> rfl
  rw [Coordinate.find?, Coordinate.findFrom?_append_plain hu, Coordinate.findFrom?, hcolon]
  refine Option.eq_none_iff_forall_ne_some.2 fun found hfound => ?_
  -- behind its first mark the reference has one mark, and a coordinate has two
  obtain ⟨w, mark₁, body₁, v₁, hrest, hquotes, -⟩ := Coordinate.findFrom?_spec hfound
  have hone : (':' :: (body ++ mark' :: v)).countP isQuote ≤ 1 := by
    have hnone : (':' :: (body ++ v)).countP isQuote = 0 := List.countP_eq_zero.2 fun c hc => by
      rw [hplain c (List.mem_append_right u hc)]
      decide
    simp only [List.countP_cons, List.countP_append] at hnone ⊢
    split <;> omega
  have htwo : 2 ≤ (w ++ mark₁ :: (body₁ ++ mark₁ :: v₁)).countP isQuote := by
    simp only [List.countP_append, List.countP_cons_of_pos hquotes.quote]
    omega
  rw [hrest] at hone
  omega

theorem text_of_coordinate {c : Found Coordinate} (h : Coordinate.find? line = some c) :
    ∃ mark body, c.text line = mark :: (body ++ [mark]) ∧ Coordinate.Quotes mark body c.value := by
  obtain ⟨w, mark, body, v, rfl, hquotes, hstart, hstop⟩ := Coordinate.findFrom?_spec h
  refine ⟨mark, body, ?_, hquotes⟩
  have hline : w ++ mark :: (body ++ mark :: v) = w ++ mark :: (body ++ [mark]) ++ v := by simp
  have hlength : c.stop = w.length + (mark :: (body ++ [mark])).length := by
    simp only [hstop, List.length_cons, List.length_append, List.length_nil]
    omega
  rw [Found.text, hline, hlength, hstart, Nat.zero_add]
  exact drop_take_append w _ v

theorem scopeOf_of_isQuote {mark : Char} (hmark : isQuote mark = true) (s : Text) :
    scopeOf (mark :: s) = [] := by
  rw [scopeOf, trimLeft_cons_of_not_blank (not_isBlank_of_isQuote hmark)]
  rcases isQuote_cases hmark with rfl | rfl <;> rfl

theorem scopeOf_of_readReference? (h : readReference? s = some (name, r)) : scopeOf s = [] := by
  obtain ⟨u, hu, -⟩ := readReference?_eq_some_iff.1 h
  rw [eq_append_of_after? hu]
  rfl

theorem find?_text (h : find? line = some found) : find? (found.text line) =
    some ⟨0, (found.text line).length, { found.value with scope := [] }⟩ := by
  rw [find?_eq] at h
  rcases Option.or_eq_some_iff.1 h with h | ⟨-, h⟩
  · obtain ⟨c, hc, rfl⟩ := Option.map_eq_some_iff.1 h
    obtain ⟨mark, body, htext, hquotes⟩ := text_of_coordinate hc
    have hfind : Coordinate.find? (c.text line) = some ⟨0, (c.text line).length, c.value⟩ := by
      rw [htext, Coordinate.find?, hquotes.findFrom? 0 []]
      simp
    have hscope : scopeOf (c.text line) = [] := by
      rw [htext]
      exact scopeOf_of_isQuote hquotes.quote _
    show find? (c.text line) = _
    rw [find?_eq, hfind, hscope, Option.map_some, Option.some_or, text_whole]
    rfl
  · obtain ⟨f, hf, rfl⟩ := Option.map_eq_some_iff.1 h
    have hread := alone_readReference.read_text hf
    show find? (f.text line) = _
    rw [find?_eq, coordinate_eq_none_of_readReference? hread, alone_readReference.searchIn_text hf,
      scopeOf_of_readReference? hread, Option.map_none, Option.none_or, Option.map_some, text_whole]
    rfl

end Dependency

/-! ## Properties -/

namespace Property

theorem find?_text {line : Text} {found : Found Property} (hlf : '\n' ∉ line)
    (h : find? line = some found) :
    find? (found.text line) = some ⟨0, (found.text line).length, found.value⟩ := by
  obtain ⟨a, rfl⟩ := (find?_eq_some_iff hlf).1 h
  obtain ⟨t, ht⟩ := a.exists_around
  have hcut := drop_take_append a.indent a.clause t
  rw [← ht] at hcut
  have htext :
      Found.text ⟨a.start, a.stop, (⟨a.key, unquote (expression a.rest)⟩ : Property)⟩ line =
        a.clause := by
    rw [Found.text, a.stop_eq]
    exact hcut
  have hlf' : '\n' ∉ a.clause := by
    intro hmem
    refine hlf ?_
    rw [ht]
    exact List.mem_append_left t (List.mem_append_right _ hmem)
  rw [htext]
  refine (find?_eq_some_iff hlf').2 ⟨a.excerpt, ?_⟩
  rw [a.stop_excerpt, a.expression_excerpt]
  rfl

end Property

/-! ## Sightings -/

/-- A declaration without what only the rest of its line says: the scope of a dependency. -/
def Declaration.unscoped : Declaration → Declaration
  | dependency d => dependency { d with scope := [] }
  | d => d

/-- What a line declares its text declares alone, from end to end and without a scope. -/
theorem Declaration.find?_text {kind : Kind} {line : Text} {found : Found Declaration}
    (hkind : kind ≠ .task) (hlf : '\n' ∉ line) (h : find? kind line = some found) :
    find? kind (found.text line) = some ⟨0, (found.text line).length, found.value.unscoped⟩ := by
  cases kind with
  | property =>
    obtain ⟨f, hf, rfl⟩ := Option.map_eq_some_iff.1 h
    exact Option.map_eq_some_iff.2 ⟨_, Property.find?_text hlf hf, rfl⟩
  | dependency =>
    obtain ⟨f, hf, rfl⟩ := Option.map_eq_some_iff.1 h
    exact Option.map_eq_some_iff.2 ⟨_, Dependency.find?_text hf, rfl⟩
  | plugin =>
    obtain ⟨f, hf, rfl⟩ := Option.map_eq_some_iff.1 h
    exact Option.map_eq_some_iff.2 ⟨_, Plugin.find?_text hf, rfl⟩
  | repository =>
    obtain ⟨f, hf, rfl⟩ := Option.map_eq_some_iff.1 h
    exact Option.map_eq_some_iff.2 ⟨_, Repository.find?_text hf, rfl⟩
  | task => exact absurd rfl hkind

namespace Recognizer

/-- The text of a sighting speaks for itself. For every kind but tasks the recognizer that made the
sighting on a line makes it of the text alone, from end to end and with the same declaration, only
that a dependency then has no scope. -/
theorem sight?_text {kind : Kind} {line : Text} {s : Sighting} (hkind : kind ≠ .task)
    (hlf : '\n' ∉ line) (h : (ofKind kind).sight? line = some s) :
    (ofKind kind).sight? s.text = some ⟨s.declaration.unscoped, 0, s.text.length, s.text⟩ := by
  obtain ⟨found, hfound, rfl⟩ := Option.map_eq_some_iff.1 h
  refine Option.map_eq_some_iff.2 ⟨_, Declaration.find?_text hkind hlf hfound, ?_⟩
  rw [text_whole]
  rfl

/-- A dependency under a scope, with more on its line. -/
def scopedLine : Text := "  api('a:b:1') { changing = true }".toList

theorem sight?_text_scopedLine :
    Kind.dependency ≠ .task ∧ '\n' ∉ scopedLine ∧
    ∃ s, (ofKind .dependency).sight? scopedLine = some s ∧
      s.declaration = .dependency ⟨"a".toList, "b".toList, "1".toList, "api".toList,
        "'a:b:1'".toList⟩ ∧
      (ofKind .dependency).sight? s.text =
        some ⟨s.declaration.unscoped, 0, s.text.length, s.text⟩ := by
  have hkind : Kind.dependency ≠ .task := by decide
  have hlf : '\n' ∉ scopedLine := by decide
  have hs : (ofKind .dependency).sight? scopedLine =
      some ⟨.dependency ⟨"a".toList, "b".toList, "1".toList, "api".toList, "'a:b:1'".toList⟩,
        6, 13, "'a:b:1'".toList⟩ := by decide
  exact ⟨hkind, hlf, _, hs, rfl, sight?_text hkind hlf hs⟩

-- A task may be lost: its line has to begin with the word for it and a space.
example : ((ofKind .task).sight? "task 1 task\tfoo".toList).map (·.text) =
    some "task\tfoo".toList ∧ (ofKind .task).sight? "task\tfoo".toList = none := by decide

end Recognizer

end BuildScript
