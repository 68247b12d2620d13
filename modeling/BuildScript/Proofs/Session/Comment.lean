import BuildScript.Proofs.Declaration.Trailer
import BuildScript.Proofs.Index.Shift
import BuildScript.Proofs.Session.Coherence
/-!
# Entries and comments

With comments skipped, a line that is a comment and nothing else makes no entry. On a line with
code in front of its comment the recognizers are shown the whole line, comment and all. That of
properties leaves the comment alone; the others look for their words and quotation marks all over
the line, so they may find a declaration in the comment.

An entry ends in front of the comment of its line just when the code of the line makes that entry by
itself. An update is made where its entry stands, so for the texts that updates replace it is the
same.

Results:
* `entryOfLine?_beforeComment_iff`: which entries of a line end in front of its comment.
* `endsBeforeComment_iff`: the entries of a script, and the updates of a session on it.
* `endsBeforeComment_notedScript`: a line whose comment makes the entry.
-/
namespace BuildScript

open Text

/-- A region ends in front of the comment of its line, if the line has one. -/
def Region.EndsBeforeComment (text : Text) (r : Region) : Prop :=
  ∀ line i, (lines text)[r.line]? = some line → commentStart line = some i →
    r.stop ≤ (lineStart text r.line + i : Nat)

/-- An entry is the one that the code of its line makes by itself, the comment left out. -/
def Entry.ReadsFromCode (options : ParseOptions) (text : Text) (e : Entry) : Prop :=
  ∀ line, (lines text)[e.line]? = some line →
    Index.entryOfLine? options (e.line + 1) (lineStart text e.line) (beforeComment line) = some e

/-! ## The code of a line -/

namespace Index

/-- A line that is read, though comments are not, is read without its comment: it has code in front
of the comment. -/
theorem isSkipped_beforeComment {line : Text} (h : isSkipped true line = false) :
    isSkipped true (beforeComment line) = false := by
  cases hcomment : commentStart line with
  | none => rwa [beforeComment_of_none hcomment]
  | some i =>
    obtain ⟨w, r, rfl, hlength⟩ := commentFrom_spec hcomment
    rw [Nat.zero_add] at hlength
    rw [beforeComment_append (by rw [hcomment, hlength])]
    simp only [isSkipped, Bool.true_and, Bool.or_eq_false_iff, List.any_eq_false] at h ⊢
    cases hw : trimLeft w with
    | nil =>
      -- without code the line begins with its comment
      have htrim : trim (w ++ '/' :: '/' :: r) = '/' :: '/' :: trimRight r := by
        rw [trim, trimLeft_append_of_nil hw]
        exact trimRight_append_comment [] r
      have hmark := h.2 "//".toList (by decide)
      rw [htrim] at hmark
      exact absurd rfl hmark
    | cons c u =>
      have htrim : trim (w ++ '/' :: '/' :: r) = c :: u ++ '/' :: '/' :: trimRight r := by
        rw [trim, trimLeft_append_of_cons hw, ← List.cons_append]
        exact trimRight_append_comment (c :: u) r
      have hcode : trim w = c :: trimRight u := by
        rw [trim, hw]
        exact trimRight_append_stop (not_isBlank_of_trimLeft (by rw [← hw, trimLeft_trimLeft])) [] u
      obtain ⟨b, -, hb⟩ := eq_trimRight_append u
      have hfront : trim (w ++ '/' :: '/' :: r) = trim w ++ (b ++ '/' :: '/' :: trimRight r) := by
        rw [htrim, hcode, List.cons_append, List.cons_append, ← List.append_assoc, ← hb]
      refine ⟨by rw [hcode]; rfl, fun mark hmark hstart => h.2 mark hmark ?_⟩
      rw [hfront]
      exact startsWith_append hstart _

variable {options : ParseOptions} {kinds : List Kind} {skipComments : Bool} {number start i : Nat}
variable {text line : Text} {e : Entry}

theorem sighting_of_entryOfLine? (h : entryOfLine? options number start line = some e) :
    isSkipped options.skipComments line = false ∧ ∃ s,
      Recognizer.firstSighting? options.recognizers line = some s ∧ s.stop ≤ line.length ∧
      e = .ofSighting number start s := by
  unfold entryOfLine? at h
  split at h
  · cases h
  · next hread =>
    obtain ⟨s, hs, h⟩ := Option.bind_eq_some_iff.1 h
    unfold Entry.ofSighting? at h
    split at h
    · next hbounds =>
      cases h
      exact ⟨Bool.eq_false_iff.2 hread, s, hs, hbounds.1.2.2, rfl⟩
    · cases h

theorem entryOfLine?_of_firstSighting? {s : Sighting} (hread : isSkipped skipComments line = false)
    (hs : Recognizer.firstSighting? (kinds.map Recognizer.ofKind) line = some s) :
    entryOfLine? ⟨kinds.map Recognizer.ofKind, skipComments⟩ number start line =
      some (.ofSighting number start s) := by
  obtain ⟨u, m, v, rfl, hcut⟩ := Recognizer.cut_of_firstSighting? hs
  rw [entryOfLine?, hread, if_neg Bool.false_ne_true, hs, hcut, Option.bind_some,
    Entry.ofSighting?_cut]
  rfl

theorem entryOfLine?_of_mem_parse (h : e ∈ (parse options text).entries) :
    ∃ line, (Text.lines text)[e.line]? = some line ∧ '\n' ∉ line ∧
      entryOfLine? options (e.line + 1) (lineStart text e.line) line = some e := by
  have hentry := mem_entries_parse_iff_entryOn?.1 ⟨h, rfl⟩
  obtain ⟨line, hline, hentry⟩ := Option.bind_eq_some_iff.1 hentry
  exact ⟨line, hline, not_mem_of_mem_lines (List.mem_of_getElem? hline),
    by rwa [← readLine_bind_toOption options hline]⟩

/-- An entry ends in front of the comment of its line just when the code of the line makes it. -/
theorem entryOfLine?_beforeComment_iff (hlf : '\n' ∉ line) (hcomment : commentStart line = some i)
    (h : entryOfLine? ⟨kinds.map Recognizer.ofKind, true⟩ number start line = some e) :
    e.region.stop ≤ (start + i : Nat) ↔
      entryOfLine? ⟨kinds.map Recognizer.ofKind, true⟩ number start (beforeComment line) =
        some e := by
  obtain ⟨hread, s, hs, -, rfl⟩ := sighting_of_entryOfLine? h
  have hstop : (Entry.ofSighting number start s).region.stop = (start : Int) + s.stop := rfl
  rw [hstop]
  obtain ⟨code, comment, rfl, rfl, hcode, htrailer⟩ := isTrailerOf_of_commentStart hlf hcomment
  constructor
  · intro hle
    have hs := Recognizer.firstSighting?_cut htrailer hs (by omega)
    rw [← hcode] at hs
    exact entryOfLine?_of_firstSighting? (isSkipped_beforeComment hread) hs
  · intro hentry
    rw [hcode] at hentry
    obtain ⟨-, s', -, hle, heq⟩ := sighting_of_entryOfLine? hentry
    have hstop' := congrArg (fun e : Entry => e.region.stop) heq
    have : (start : Int) + s.stop = start + s'.stop := hstop'
    omega

theorem stop_le_of_property (hlf : '\n' ∉ line) (hcomment : commentStart line = some i)
    (h : entryOfLine? ⟨kinds.map Recognizer.ofKind, skipComments⟩ number start line = some e)
    (hkind : e.kind = .property) : e.region.stop ≤ (start + i : Nat) := by
  obtain ⟨-, s, hs, -, rfl⟩ := sighting_of_entryOfLine? h
  obtain ⟨code, comment, rfl, rfl, -, htrailer⟩ := isTrailerOf_of_commentStart hlf hcomment
  obtain ⟨r, hr, hs⟩ := List.exists_of_findSome?_eq_some hs
  obtain ⟨kind, -, rfl⟩ := List.mem_map.1 hr
  obtain rfl : kind = .property := (Recognizer.kind_of_sight? hs).symm.trans hkind
  obtain ⟨found, hfound, rfl⟩ := Option.map_eq_some_iff.1 hs
  rw [Declaration.find?_property_append htrailer] at hfound
  have hle := (Declaration.bounds_of_find? hfound).2
  show (start : Int) + found.stop ≤ _
  omega

theorem endsBeforeComment_iff_of_mem
    (h : e ∈ (parse ⟨kinds.map Recognizer.ofKind, true⟩ text).entries) :
    e.region.EndsBeforeComment text ↔
      e.ReadsFromCode ⟨kinds.map Recognizer.ofKind, true⟩ text := by
  obtain ⟨line, hline, hlf, hentry⟩ := entryOfLine?_of_mem_parse h
  constructor
  · intro hends line' hline'
    obtain rfl : line = line' := Option.some.inj (hline.symm.trans hline')
    cases hcomment : commentStart line with
    | none => rwa [beforeComment_of_none hcomment]
    | some i =>
      exact (entryOfLine?_beforeComment_iff hlf hcomment hentry).1 (hends line i hline hcomment)
  · intro hreads line' i hline' hcomment
    obtain rfl : line = line' := Option.some.inj (hline.symm.trans hline')
    exact (entryOfLine?_beforeComment_iff hlf hcomment hentry).2 (hreads line hline)

theorem endsBeforeComment_of_property
    (h : e ∈ (parse ⟨kinds.map Recognizer.ofKind, skipComments⟩ text).entries)
    (hkind : e.kind = .property) : e.region.EndsBeforeComment text := by
  obtain ⟨line, hline, hlf, hentry⟩ := entryOfLine?_of_mem_parse h
  intro line' i hline' hcomment
  obtain rfl : line = line' := Option.some.inj (hline.symm.trans hline')
  exact stop_le_of_property hlf hcomment hentry hkind

end Index

namespace Session

theorem exists_entry_of_replace {options : ParseOptions} {editor : EditorOptions} {text : Text}
    {requests : List Request} {edit : Edit}
    (h : edit ∈ ((start (Index.parse options text) editor).afterAll requests).edits)
    (hkind : edit.kind = .replace) :
    ∃ e ∈ (Index.parse options text).entries, edit.region = e.region ∧
      edit.oldText = e.rawText := by
  have hcoherent := coherent_afterAll (Index.parse options text) editor requests
  obtain ⟨c, hc, rfl⟩ := List.mem_map.1 h
  obtain ⟨i, e, -, -, he, -, hregion, hold, -⟩ := hcoherent.update_of_replace hc hkind
  obtain ⟨e₀, he₀, hregion₀, hparsed⟩ := hcoherent.parsed he
  exact ⟨e₀, List.mem_of_getElem? he₀, by rw [hregion, hregion₀], by rw [hold, hparsed]⟩

/-- Where the entries of a script end, and the updates of a session on it. Whatever recognizers are
built in, comments are skipped: every entry has code on its line, and it ends in front of the
comment there just when that code makes it by itself, as an assignment always does. Behind every
course of requests a pending replacement is one of the text of an entry, so it keeps out of the
comment just when that entry does. -/
theorem endsBeforeComment_iff (kinds : List Kind) (enabled : Option (List Kind))
    (editor : EditorOptions) (text : Text) (requests : List Request) :
    let options := ParseOptions.builtIn kinds enabled true
    let index := Index.parse options text
    (∀ e ∈ index.entries,
      (∀ line, (lines text)[e.line]? = some line → trim (beforeComment line) ≠ []) ∧
      (e.region.EndsBeforeComment text ↔ e.ReadsFromCode options text) ∧
      (e.kind = .property → e.region.EndsBeforeComment text)) ∧
    ∀ edit ∈ ((start index editor).afterAll requests).edits, edit.kind = .replace →
      ∃ e ∈ index.entries, edit.region = e.region ∧ edit.oldText = e.rawText ∧
        (edit.region.EndsBeforeComment text ↔ e.ReadsFromCode options text) := by
  obtain ⟨used, hused⟩ := ParseOptions.exists_builtIn_eq kinds enabled true
  intro options index
  have hiff : ∀ e ∈ index.entries,
      (e.region.EndsBeforeComment text ↔ e.ReadsFromCode options text) := by
    intro e he
    simp only [index, options, hused] at he ⊢
    exact Index.endsBeforeComment_iff_of_mem he
  refine ⟨fun e he => ⟨fun line hline hblank => ?_, hiff e he, fun hkind => ?_⟩,
    fun edit hedit hkind => ?_⟩
  · simp only [index, options, hused] at he
    obtain ⟨line', hline', -, hentry⟩ := Index.entryOfLine?_of_mem_parse he
    obtain rfl : line' = line := Option.some.inj (hline'.symm.trans hline)
    have hread := Index.isSkipped_beforeComment (Index.sighting_of_entryOfLine? hentry).1
    rw [Index.isSkipped, hblank] at hread
    cases hread
  · simp only [index, options, hused] at he
    exact Index.endsBeforeComment_of_property he hkind
  · obtain ⟨e, he, hregion, hold⟩ := exists_entry_of_replace hedit hkind
    exact ⟨e, he, hregion, hold, hregion ▸ hiff e he⟩

/-- A dependency that is not written out, with a note that names the one it stands for. -/
def notedScript : Text := "implementation libs.core // was 'a:b:1'".toList

/-- The dependency is read from the note, and an update of its version changes the note. -/
theorem endsBeforeComment_notedScript :
    let base := start (Index.parse (.builtIn Kind.all none true) notedScript) {}
    (∃ e ∈ base.index.entries, e.line = 0 ∧ commentStart notedScript = some 25 ∧
      25 < e.region.start ∧ ¬ e.region.EndsBeforeComment notedScript) ∧
    (base.after (.setDependencyVersion "a".toList "b".toList "2".toList none)).render.result =
      .ok "implementation libs.core // was 'a:b:2'".toList := by
  refine ⟨⟨_, List.mem_cons_self, rfl, by decide, by decide, fun h => ?_⟩, rfl⟩
  have hstop := h notedScript 25 (by decide) (by decide)
  exact absurd hstop (by decide)

end Session

end BuildScript
