import Mathlib.Data.List.Sort
import BuildScript.Proofs.Session.Rendering
import BuildScript.Proofs.Index.Reading
/-!
# Reading the rendered script again

A session shows the declarations that it has set versions and values of, and says it renders a
script that declares them. While nothing is removed, added or cleared, reading the rendered script
must give what the session shows, at the same lines and columns: only the offsets differ.

Not every version or value can be read back. `Request.isPlain` is what one has to look like so that
it neither ends where it should not nor turns into something else; for a property this depends on
the text that the session has for it at that moment, so `isPlainCourse` goes along with the session.

Results:
* `faithful_afterAll`: behind plain requests every entry is what its line reads as.
* `outlines_render`: the rendered script is read as the declarations that the session shows.
-/
namespace BuildScript

/-- What an entry says about its declaration and the place it was read from, offsets apart. -/
structure Outline where
  kind : Kind
  line : Int
  column : Int
  declaration : Declaration
  rawText : Text
deriving DecidableEq, Repr

def Entry.outline (e : Entry) : Outline :=
  ⟨e.kind, e.region.first.line, e.region.first.column, e.declaration, e.rawText⟩

/-- Whether a request sets a version or a value that can be read back. -/
def Request.isPlain (s : Session) : Request → Bool
  | .setDependencyVersion _ _ version _ => Coordinate.isPlainVersion version
  | .setProperty key value =>
    match s.select? fun d => d.property?.filter (·.key = key) with
    | some (e, _, _) => Property.isPlainValue e.rawText value
    | none => true
  | _ => false

namespace Session

/-- Whether a course of requests only sets versions and values that can be read back. -/
def isPlainCourse (s : Session) : List Request → Bool
  | [] => true
  | r :: rs => r.isPlain s && (s.after r).isPlainCourse rs

/-! ## Faithful sessions -/

/-- A session in which nothing but updates is pending, an entry without one shows its parsed text,
and every entry is what its line reads as with the entry's text in place. -/
structure Faithful (skipComments : Bool) (text : Text) (s : Session) : Prop where
  updates : ∀ c ∈ s.changes, ∃ i edit, c = .update i edit
  parsed : ∀ {i : Nat} {e : Entry}, s.index.entries[i]? = some e →
    (∀ c ∈ s.changes, c.updates i = false) → e.rawText = s.parsedText i
  reads : ∀ {i : Nat} {e : Entry}, s.index.entries[i]? = some e →
    ∃ u v, e.region.Covers text e.line u (s.parsedText i) v ∧
      Index.Reads skipComments u e.rawText v e.declaration

section
variable {skipComments : Bool} {text : Text} {s : Session} {e : Entry} {i k : Nat}

theorem faithful_start (skipComments : Bool) (text : Text) (editor : EditorOptions) :
    Faithful skipComments text (start (Index.parse { skipComments } text) editor) := by
  refine ⟨fun c hc => absurd hc List.not_mem_nil, fun he _ => (parsedText_start he editor).symm,
    fun {i e} he => ?_⟩
  have he : (Index.parse { skipComments } text).entries[i]? = some e := he
  have hmem := List.mem_of_getElem? he
  rw [Index.entries_parse, List.mem_filterMap] at hmem
  obtain ⟨k, -, hk⟩ := hmem
  obtain ⟨u, v, hcov, hreads⟩ := Index.reads_of_entryOn? hk
  refine ⟨u, v, ?_, hreads⟩
  rw [parsedText_start he editor, Entry.line, hcov.line_eq]
  exact hcov

/-- Setting an entry to what its line then reads as keeps a session faithful. -/
theorem faithful_record (h : Faithful skipComments text s) (hmem : (e, i) ∈ s.remaining)
    {value : Declaration} {newText : Text} (description : Text)
    (hnew : ∀ u v, Index.Reads skipComments u e.rawText v e.declaration →
      Index.Reads skipComments u newText v value) :
    Faithful skipComments text (s.record i e value newText description) := by
  obtain ⟨he, -⟩ := mem_remaining hmem
  obtain ⟨hi, -⟩ := List.getElem?_eq_some_iff.1 he
  refine ⟨fun c hc => ?_, fun {j e'} he' hnone => ?_, fun {j e'} he' => ?_⟩
  · rcases mem_changes_record_iff.1 hc with hc | ⟨-, rfl⟩
    · exact h.updates c (List.mem_filter.1 hc).1
    · exact ⟨i, _, rfl⟩
  · rcases (getElem?_record_iff hi).1 he' with ⟨rfl, rfl⟩ | ⟨hji, he'⟩
    · by_contra hne
      have hupdate := hnone _ (mem_changes_record_iff.2 (Or.inr ⟨hne, rfl⟩))
      simp [Change.updates] at hupdate
    · -- an update of another entry stays pending
      refine h.parsed he' fun c hc => ?_
      obtain ⟨l, edit, rfl⟩ := h.updates c hc
      by_cases hl : l = j
      · refine hnone _ (mem_changes_record_iff.2 (Or.inl (List.mem_filter.2 ⟨hc, ?_⟩)))
        simp [Change.updates, hl, hji]
      · simp [Change.updates, hl]
  · rcases (getElem?_record_iff hi).1 he' with ⟨rfl, rfl⟩ | ⟨-, he'⟩
    · obtain ⟨u, v, hcov, hreads⟩ := h.reads he
      exact ⟨u, v, hcov, hnew u v hreads⟩
    · exact h.reads he'

theorem faithful_after {r : Request} (h : Faithful skipComments text s) (hr : r.isPlain s = true) :
    Faithful skipComments text (s.after r) := by
  cases r with
  | setDependencyVersion group name version scope =>
    show Faithful skipComments text (s.setDependencyVersion group name version scope).session
    unfold setDependencyVersion
    split
    · exact h
    · next e d i warnings hsel =>
      obtain ⟨hmem, hd, -, -, hown⟩ := selectDependency_spec (congrArg Prod.fst hsel)
      split
      · exact h
      · refine faithful_record h hmem _ fun u v hreads => ?_
        rw [hd] at hreads
        exact hreads.setVersion hown hr
  | setProperty key value =>
    dsimp only [Request.isPlain] at hr
    show Faithful skipComments text (s.setProperty key value).session
    unfold setProperty
    split
    · exact h
    · next e p i hsel =>
      obtain ⟨hmem, hp⟩ := select?_spec hsel
      rw [hsel] at hr
      split
      · exact h
      · refine faithful_record h hmem _ fun u v hreads => ?_
        rw [Declaration.eq_of_property? (Option.filter_eq_some_iff.1 hp).1] at hreads
        exact hreads.setValue hr
  | setPluginVersion => cases hr
  | setRepositoryUrl => cases hr
  | addDependency => cases hr
  | addPlugin => cases hr
  | addRepository => cases hr
  | removeDependency => cases hr
  | clear => cases hr

theorem faithful_afterAll {requests : List Request} (h : Faithful skipComments text s)
    (hplain : s.isPlainCourse requests = true) :
    Faithful skipComments text (s.afterAll requests) := by
  induction requests generalizing s with
  | nil => exact h
  | cons r requests ih =>
    obtain ⟨hr, hplain⟩ := Bool.and_eq_true_iff.1 hplain
    exact ih (faithful_after h hr) hplain

/-! ## Shown lines -/

theorem Coherent.current {base : Index} {e₀ : Entry} (h : Coherent base s)
    (he : base.entries[i]? = some e₀) :
    ∃ e, s.index.entries[i]? = some e ∧ e.region = e₀.region := by
  have hregion : (s.index.entries.map (·.region))[i]? = some e₀.region := by
    rw [h.regions, List.getElem?_map, he]
    rfl
  rw [List.getElem?_map] at hregion
  exact Option.map_eq_some_iff.1 hregion

theorem Faithful.shownLine_eq {u v : Text} (h : Faithful skipComments text s)
    (hc : Coherent (Index.parse { skipComments } text) s) (he : s.index.entries[i]? = some e)
    (hcov : e.region.Covers text e.line u (s.parsedText i) v) :
    s.shownLine e.line (u ++ s.parsedText i ++ v) = u ++ e.rawText ++ v := by
  unfold shownLine
  rcases hc.replacementAt?_cases e.line with hnone | ⟨j, e', edit, he', hline, hedit, hregion, hnew⟩
  · have hraw : e.rawText = s.parsedText i := by
      refine h.parsed he fun c hmem => ?_
      obtain ⟨j, edit, rfl⟩ := h.updates c hmem
      by_cases hji : j = i
      · obtain ⟨e', description, he', -, hedit⟩ := hc.carries _ hmem
        rw [hji] at he'
        obtain rfl := Option.some.inj (he.symm.trans he')
        have hother := List.find?_eq_none.1 hnone edit
          (List.mem_map.2 ⟨_, hmem, rfl⟩)
        simp [hedit, Entry.line] at hother
      · simp [Change.updates, hji]
    rw [hnone, hraw]
  · obtain rfl : j = i := hc.index_of_line he' he hline
    obtain rfl := Option.some.inj (he.symm.trans he')
    have hcolumn : edit.region.column = u.length := by rw [hregion, hcov.column_eq]
    have hlength : edit.region.length.toNat = (s.parsedText j).length := by
      rw [hregion, hcov.length_eq]
      rfl
    rw [hedit]
    dsimp only
    rw [hcolumn, hlength, hnew, Text.replace_middle]

/-- A line of the script is shown as a line that reads as its entry, or makes no entry and is shown
as it is. -/
theorem Faithful.shown_cases {line : Text} (h : Faithful skipComments text s)
    (hc : Coherent (Index.parse { skipComments } text) s)
    (hline : (Text.lines text)[k]? = some line) :
    (∃ (i : Nat) (e : Entry) (u v : Text), s.index.entries[i]? = some e ∧ e.line = k ∧
      e.region.Covers text k u (s.parsedText i) v ∧ s.shownLine k line = u ++ e.rawText ++ v ∧
      Index.Reads skipComments u e.rawText v e.declaration) ∨
    ((∀ (i : Nat) (e : Entry), s.index.entries[i]? = some e → e.line ≠ k) ∧
      s.shownLine k line = line ∧
      ∀ (new : Text) (j : Nat), (Text.lines new)[j]? = some line →
        Index.entryOn? { skipComments } new j = none) := by
  by_cases hentry : ∃ (i : Nat) (e : Entry), s.index.entries[i]? = some e ∧ e.line = k
  · left
    obtain ⟨i, e, he, rfl⟩ := hentry
    obtain ⟨u, v, hcov, hreads⟩ := h.reads he
    refine ⟨i, e, u, v, he, rfl, hcov, ?_, hreads⟩
    rw [Option.some.inj (hline.symm.trans hcov.line)]
    exact h.shownLine_eq hc he hcov
  · right
    have hother : ∀ (i : Nat) (e : Entry), s.index.entries[i]? = some e → e.line ≠ k :=
      fun i e he hk => hentry ⟨i, e, he, hk⟩
    refine ⟨hother, ?_, ?_⟩
    · unfold shownLine
      rcases hc.replacementAt?_cases k with hnone | ⟨i, e, edit, he, hk, -⟩
      · rw [hnone]
      · exact absurd hk (hother i e he)
    · have hlf := Text.not_mem_of_mem_lines (List.mem_of_getElem? hline)
      rcases Index.reads_or_none skipComments hlf with ⟨u, m, v, d, rfl, hreads⟩ | hnone
      · -- the line makes an entry of the script, and the session has it still
        have hmem :
            (⟨d, Region.onLine (k + 1) (Text.lineStart text k) u.length (u ++ m).length, m⟩ :
              Entry) ∈ (Index.parse { skipComments } text).entries := by
          rw [Index.entries_parse, List.mem_filterMap]
          refine ⟨k, List.mem_range.2 (List.getElem?_eq_some_iff.1 hline).1, ?_⟩
          exact hreads.entryOn?_eq hline
        obtain ⟨i, hi⟩ := List.getElem?_of_mem hmem
        obtain ⟨e, he, hregion⟩ := hc.current hi
        refine absurd ?_ (hother i e he)
        rw [Entry.line, hregion]
        simp [Region.line, Region.onLine]
      · exact hnone

/-! ## The rendered script -/

theorem Faithful.isLineRemoved_eq (h : Faithful skipComments text s) (k : Nat) :
    s.isLineRemoved k = false := by
  refine List.any_eq_false.2 fun a ha => ?_
  have hplace : s.isRemoved a.2 = false := by
    refine List.any_eq_false.2 fun c hmem => ?_
    obtain ⟨i, edit, rfl⟩ := h.updates c hmem
    exact Bool.false_ne_true
  simp [hplace]

theorem Faithful.outputLines_eq (h : Faithful skipComments text s)
    (hc : Coherent (Index.parse { skipComments } text) s) : s.outputLines =
      (List.range (Text.lines text).length).map fun k =>
        s.shownLine k ((Text.lines text).getD k []) := by
  have hnone : s.additions = [] := by
    refine List.filterMap_eq_nil_iff.2 fun c hmem => ?_
    obtain ⟨i, edit, rfl⟩ := h.updates c hmem
    rfl
  have hline : ∀ k, s.outputAt k = [s.shownLine k ((Text.lines text).getD k [])] := by
    intro k
    rw [outputAt, additionsAt, hnone, h.isLineRemoved_eq, hc.lines]
    rfl
  rw [outputLines, outputUpTo, hc.lines, List.map_eq_flatMap]
  exact congrArg (List.flatMap · _) (funext hline)

theorem Faithful.render_eq (h : Faithful skipComments text s)
    (hc : Coherent (Index.parse { skipComments } text) s) : ∃ new, s.render.result = .ok new ∧
      (Text.lines new).length = (Text.lines text).length ∧
      ∀ k line, (Text.lines text)[k]? = some line →
        (Text.lines new)[k]? = some (s.shownLine k line) := by
  have hne : ∀ e ∈ (Index.parse ⟨Kind.all.map Recognizer.ofKind, skipComments⟩ text).entries,
      e.rawText ≠ [] := fun e he => Index.rawText_ne_nil_of_mem_parse he
  have hrender : s.render.result = .ok (Text.joinWith ['\n'] s.outputLines) := by
    refine (hc.render_iff hne).2 ?_
    rintro ⟨k, -, hremoved, -⟩
    rw [h.isLineRemoved_eq] at hremoved
    cases hremoved
  have hplain : ∀ line ∈ s.outputLines, '\n' ∉ line := by
    intro line hline
    rw [h.outputLines_eq hc] at hline
    obtain ⟨k, hk, rfl⟩ := List.mem_map.1 hline
    have hget := List.getElem?_eq_getElem (List.mem_range.1 hk)
    rw [List.getD_eq_getElem?_getD, hget, Option.getD_some]
    rcases h.shown_cases hc hget with ⟨i, e, u, v, -, -, -, hshown, hreads⟩ | ⟨-, hshown, -⟩
    · rw [hshown]
      exact hreads.line
    · rw [hshown]
      exact Text.not_mem_of_mem_lines (List.mem_of_getElem? hget)
  have hlines : Text.lines (Text.joinWith ['\n'] s.outputLines) = s.outputLines := by
    refine Text.lines_joinWith ?_ hplain
    have hpos := Text.length_lines_pos text
    rw [h.outputLines_eq hc, ← List.length_pos_iff, List.length_map, List.length_range]
    exact hpos
  refine ⟨_, hrender, ?_, ?_⟩
  · rw [hlines, h.outputLines_eq hc, List.length_map, List.length_range]
  · intro k line hline
    obtain ⟨hk, rfl⟩ := List.getElem?_eq_some_iff.1 hline
    rw [hlines, h.outputLines_eq hc, List.getElem?_map, List.getElem?_range hk, Option.map_some,
      List.getD_eq_getElem?_getD, hline, Option.getD_some]

/-- Outlines in the order of their lines. -/
def Above (a b : Outline) : Prop := (a.line - 1).toNat < (b.line - 1).toNat

theorem pairwise_above_parse (options : ParseOptions) (text : Text) :
    ((Index.parse options text).entries.map Entry.outline).Pairwise Above :=
  List.pairwise_map.2 (Index.pairwise_line_parse options text)

theorem Coherent.pairwise_above {options : ParseOptions}
    (h : Coherent (Index.parse options text) s) :
    (s.index.entries.map Entry.outline).Pairwise Above := by
  have hregions : (s.index.entries.map (·.region)).Pairwise fun a b => a.line < b.line := by
    rw [h.regions]
    exact List.pairwise_map.2 (Index.pairwise_line_parse options text)
  rw [List.pairwise_map] at hregions ⊢
  exact hregions

theorem Faithful.outlines_eq (h : Faithful skipComments text s)
    (hc : Coherent (Index.parse { skipComments } text) s) {new : Text}
    (hlength : (Text.lines new).length = (Text.lines text).length)
    (hnew : ∀ k line, (Text.lines text)[k]? = some line →
      (Text.lines new)[k]? = some (s.shownLine k line)) :
    (Index.parse { skipComments } new).entries.map Entry.outline =
      s.index.entries.map Entry.outline := by
  have hirrefl : Std.Irrefl Above := ⟨fun a ha => Nat.lt_irrefl _ ha⟩
  have hanti : Std.Antisymm Above := ⟨fun a b hab hba => absurd hab (Nat.lt_asymm hba)⟩
  have hentry : ∀ {i k : Nat} {e : Entry} {u v : Text}, s.index.entries[i]? = some e →
      e.region.Covers text k u (s.parsedText i) v →
      s.shownLine k (u ++ s.parsedText i ++ v) = u ++ e.rawText ++ v →
      Index.Reads skipComments u e.rawText v e.declaration →
      ∃ e', Index.entryOn? { skipComments } new k = some e' ∧ e'.outline = e.outline := by
    intro i k e u v he hcov hshown hreads
    refine ⟨_, hreads.entryOn?_eq (by rw [hnew k _ hcov.line, hshown]), ?_⟩
    unfold Entry.outline
    rw [hcov.region]
    rfl
  refine (pairwise_above_parse _ new).eq_of_mem_iff hc.pairwise_above fun a => ?_
  rw [List.mem_map, List.mem_map]
  constructor
  · rintro ⟨e', he', rfl⟩
    rw [Index.entries_parse, List.mem_filterMap] at he'
    obtain ⟨k, hk, he'⟩ := he'
    rw [List.mem_range, hlength] at hk
    have hget := List.getElem?_eq_getElem hk
    rcases h.shown_cases hc hget with ⟨i, e, u, v, he, -, hcov, hshown, hreads⟩ | ⟨-, hshown, hnone⟩
    · rw [Option.some.inj (hget.symm.trans hcov.line)] at hshown
      obtain ⟨e'', he'', houtline⟩ := hentry he hcov hshown hreads
      rw [he'] at he''
      obtain rfl := Option.some.inj he''
      exact ⟨e, List.mem_of_getElem? he, houtline.symm⟩
    · rw [hnone new k (by rw [hnew k _ hget, hshown])] at he'
      cases he'
  · rintro ⟨e, he, rfl⟩
    obtain ⟨i, he⟩ := List.getElem?_of_mem he
    obtain ⟨u, v, hcov, hreads⟩ := h.reads he
    obtain ⟨e', he', houtline⟩ := hentry he hcov (h.shownLine_eq hc he hcov) hreads
    refine ⟨e', ?_, houtline⟩
    rw [Index.entries_parse, List.mem_filterMap]
    refine ⟨e.line, ?_, he'⟩
    rw [List.mem_range, hlength]
    exact hcov.lt

end

/-- Behind every plain course of requests the script can be rendered, and reading it with all
recognizers gives the declarations that the session shows, each of the same kind, at the same line
and column and with the same text. -/
theorem outlines_render (skipComments : Bool) (editor : EditorOptions) (text : Text)
    (requests : List Request)
    (h : (start (Index.parse { skipComments } text) editor).isPlainCourse requests = true) :
    let s := (start (Index.parse { skipComments } text) editor).afterAll requests
    ∃ new, s.render.result = .ok new ∧
      (Index.parse { skipComments } new).entries.map Entry.outline =
        s.index.entries.map Entry.outline := by
  intro s
  have hfaithful : Faithful skipComments text s :=
    faithful_afterAll (faithful_start skipComments text editor) h
  have hcoherent : Coherent (Index.parse { skipComments } text) s :=
    coherent_afterAll _ editor requests
  obtain ⟨new, hrender, hlength, hnew⟩ := hfaithful.render_eq hcoherent
  exact ⟨new, hrender, hfaithful.outlines_eq hcoherent hlength hnew⟩

/-- A script with a property, a dependency with a version and one without. -/
def releaseScript : Text :=
  "version = '1.0' // current\nimplementation 'a:b:1'\napi(\"a:b\") // as above".toList

/-- Requests that set each of them, one twice. -/
def releaseCourse : List Request :=
  [.setDependencyVersion "a".toList "b".toList "2".toList (some "api".toList),
    .setProperty "version".toList "2.0 // beta".toList,
    .setDependencyVersion "a".toList "b".toList "2-beta".toList none,
    .setProperty "version".toList "2.0".toList]

/-- The release is read as the session shows it. -/
theorem outlines_render_release :
    (start (Index.parse {} releaseScript) {}).isPlainCourse releaseCourse = true ∧
      ∃ new, ((start (Index.parse {} releaseScript) {}).afterAll releaseCourse).render.result =
        .ok new ∧ (Index.parse {} new).entries.map Entry.outline =
          ((start (Index.parse {} releaseScript) {}).afterAll releaseCourse).index.entries.map
            Entry.outline := by
  have hplain : (start (Index.parse {} releaseScript) {}).isPlainCourse releaseCourse = true := by
    decide
  exact ⟨hplain, outlines_render true {} releaseScript releaseCourse hplain⟩

end Session

end BuildScript
