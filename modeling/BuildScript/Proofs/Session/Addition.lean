import BuildScript.Session.Request
import BuildScript.Proofs.Declaration.Written
import BuildScript.Proofs.Index.Reading
import BuildScript.Proofs.Index.Shift
import BuildScript.Proofs.Session.Single
/-!
# Adding a declaration

On a script as it was parsed and with the default options, an addition puts one line into its
block. Reading the script again finds on that line what was asked for, and on the other lines what
they declared before. What is asked for must be such that it can be told from the marks that it is
written in, and that no recognizer tried earlier takes the line for something else.

Results:
* `writes_of_isPlainAddition`: an addition inserts a line that reads as what it declares.
* `added_alone`: what is rendered and read again behind an addition.
-/
namespace BuildScript

open Text

namespace Request

/-! ## Additions -/

/-- Whether a request adds a declaration that is read back as it was asked for. -/
def isPlainAddition : Request → Bool
  | addDependency group name version scope =>
    group != [] && name != [] && (group ++ name ++ version).all Coordinate.isGroupChar &&
      !startsWith "//".toList name && !startsWith "//".toList version &&
      scope.all fun scope => scope = [] || Dependency.isScope scope
  | addPlugin id version =>
    id != [] && (id ++ version).all fun c => !isQuote c && c != ':' && c != '\n'
  | addRepository nameOrUrl =>
    nameOrUrl ∈ Repository.wellKnown || (Repository.isAddress nameOrUrl &&
      nameOrUrl.all fun c => !isQuote c && !isBlank c && c != '(' && c != ')')
  | _ => false

/-- The scope that a dependency is asked for in, or the default one. -/
def scopeOrDefault (scope : Option Text) : Text :=
  (scope.filter (· != [])).getD "implementation".toList

/-- What an addition asks for, as declared by the text `raw`. -/
def declared? (raw : Text) : Request → Option Declaration
  | addDependency group name version scope =>
    some (.dependency ⟨group, name, version, scopeOrDefault scope, raw⟩)
  | addPlugin id version => some (.plugin ⟨id, version, true⟩)
  | addRepository nameOrUrl =>
    if nameOrUrl ∈ Repository.wellKnown then
      some (.repository ⟨nameOrUrl, "maven".toList, []⟩)
    else some (.repository ⟨Repository.nameOfUrl nameOrUrl, "maven".toList, nameOrUrl⟩)
  | _ => none

end Request

namespace Index

/-! ## The lines of additions -/

theorem reads_dependency (calls : Bool) {scope body : Text} {c : Coordinate}
    (hscope : Dependency.isScope scope = true)
    (h : Coordinate.Quotes (Style.ofCalls calls).mark body c) :
    let style := Style.ofCalls calls
    Reads true (indent ++ scope ++ [style.opening]) (style.quote body) style.closing
      (.dependency ⟨c.group, c.name, c.version, scope, style.quote body⟩) := by
  intro style
  have hall : Kind.all = [.property] ++ .dependency :: [.plugin, .repository, .task] := rfl
  refine Reads.of_find? hall ?_ ?_ ?_ ?_
  · have hbody : '\n' ∉ body := fun hmem => absurd (h.plain _ hmem) (by decide)
    have hscope' : '\n' ∉ scope := fun hmem =>
      absurd (Dependency.isWord_of_mem_scope hscope hmem) (by decide)
    cases calls <;> simp [style, Style.ofCalls, Style.quote, indent, hbody, hscope']
  · cases scope with
    | nil => cases hscope
    | cons a w =>
      have hstart : isIdentifierStart a = true := by
        simp only [Dependency.isScope, Bool.and_eq_true] at hscope
        exact hscope.1.1
      have hline : indent ++ a :: w ++ [style.opening] ++ style.quote body ++ style.closing =
          indent ++ a :: (w ++ style.opening :: (style.quote body ++ style.closing)) := by
        simp
      rw [hline]
      exact isSkipped_of_word isBlank_of_mem_indent hstart _ true
  · refine List.forall_mem_singleton.2 ?_
    exact Option.map_eq_none_iff.2
      (Dependency.property?_written calls isBlank_of_mem_indent hscope body)
  · exact Option.map_eq_some_iff.2
      ⟨_, Dependency.find?_written calls isBlank_of_mem_indent hscope h, rfl⟩

theorem reads_plugin (calls : Bool) {id version : Text} (hid : id ≠ [])
    (hplain : ∀ c ∈ id ++ version, isQuote c = false ∧ c ≠ ':' ∧ c ≠ '\n') :
    Reads true indent (Plugin.written (Style.ofCalls calls) id version) []
      (.plugin ⟨id, version, true⟩) := by
  have hall : Kind.all = [.property, .dependency] ++ .plugin :: [.repository, .task] := rfl
  have hlf : '\n' ∉ id ++ version := fun hmem => (hplain _ hmem).2.2 rfl
  obtain ⟨hproperty, hdependency⟩ :=
    Plugin.others_written calls fun hmem => (hplain _ hmem).2.1 rfl
  refine Reads.of_find? hall ?_ ?_ ?_ ?_ <;> rw [List.append_nil]
  · have hindent : '\n' ∉ indent := by decide
    rw [List.mem_append]
    exact not_or.2 ⟨hindent, Plugin.not_mem_written calls (by decide) hlf⟩
  · exact isSkipped_of_word isBlank_of_mem_indent rfl _ true
  · simp [Declaration.find?, hproperty, hdependency]
  · exact Option.map_eq_some_iff.2
      ⟨_, Plugin.find?_written calls hid fun c hc => (hplain c hc).1, rfl⟩

theorem reads_repository (calls : Bool) {url : Text} (haddress : Repository.isAddress url = true)
    (hplain : ∀ c ∈ url, isQuote c = false ∧ isBlank c = false ∧ c ≠ '(' ∧ c ≠ ')') :
    Reads true Repository.front (Repository.written calls url) Repository.back
      (.repository ⟨Repository.nameOfUrl url, "maven".toList, url⟩) := by
  have hall : Kind.all = [.property, .dependency, .plugin] ++ .repository :: [.task] := rfl
  have hquotes : ∀ c ∈ url, isQuote c = false := fun c hc => (hplain c hc).1
  have hparen : '(' ∉ url := fun hmem => (hplain _ hmem).2.2.1 rfl
  have hlf : '\n' ∉ url := fun hmem => absurd (hplain _ hmem).2.1 (by decide)
  obtain ⟨hproperty, hdependency, hplugin⟩ :=
    Repository.others_written calls haddress hquotes hparen
  refine Reads.of_find? hall ?_ ?_ ?_ ?_
  · rw [Repository.line_written]
    cases calls <;> simp [Repository.front, Repository.back, Repository.addressOpening,
      Style.ofCalls, indent, hlf]
  · have hline : Repository.front ++ Repository.written calls url ++ Repository.back =
        indent ++ 'm' :: ("aven \x7b ".toList ++ Repository.written calls url ++
          Repository.back) := by
      simp [Repository.front]
    rw [hline]
    exact isSkipped_of_word isBlank_of_mem_indent rfl _ true
  · simp only [Declaration.find?, hproperty, hdependency, hplugin, Option.map_none, implies_true,
      List.forall_mem_cons, List.not_mem_nil, false_imp_iff, and_self]
  · exact Option.map_eq_some_iff.2
      ⟨_, Repository.find?_written calls haddress hquotes hparen, rfl⟩

theorem reads_wellKnown : ∀ name ∈ Repository.wellKnown,
    Reads true indent (name ++ ['(', ')']) [] (.repository ⟨name, "maven".toList, []⟩) := by
  intro name hname
  have hline : ∀ name ∈ Repository.wellKnown, '\n' ∉ indent ++ (name ++ ['(', ')']) ++ [] ∧
      isSkipped true (indent ++ (name ++ ['(', ')']) ++ []) = false ∧
      Recognizer.firstSighting? Recognizer.default (indent ++ (name ++ ['(', ')']) ++ []) =
        some ⟨.repository ⟨name, "maven".toList, []⟩, indent.length,
          (indent ++ (name ++ ['(', ')'])).length, name ++ ['(', ')']⟩ := by
    decide
  obtain ⟨hlf, hread, hsight⟩ := hline name hname
  exact ⟨hlf, hread, hsight⟩

theorem Reads.entryOfLine?_eq {skipComments : Bool} {u m v : Text} {d : Declaration}
    (h : Reads skipComments u m v d) (number start : Nat) :
    entryOfLine? { skipComments } number start (u ++ m ++ v) =
      some ⟨d, Region.onLine number start u.length (u ++ m).length, m⟩ := by
  rw [entryOfLine?, h.read, if_neg Bool.false_ne_true, h.sighting, Option.bind_some,
    Entry.ofSighting?_cut]

end Index

namespace Session

/-- An addition inserts a line that reads as what it asks for. -/
def Writes (s : Session) (r : Request) : Prop :=
  ∃ block declaration description u m v d,
    s.attempt r = s.insertInto block declaration description ∧
    s.options.indent ++ declaration = u ++ m ++ v ∧ Index.Reads true u m v d ∧
    r.declared? m = some d

variable {s : Session}

theorem addDependency_eq (hoptions : s.options = {}) (group name version : Text)
    (scope : Option Text) : s.addDependency group name version scope =
      s.addDependency group name version (some (Request.scopeOrDefault scope)) := by
  unfold addDependency
  rw [hoptions]
  cases scope with
  | none => rfl
  | some asked =>
    by_cases hempty : asked = []
    · rw [hempty]
      rfl
    · rw [Request.scopeOrDefault, Option.filter_some, if_pos (bne_iff_ne.2 hempty)]
      rfl

theorem isScope_scopeOrDefault {scope : Option Text}
    (h : scope.all fun scope => scope = [] || Dependency.isScope scope) :
    Dependency.isScope (Request.scopeOrDefault scope) = true := by
  cases scope with
  | none => decide
  | some asked =>
    by_cases hempty : asked = []
    · rw [hempty]
      decide
    · rw [Request.scopeOrDefault, Option.filter_some, if_pos (bne_iff_ne.2 hempty)]
      simpa [hempty] using h

theorem quotes_coordinate {mark : Char} (hmark : isQuote mark = true) {group name version : Text}
    (hgroup : group ≠ []) (hname : name ≠ [])
    (hchars : ∀ f ∈ [group, name, version], ∀ c ∈ f, Coordinate.isGroupChar c = true)
    (hslashes : ∀ f ∈ [name, version], startsWith "//".toList f = false) :
    Coordinate.Quotes mark (joinWith [':'] ([group, name, version].filter (· != [])))
      ⟨group, name, version⟩ := by
  have hparts : [group, name, version].filter (· != []) =
      group :: name :: [version].filter (· != []) := by
    simp [hgroup, hname]
  have hversion : ([version].filter (· != [])).headD [] = version := by
    by_cases hempty : version = [] <;> simp [hempty]
  have hsub (f g : Text) (fs : List Text) (hg : g ∈ f :: fs.filter (· != [])) : g ∈ f :: fs :=
    (List.filter_sublist.cons_cons f).subset hg
  have hquotes := Coordinate.Quotes.of_fields hmark hgroup hname
    (fun f hf => hchars f (by
      rcases List.mem_cons.1 hf with rfl | hf
      · exact List.mem_cons_self
      · exact List.mem_cons_of_mem group (hsub name f [version] hf)))
    (fun f hf => hslashes f (hsub name f [version] hf))
  rw [hversion] at hquotes
  rw [hparts]
  exact hquotes

theorem writes_addDependency (hoptions : s.options = {}) {group name version : Text}
    {scope : Option Text} (h : (Request.addDependency group name version scope).isPlainAddition) :
    s.Writes (.addDependency group name version scope) := by
  simp only [Request.isPlainAddition, Bool.and_eq_true, bne_iff_ne, List.all_append,
    List.all_eq_true, Bool.not_eq_true'] at h
  obtain ⟨⟨⟨⟨⟨hgroup, hname⟩, ⟨hgroup', hname'⟩, hversion'⟩, hslashes⟩, hslashes'⟩, hscope⟩ := h
  have hasked := isScope_scopeOrDefault hscope
  have hne : Request.scopeOrDefault scope ≠ [] := by
    intro e
    rw [e] at hasked
    cases hasked
  have hchars : ∀ f ∈ [group, name, version], ∀ c ∈ f, Coordinate.isGroupChar c = true := by
    simpa using ⟨hgroup', hname', hversion'⟩
  have hno : ∀ f ∈ [name, version], startsWith "//".toList f = false := by
    simpa using ⟨hslashes, hslashes'⟩
  have hcoordinate :=
    quotes_coordinate (Style.isQuote_mark s.usesCalls) hgroup hname hchars hno
  refine ⟨"dependencies".toList, _, _, _, _, _, _, addDependency_eq hoptions _ _ _ _, ?_,
    Index.reads_dependency s.usesCalls hasked hcoordinate, rfl⟩
  dsimp only
  rw [if_neg hne]
  cases s.usesCalls <;>
    simp [hoptions, Style.ofCalls, Style.quote, indent, marked, doubleQuoted]

theorem writes_addPlugin (hoptions : s.options = {}) {id version : Text}
    (h : (Request.addPlugin id version).isPlainAddition) : s.Writes (.addPlugin id version) := by
  simp only [Request.isPlainAddition, Bool.and_eq_true, bne_iff_ne, List.all_eq_true,
    Bool.not_eq_true', and_assoc] at h
  refine ⟨"plugins".toList, _, _, _, _, _, _, rfl, ?_,
    Index.reads_plugin s.usesCalls h.1 h.2, rfl⟩
  by_cases hempty : version = [] <;> cases s.usesCalls <;>
    simp [hoptions, hempty, Plugin.written, Plugin.clause, Style.ofCalls, Style.quote, indent,
      marked, doubleQuoted]

theorem writes_addRepository (hoptions : s.options = {}) {nameOrUrl : Text}
    (h : (Request.addRepository nameOrUrl).isPlainAddition) :
    s.Writes (.addRepository nameOrUrl) := by
  by_cases hknown : nameOrUrl ∈ Repository.wellKnown
  · refine ⟨"repositories".toList, _, _, _, _, _, _, if_pos hknown, ?_,
      Index.reads_wellKnown nameOrUrl hknown, if_pos hknown⟩
    rw [hoptions, List.append_nil]
    rfl
  · simp only [Request.isPlainAddition, Bool.or_eq_true, decide_eq_true_eq, hknown, false_or,
      Bool.and_eq_true, bne_iff_ne, List.all_eq_true, Bool.not_eq_true', and_assoc] at h
    refine ⟨"repositories".toList, _, _, _, _, _, _, if_neg hknown, ?_,
      Index.reads_repository s.usesCalls h.1 h.2, if_neg hknown⟩
    cases s.usesCalls <;>
      simp [hoptions, Repository.front, Repository.back, Repository.written,
        Repository.addressOpening, Style.ofCalls, Style.quote, indent, marked, doubleQuoted]

theorem writes_of_isPlainAddition (hoptions : s.options = {}) {r : Request}
    (h : r.isPlainAddition) : s.Writes r := by
  cases r with
  | addDependency => exact writes_addDependency hoptions h
  | addPlugin => exact writes_addPlugin hoptions h
  | addRepository => exact writes_addRepository hoptions h
  | _ => cases h

/-! ## Added lines read again -/

/-- An insertion that is carried out puts a line in front of the one that closes the block. -/
theorem insertInto_spec {block declaration description : Text}
    (h : (s.insertInto block declaration description).fault = none) :
    ∃ k, Block.closingLine block s.index.lines = .ok k ∧
      (s.insertInto block declaration description).session = s.recordInsertion
        (lineInsertion s.index.text k (s.options.indent ++ declaration) description) := by
  unfold insertInto at h ⊢
  split
  · next hclosing =>
    rw [hclosing] at h
    cases h
  · next k hclosing => exact ⟨k, hclosing, rfl⟩

/-- An addition on a script as parsed puts one line into it. Reading the rendered script finds the
declarations that stood above that line, then what was asked for, on that line, and then the other
declarations as they were, a line further down. -/
theorem added_alone (text : Text) (r : Request) (hplain : r.isPlainAddition = true)
    (hfault : ((start (Index.parse {} text) {}).attempt r).fault = none) :
    let base := Index.parse {} text
    let s := (start base {}).after r
    ∃ before after e edit new,
      base.inOrder = before ++ after ∧ s.edits = [edit] ∧ s.render.result = .ok new ∧
      (∀ e' ∈ before, e'.region.first.line < edit.region.first.line) ∧
      (∀ e' ∈ after, edit.region.first.line ≤ e'.region.first.line) ∧
      e.region.first.line = edit.region.first.line ∧
      r.declared? e.rawText = some e.declaration ∧
      (Index.parse {} new).inOrder =
        before ++ e :: after.map (Entry.shift 1 edit.newText.length) := by
  intro base s
  obtain ⟨block, declaration, description, u, m, v, d, hattempt, hline, hreads, hdeclared⟩ :=
    writes_of_isPlainAddition (s := start base {}) rfl hplain
  rw [hattempt] at hfault
  obtain ⟨k, hclosing, hsession⟩ := insertInto_spec hfault
  rw [← hattempt, hline] at hsession
  have hs : s = (start base {}).recordInsertion (lineInsertion text k (u ++ m ++ v) description) :=
    hsession
  have hk : k < (Text.lines text).length := Block.lt_of_closingLine hclosing
  have hrender : s.render.result = .ok (Text.joinWith ['\n']
      ((Text.lines text).take k ++ (u ++ m ++ v) :: (Text.lines text).drop k)) := by
    rw [hs]
    exact replay_lineInsertion hk (u ++ m ++ v) description
  obtain ⟨before, after, offset, hold, hbefore, hafter, hnew⟩ :=
    Index.entries_parse_insert {} hreads.line (Nat.le_of_lt hk)
  have hnewText : ((u ++ m ++ v).length : Int) + 1 =
      (lineInsertion text k (u ++ m ++ v) description).newText.length := by
    simp only [lineInsertion, List.length_append, List.length_singleton]
    omega
  rw [hreads.entryOfLine?_eq, hnewText, Option.toList_some, List.singleton_append] at hnew
  refine ⟨before, after, ⟨d, _, m⟩, lineInsertion text k (u ++ m ++ v) description, _,
    (Index.inOrder_parse _ _).trans hold, by rw [hs]; rfl, hrender, hbefore, hafter, ?_, hdeclared,
    (Index.inOrder_parse _ _).trans hnew⟩
  rfl

/-- A script that declares its dependencies by calls. -/
def callScript : Text := "dependencies \x7b\n    api(\"a:b:1\")\n\x7d\nversion = '1'".toList

/-- A dependency added to it is written as a call, and found behind the others. -/
theorem added_alone_callScript : (Request.addDependency "c".toList "d".toList "2".toList
      none).isPlainAddition = true ∧
    ((start (Index.parse {} callScript) {}).attempt
      (.addDependency "c".toList "d".toList "2".toList none)).fault = none ∧
    let base := Index.parse {} callScript
    let s := (start base {}).after (.addDependency "c".toList "d".toList "2".toList none)
    ∃ before after e edit new,
      base.inOrder = before ++ after ∧ s.edits = [edit] ∧ s.render.result = .ok new ∧
      (∀ e' ∈ before, e'.region.first.line < edit.region.first.line) ∧
      (∀ e' ∈ after, edit.region.first.line ≤ e'.region.first.line) ∧
      e.region.first.line = edit.region.first.line ∧
      (Request.addDependency "c".toList "d".toList "2".toList none).declared? e.rawText =
        some e.declaration ∧
      (Index.parse {} new).inOrder =
        before ++ e :: after.map (Entry.shift 1 edit.newText.length) :=
  ⟨by decide, by decide, added_alone callScript _ (by decide) (by decide)⟩

end Session

end BuildScript
