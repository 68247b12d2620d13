import BuildScript.Proofs.Block.Return
import BuildScript.Proofs.Index.Return
import BuildScript.Proofs.Session.Lines
import BuildScript.Proofs.Session.Refusal
/-!
# Sessions in step

A session on a script and one on the same script with carriage returns take the same requests in
step. Their entries are the same but for the offsets, and so are their pending changes; what a
request selects, whether it is refused and why, and what it has to write do not depend on offsets.

**Unplaced changes.** `Change.unplaced` forgets what the ends of the lines have a part in: the
offsets of an update and of an insertion, and the region and the text that a removal deletes. What
is left says what is pending, and on which line.

Results:
* `InStep.ownsLine_eq`, `InStep.usesCalls_eq`: what is asked of a line has the same answer in both
  sessions.
* `InStep.attempt`: a request has the same outcome in both, and leaves them in step.
* `InStep.afterAll`, `InStep.outcomes_eq`: so does a course of requests.
-/
namespace BuildScript

open Text

/-! ## Without offsets -/

/-- A region moved to the beginning of its script. It keeps its line, its columns and its length. -/
def Region.unplaced (r : Region) : Region := r.shift 0 (-r.start)

theorem Region.unplaced_shift (r : Region) (offset : Int) :
    (r.shift 0 offset).unplaced = r.unplaced := by
  have hmoved (n : Int) : n + offset + -(r.first.start + offset) = n + -r.first.start := by omega
  simp only [unplaced, shift, Position.shift, start, Int.add_zero, hmoved]

theorem Region.unplaced_point (line column offset : Int) :
    (point line column offset).unplaced = point line column 0 := by
  simp only [unplaced, shift, Position.shift, start, point, Position.point, Int.add_zero,
    Int.add_right_neg]

@[simp] theorem Region.line_unplaced (r : Region) : r.unplaced.line = r.line := by
  rw [Region.line, Region.line]
  show (r.first.line + 0 - 1).toNat = _
  rw [Int.add_zero]

@[simp] theorem Region.column_unplaced (r : Region) : r.unplaced.column = r.column := rfl

@[simp] theorem Region.length_unplaced (r : Region) : r.unplaced.length = r.length := by
  show r.last.start + -r.start - (r.first.start + -r.start) = r.last.start - r.first.start
  omega

namespace Change

/-- A change without what the ends of the lines have a part in. -/
def unplaced : Change → Change
  | update i edit => update i { edit with region := edit.region.unplaced }
  | insertion edit => insertion { edit with region := edit.region.unplaced }
  | removal i edit => removal i { edit with region := .point 1 1 0, oldText := [] }

@[simp] theorem updates_unplaced (i : Nat) (c : Change) : c.unplaced.updates i = c.updates i := by
  cases c <;> rfl

@[simp] theorem removes_unplaced (i : Nat) (c : Change) : c.unplaced.removes i = c.removes i := by
  cases c <;> rfl

@[simp] theorem addition?_unplaced (c : Change) : c.unplaced.addition? = c.addition? := by
  cases c with
  | update i edit => rfl
  | insertion edit => exact congrArg (fun k => some (k, _)) edit.region.line_unplaced
  | removal i edit => rfl

end Change

namespace Entry

@[simp] theorem declaration_behindReturns (number : Nat) (e : Entry) :
    (e.behindReturns number).declaration = e.declaration := rfl

@[simp] theorem rawText_behindReturns (number : Nat) (e : Entry) :
    (e.behindReturns number).rawText = e.rawText := rfl

@[simp] theorem column_behindReturns (number : Nat) (e : Entry) :
    (e.behindReturns number).region.first.column = e.region.first.column := rfl

@[simp] theorem first_line_behindReturns (number : Nat) (e : Entry) :
    (e.behindReturns number).region.first.line = e.region.first.line := Int.add_zero _

@[simp] theorem line_behindReturns (number : Nat) (e : Entry) :
    (e.behindReturns number).line = e.line := by
  rw [Entry.line, Entry.line, Region.line, Region.line, first_line_behindReturns]

@[simp] theorem length_behindReturns (number : Nat) (e : Entry) :
    (e.behindReturns number).region.length = e.region.length := by
  show e.region.last.start + _ - (e.region.first.start + _) =
    e.region.last.start - e.region.first.start
  omega

theorem unplaced_behindReturns (number : Nat) (e : Entry) :
    (e.behindReturns number).region.unplaced = e.region.unplaced := Region.unplaced_shift _ _

end Entry

namespace Session

/-- Two sessions in step: one on a script, the other on the script with carriage returns, with the
same entries and the same changes pending but for what the ends of the lines have a part in. -/
structure InStep (parsing : ParseOptions) (text : Text) (s s' : Session) : Prop where
  coherent : Coherent (Index.parse parsing text) s
  coherent' : Coherent (Index.parse parsing (crlf text)) s'
  options : s'.options = s.options
  parsedTexts : s'.parsedTexts = s.parsedTexts
  entries : s'.index.entries = s.index.entries.map (Entry.behindReturns 1)
  changes : s'.changes.map Change.unplaced = s.changes.map Change.unplaced

end Session

/-- Two attempts in step: the same outcome, and sessions in step. -/
structure Attempt.InStep (parsing : ParseOptions) (text : Text) (a a' : Attempt) : Prop where
  session : Session.InStep parsing text a.session a'.session
  fault : a'.fault = a.fault
  warnings : a'.warnings = a.warnings

namespace Session

theorem inStep_start (kinds : List Kind) (skipComments : Bool) (text : Text)
    (editor : EditorOptions) :
    InStep ⟨kinds.map Recognizer.ofKind, skipComments⟩ text
      (start (Index.parse ⟨kinds.map Recognizer.ofKind, skipComments⟩ text) editor)
      (start (Index.parse ⟨kinds.map Recognizer.ofKind, skipComments⟩ (crlf text)) editor) := by
  have hentries := Index.entries_parse_crlf kinds skipComments text
  refine ⟨coherent_start _ editor, coherent_start _ editor, rfl, ?_, hentries, rfl⟩
  show List.map _ _ = List.map _ _
  rw [hentries, List.map_map]
  rfl

section
variable {parsing : ParseOptions} {text : Text} {s s' : Session} {e : Entry} {i : Nat}

namespace InStep

/-! ## Selection -/

theorem lines_eq (h : InStep parsing text s s') : s'.index.lines = returned s.index.lines := by
  rw [h.coherent'.lines, h.coherent.lines, Index.parse_lines, Index.parse_lines, lines_crlf]

theorem parsedText_eq (h : InStep parsing text s s') (i : Nat) :
    s'.parsedText i = s.parsedText i := by
  rw [parsedText, parsedText, h.parsedTexts]

theorem isRemoved_eq (h : InStep parsing text s s') (i : Nat) :
    s'.isRemoved i = s.isRemoved i := by
  have hany := congrArg (fun changes => changes.any fun c => c.removes i) h.changes
  simp only [List.any_map, Function.comp_def, Change.removes_unplaced] at hany
  exact hany

theorem remaining_eq (h : InStep parsing text s s') :
    s'.remaining = s.remaining.map fun p => (p.1.behindReturns 1, p.2) := by
  simp only [remaining, h.entries, List.zipIdx_map, List.filter_map, Function.comp_def,
    Prod.map, h.isRemoved_eq, id_eq]
  rfl

theorem mem_remaining (h : InStep parsing text s s') (hmem : (e, i) ∈ s.remaining) :
    (e.behindReturns 1, i) ∈ s'.remaining := by
  rw [h.remaining_eq]
  exact List.mem_map.2 ⟨(e, i), hmem, rfl⟩

theorem dependencyCandidates_eq (h : InStep parsing text s s') (group name : Text)
    (scope : Option Text) : s'.dependencyCandidates group name scope =
      (s.dependencyCandidates group name scope).map fun p => (p.1.behindReturns 1, p.2) := by
  rw [dependencyCandidates, dependencyCandidates, h.remaining_eq, List.filterMap_map,
    List.map_filterMap]
  refine List.filterMap_congr fun p _ => ?_
  obtain ⟨e, i⟩ := p
  dsimp only [Function.comp_apply, Entry.declaration_behindReturns]
  split
  · split <;> rfl
  · rfl

theorem selectDependency_eq (h : InStep parsing text s s') (group name : Text)
    (scope : Option Text) : s'.selectDependency group name scope =
      ((s.selectDependency group name scope).1.map fun p => (p.1.behindReturns 1, p.2),
        (s.selectDependency group name scope).2) := by
  unfold selectDependency
  rw [h.dependencyCandidates_eq]
  cases s.dependencyCandidates group name scope with
  | nil => rfl
  | cons first others =>
    have hscopes (l : List (Entry × Dependency × Nat)) :
        (l.map fun p => (p.1.behindReturns 1, p.2)).map (·.2.1.scope) = l.map (·.2.1.scope) := by
      rw [List.map_map]
      rfl
    have hwarning (scopes : List Text) :
        ambiguityWarning group name (first.1.behindReturns 1, first.2) scopes =
          ambiguityWarning group name first scopes := by
      unfold ambiguityWarning
      rw [Entry.first_line_behindReturns]
    simp only [List.map_cons, hscopes, hwarning, Except.map]

theorem select?_eq {α : Type} (h : InStep parsing text s s') (read : Declaration → Option α) :
    s'.select? read = (s.select? read).map fun p => (p.1.behindReturns 1, p.2) := by
  rw [select?, select?, h.remaining_eq, List.findSome?_map, List.map_findSome?]
  congr 1
  funext p
  obtain ⟨e, i⟩ := p
  show (read e.declaration).map _ = ((read e.declaration).map _).map _
  rw [Option.map_map]
  rfl

/-! ## Recording -/

theorem others_eq (h : InStep parsing text s s') (i : Nat) :
    (s'.changes.filter fun c => !c.updates i).map Change.unplaced =
      (s.changes.filter fun c => !c.updates i).map Change.unplaced := by
  have hfilter := congrArg (List.filter fun c => !c.updates i) h.changes
  simpa only [List.filter_map, Function.comp_def, Change.updates_unplaced] using hfilter

theorem record (h : InStep parsing text s s') (hmem : (e, i) ∈ s.remaining)
    (value : Declaration) (newText description : Text) :
    InStep parsing text (s.record i e value newText description)
      (s'.record i (e.behindReturns 1) value newText description) := by
  refine ⟨coherent_record h.coherent hmem _ _ _,
    coherent_record h.coherent' (h.mem_remaining hmem) _ _ _, h.options, h.parsedTexts, ?_, ?_⟩
  · show s'.index.entries.set i _ = (s.index.entries.set i _).map _
    rw [h.entries, List.map_set]
    rfl
  · by_cases hsame : newText = s.parsedText i
    · rw [changes_record_of_eq hsame, changes_record_of_eq (hsame.trans (h.parsedText_eq i).symm)]
      exact h.others_eq i
    · have hsame' : newText ≠ s'.parsedText i := by rwa [h.parsedText_eq]
      rw [changes_record_of_ne hsame, changes_record_of_ne hsame', List.map_append,
        List.map_append, h.others_eq]
      simp only [List.map_cons, List.map_nil, Change.unplaced, Entry.unplaced_behindReturns,
        h.parsedText_eq]

theorem recordRemoval (h : InStep parsing text s s') (hmem : (e, i) ∈ s.remaining)
    (description : Text) :
    InStep parsing text (s.recordRemoval i (lineRemoval s.index.text e.line description))
      (s'.recordRemoval i (lineRemoval s'.index.text e.line description)) := by
  have hright := coherent_recordRemoval h.coherent' (h.mem_remaining hmem) description
  rw [Entry.line_behindReturns] at hright
  refine ⟨coherent_recordRemoval h.coherent hmem description, hright, h.options, h.parsedTexts,
    h.entries, ?_⟩
  show (_ ++ [_]).map _ = (_ ++ [_]).map _
  rw [List.map_append, List.map_append, h.others_eq]
  rfl

theorem recordInsertion {k : Nat} (h : InStep parsing text s s') (hpos : 0 < k)
    (hk : k < s.index.lines.length) (declaration description : Text) :
    InStep parsing text
      (s.recordInsertion (lineInsertion s.index.text k declaration description))
      (s'.recordInsertion (lineInsertion s'.index.text k declaration description)) := by
  have hk' : k < s'.index.lines.length := by rwa [h.lines_eq, length_returned]
  refine ⟨coherent_recordInsertion h.coherent hpos hk _ _,
    coherent_recordInsertion h.coherent' hpos hk' _ _, h.options, h.parsedTexts, h.entries, ?_⟩
  show (_ ++ [_]).map _ = (_ ++ [_]).map _
  rw [List.map_append, List.map_append, h.changes]
  simp only [List.map_cons, List.map_nil, Change.unplaced, lineInsertion, Region.unplaced_point]

theorem clear (h : InStep parsing text s s') : InStep parsing text s.clear s'.clear :=
  ⟨coherent_step h.coherent (.clear rfl), coherent_step h.coherent' (.clear rfl), h.options,
    h.parsedTexts, h.entries, rfl⟩

/-! ## Lines -/

theorem lineText_eq (h : InStep parsing text s s') (number : Int) :
    ∃ r, s'.index.lineText number = s.index.lineText number ++ r ∧ IsReturn r := by
  unfold Index.lineText
  split
  · exact ⟨[], rfl, Or.inl rfl⟩
  · rw [h.lines_eq]
    exact getD_returned _ _

theorem lineText_cut (h : InStep parsing text s s') (he : s.index.entries[i]? = some e) :
    ∃ u m v, s.index.lineText e.region.first.line = u ++ m ++ v ∧
      e.region.first.column - 1 = u.length ∧ e.region.length = m.length := by
  obtain ⟨u, v, hcov⟩ := h.coherent.covers he
  have hline : e.region.first.line = (e.line + 1 : Nat) := congrArg (·.first.line) hcov.region
  have hcolumn : e.region.first.column = u.length + 1 := congrArg (·.first.column) hcov.region
  refine ⟨u, s.parsedText i, v, ?_, by omega, hcov.length_eq⟩
  have hnumber : (e.region.first.line - 1).toNat = e.line := by omega
  rw [Index.lineText, if_neg (by omega), hnumber, h.coherent.lines, Index.parse_lines,
    List.getD_eq_getElem?_getD, hcov.line]
  rfl

theorem ownsLine_eq (h : InStep parsing text s s') (he : s.index.entries[i]? = some e)
    (d : Dependency) : s'.ownsLine (e.behindReturns 1) d = s.ownsLine e d := by
  obtain ⟨u, m, v, hline, hcolumn, hlength⟩ := h.lineText_cut he
  obtain ⟨r, hline', hr⟩ := h.lineText_eq e.region.first.line
  obtain ⟨r', hbefore, hr'⟩ := beforeComment_return hr v
  have hfront : slice (u ++ m ++ v ++ r) 0 u.length = slice (u ++ m ++ v) 0 u.length := by
    simp only [List.append_assoc, slice_front]
  have hbehind : (u ++ m ++ v ++ r).drop (u ++ m).length = v ++ r := by
    rw [List.append_assoc (u ++ m), List.drop_left]
  have hplace : ((u.length : Int) + m.length).toNat = (u ++ m).length := by
    rw [List.length_append]
    omega
  unfold ownsLine
  rw [Entry.first_line_behindReturns, Entry.column_behindReturns, Entry.length_behindReturns,
    hline', hline, hcolumn, hlength]
  dsimp only
  rw [hfront, hplace, hbehind, List.drop_left, hbefore, trim_return hr']

theorem usesCalls_eq (h : InStep parsing text s s') : s'.usesCalls = s.usesCalls := by
  have hfind (p : Entry → Bool) (hp : ∀ e, p (e.behindReturns 1) = p e) :
      s'.index.entries.find? p = (s.index.entries.find? p).map (Entry.behindReturns 1) := by
    rw [h.entries, List.find?_map]
    simp only [Function.comp_def, hp]
  unfold usesCalls
  dsimp only
  rw [hfind _ fun _ => rfl, hfind _ fun _ => rfl]
  split
  · next e hcoordinate =>
    obtain ⟨e₀, hfirst, rfl⟩ := Option.map_eq_some_iff.1 hcoordinate
    obtain ⟨i, hi⟩ := List.getElem?_of_mem (List.mem_of_find?_eq_some hfirst)
    obtain ⟨u, m, v, hline, hcolumn, -⟩ := h.lineText_cut hi
    obtain ⟨r, hline', -⟩ := h.lineText_eq e₀.region.first.line
    rw [hfirst]
    dsimp only
    rw [Entry.first_line_behindReturns, Entry.column_behindReturns, hline', hline, hcolumn]
    simp only [List.append_assoc, slice_front]
  · next hnone =>
    rw [Option.map_eq_none_iff.1 hnone]
    dsimp only
    cases s.index.entries.find? fun entry => entry.kind = .plugin <;> rfl

/-! ## Requests -/

theorem setDependencyVersion (h : InStep parsing text s s') (group name version : Text)
    (scope : Option Text) :
    Attempt.InStep parsing text (s.setDependencyVersion group name version scope)
      (s'.setDependencyVersion group name version scope) := by
  unfold Session.setDependencyVersion
  rw [h.selectDependency_eq]
  cases hsel : s.selectDependency group name scope with
  | mk selected warnings =>
    cases selected with
    | error fault => exact ⟨h, rfl, rfl⟩
    | ok found =>
      obtain ⟨e, d, i⟩ := found
      dsimp only [Except.map]
      split
      · exact ⟨h, rfl, rfl⟩
      · exact ⟨h.record (selectDependency_spec (congrArg Prod.fst hsel)).1 _ _ _, rfl, rfl⟩

theorem setPluginVersion (h : InStep parsing text s s') (id version : Text) :
    Attempt.InStep parsing text (s.setPluginVersion id version)
      (s'.setPluginVersion id version) := by
  unfold Session.setPluginVersion
  rw [h.select?_eq]
  cases hsel : s.select? fun d => d.plugin?.filter (·.id = id) with
  | none => exact ⟨h, rfl, rfl⟩
  | some found =>
    obtain ⟨e, p, i⟩ := found
    dsimp only [Option.map_some, Entry.rawText_behindReturns]
    split
    · exact ⟨h, rfl, rfl⟩
    · cases Plugin.setVersion? e.rawText version with
      | none => exact ⟨h, rfl, rfl⟩
      | some newText => exact ⟨h.record (select?_spec hsel).1 _ _ _, rfl, rfl⟩

theorem setProperty (h : InStep parsing text s s') (key value : Text) :
    Attempt.InStep parsing text (s.setProperty key value) (s'.setProperty key value) := by
  unfold Session.setProperty
  rw [h.select?_eq]
  cases hsel : s.select? fun d => d.property?.filter (·.key = key) with
  | none => exact ⟨h, rfl, rfl⟩
  | some found =>
    obtain ⟨e, p, i⟩ := found
    dsimp only [Option.map_some, Entry.rawText_behindReturns]
    split
    · exact ⟨h, rfl, rfl⟩
    · exact ⟨h.record (select?_spec hsel).1 _ _ _, rfl, rfl⟩

theorem setRepositoryUrl (h : InStep parsing text s s') (name url : Text) :
    Attempt.InStep parsing text (s.setRepositoryUrl name url) (s'.setRepositoryUrl name url) := by
  unfold Session.setRepositoryUrl
  rw [h.select?_eq]
  cases hsel : s.select? fun d => d.repository?.filter fun r => r.name = name && r.url != [] with
  | none => exact ⟨h, rfl, rfl⟩
  | some found =>
    obtain ⟨e, r, i⟩ := found
    dsimp only [Option.map_some, Entry.rawText_behindReturns]
    split
    · exact ⟨h, rfl, rfl⟩
    · exact ⟨h.record (select?_spec hsel).1 _ _ _, rfl, rfl⟩

theorem removeDependency (h : InStep parsing text s s') (group name : Text)
    (scope : Option Text) :
    Attempt.InStep parsing text (s.removeDependency group name scope)
      (s'.removeDependency group name scope) := by
  unfold Session.removeDependency
  rw [h.selectDependency_eq]
  cases hsel : s.selectDependency group name scope with
  | mk selected warnings =>
    cases selected with
    | error fault => exact ⟨h, rfl, rfl⟩
    | ok found =>
      obtain ⟨e, d, i⟩ := found
      have hmem := (selectDependency_spec (congrArg Prod.fst hsel)).1
      dsimp only [Except.map]
      rw [h.ownsLine_eq (Session.mem_remaining hmem).1, Entry.first_line_behindReturns]
      split
      · exact ⟨h.recordRemoval hmem _, rfl, rfl⟩
      · exact ⟨h, rfl, rfl⟩

theorem insertInto {block : Text} (h : InStep parsing text s s')
    (hblock : block.getLast?.any (!isBlank ·) = true) (declaration description : Text) :
    Attempt.InStep parsing text (s.insertInto block declaration description)
      (s'.insertInto block declaration description) := by
  unfold Session.insertInto
  rw [h.lines_eq, Block.closingLine_returned hblock, h.options]
  cases hclosing : Block.closingLine block s.index.lines with
  | error fault => exact ⟨h, rfl, rfl⟩
  | ok k =>
    exact ⟨h.recordInsertion (Block.pos_of_closingLine hclosing)
      (Block.lt_of_closingLine hclosing) (s.options.indent ++ declaration) description, rfl, rfl⟩

/-- A request has the same outcome in sessions in step, and leaves them in step. -/
theorem attempt (h : InStep parsing text s s') (r : Request) :
    Attempt.InStep parsing text (s.attempt r) (s'.attempt r) := by
  cases r with
  | setDependencyVersion group name version scope =>
    exact h.setDependencyVersion group name version scope
  | setPluginVersion id version => exact h.setPluginVersion id version
  | setProperty key value => exact h.setProperty key value
  | setRepositoryUrl name url => exact h.setRepositoryUrl name url
  | addDependency group name version scope =>
    show Attempt.InStep parsing text (s.addDependency group name version scope)
      (s'.addDependency group name version scope)
    unfold addDependency marked
    rw [h.usesCalls_eq, h.options]
    exact h.insertInto (by decide) _ _
  | addPlugin id version =>
    show Attempt.InStep parsing text (s.addPlugin id version) (s'.addPlugin id version)
    unfold addPlugin marked
    rw [h.usesCalls_eq, h.options]
    exact h.insertInto (by decide) _ _
  | addRepository nameOrUrl =>
    show Attempt.InStep parsing text (s.addRepository nameOrUrl) (s'.addRepository nameOrUrl)
    unfold addRepository marked
    rw [h.usesCalls_eq, h.options]
    split
    · exact h.insertInto (by decide) _ _
    · exact h.insertInto (by decide) _ _
  | removeDependency group name scope => exact h.removeDependency group name scope
  | clear => exact ⟨h.clear, rfl, rfl⟩

theorem afterAll (h : InStep parsing text s s') (requests : List Request) :
    InStep parsing text (s.afterAll requests) (s'.afterAll requests) := by
  induction requests generalizing s s' with
  | nil => exact h
  | cons r rs ih => exact ih (h.attempt r).session

/-- In sessions in step a course of requests is refused at the same places and for the same reasons,
with the same warnings. -/
theorem outcomes_eq (h : InStep parsing text s s') (requests : List Request) :
    (s'.attempts requests).map (fun a => (a.fault, a.warnings)) =
      (s.attempts requests).map fun a => (a.fault, a.warnings) := by
  induction requests generalizing s s' with
  | nil => rfl
  | cons r rs ih =>
    have hattempt := h.attempt r
    rw [attempts, attempts, List.map_cons, List.map_cons, hattempt.fault, hattempt.warnings]
    exact congrArg _ (ih hattempt.session)

end InStep

end

end Session

end BuildScript
