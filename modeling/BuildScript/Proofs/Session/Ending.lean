import BuildScript.Proofs.Session.OneLine
import BuildScript.Proofs.Session.Rendering
import BuildScript.Proofs.Session.Return
/-!
# What is rendered with carriage returns

Of two sessions in step the one on the script with carriage returns writes the same lines, and a
carriage return behind those that are lines of the script other than the last. A line that is added
gets none. So the script that is rendered has carriage returns at the ends of all its lines but the
last one just when these lines are what is kept of the script in front of its last line, and what
stands behind them is not.

Results:
* `InStep.shownLine_eq`, `InStep.outputLines_eq`: the lines written by sessions in step.
* `InStep.clash_iff`: both render their lines, or neither does.
* `render_crlf`: when the script rendered has the endings of the script that the session is on.
* `render_crlf_added`: a line that is added without a carriage return.
-/
namespace BuildScript

open Text

/-- What an edit does to a line if it is a replacement on that line: the column where it begins, the
number of characters it takes, and the text it puts there. -/
def Edit.patchOn? (edit : Edit) (k : Nat) : Option (Nat × Int × Text) :=
  if edit.kind = .replace && edit.region.line = k then
    some (edit.region.column, edit.region.length, edit.newText)
  else none

namespace Session

/-! ## Lines and their endings -/

/-- The lines to be written for a line of the script, each with whether it is a line of the script
that another one follows there. -/
def endedAt (s : Session) (k : Nat) : List (Text × Bool) :=
  (s.additionsAt k).map (fun declaration => (declaration, false)) ++
    if s.isLineRemoved k then []
    else [(s.shownLine k (s.index.lines.getD k []), decide (k + 1 < s.index.lines.length))]

/-- The lines to be written for the first lines of the script, with their endings. -/
def endedUpTo (s : Session) (k : Nat) : List (Text × Bool) := (List.range k).flatMap s.endedAt

def endedLines (s : Session) : List (Text × Bool) := s.endedUpTo s.index.lines.length

/-- A line with a carriage return at its end if it is a line of the script that another follows. -/
def withReturn (line : Text × Bool) : Text := if line.2 then line.1 ++ ['\r'] else line.1

@[simp] theorem withReturn_true (line : Text) : withReturn (line, true) = line ++ ['\r'] := rfl

@[simp] theorem withReturn_false (line : Text) : withReturn (line, false) = line := rfl

/-- The endings of a script are kept: it has one line, or nothing is to be added and its last line
stays, or a single line takes the place of its last line. -/
def KeepsEndings (s : Session) : Prop :=
  let last := s.index.lines.length - 1
  last = 0 ∨ (s.additions = [] ∧ s.isLineRemoved last = false) ∨
    ((∃ declaration, s.additions = [(last, declaration)]) ∧ s.isLineRemoved last = true)

theorem endedUpTo_succ (s : Session) (k : Nat) :
    s.endedUpTo (k + 1) = s.endedUpTo k ++ s.endedAt k := by
  simp [endedUpTo, List.range_succ]

theorem map_fst_endedAt (s : Session) (k : Nat) : (s.endedAt k).map (·.1) = s.outputAt k := by
  have hadditions : ((s.additionsAt k).map fun declaration => (declaration, false)).map (·.1) =
      s.additionsAt k := by
    rw [List.map_map]
    exact List.map_id _
  rw [endedAt, outputAt, List.map_append, hadditions]
  split <;> rfl

theorem map_fst_endedLines (s : Session) : s.endedLines.map (·.1) = s.outputLines := by
  rw [endedLines, endedUpTo, outputLines, outputUpTo, List.map_flatMap]
  exact congrArg (List.flatMap · _) (funext s.map_fst_endedAt)

/-- Lines have carriage returns at the ends of all but the last just when all but the last get
one. -/
theorem map_withReturn_concat (lines : List (Text × Bool)) (line : Text × Bool) :
    (lines ++ [line]).map withReturn = returned ((lines ++ [line]).map (·.1)) ↔
      (∀ l ∈ lines, l.2 = true) ∧ line.2 = false := by
  induction lines with
  | nil =>
    obtain ⟨text, ended⟩ := line
    cases ended <;> simp [returned]
  | cons l lines ih =>
    have hne : (lines ++ [line]).map (·.1) ≠ [] := by simp
    obtain ⟨text, ended⟩ := l
    rw [List.cons_append, List.map_cons, List.map_cons, returned_cons hne, List.cons.injEq, ih]
    cases ended <;> simp

section
variable {parsing : ParseOptions} {text : Text} {s s' : Session} {k : Nat} {line : Text}

/-! ## Sessions in step -/

/-- What the pending replacement on a line does to it. -/
def patchAt? (s : Session) (k : Nat) : Option (Nat × Int × Text) :=
  s.edits.findSome? fun edit => edit.patchOn? k

theorem patchAt?_eq_map (s : Session) (k : Nat) : s.patchAt? k = (s.replacementAt? k).map
    fun edit => (edit.region.column, edit.region.length, edit.newText) := by
  unfold patchAt? replacementAt?
  induction s.edits with
  | nil => rfl
  | cons edit edits ih =>
    rw [List.findSome?_cons, List.find?_cons, Edit.patchOn?]
    cases (edit.kind = .replace && edit.region.line = k : Bool) with
    | false => exact ih
    | true => rfl

theorem shownLine_eq_patch (s : Session) (k : Nat) (line : Text) :
    s.shownLine k line = match s.patchAt? k with
      | some (column, length, new) => line.take column ++ new ++ line.drop (column + length.toNat)
      | none => line := by
  rw [patchAt?_eq_map, shownLine]
  cases s.replacementAt? k <;> rfl

theorem shownLine_of_patch {u m new : Text}
    (h : s.patchAt? k = some (u.length, (m.length : Int), new)) (v : Text) :
    s.shownLine k (u ++ m ++ v) = u ++ new ++ v := by
  rw [shownLine_eq_patch, h]
  exact replace_middle u m v new

theorem shownLine_of_unpatched (h : s.patchAt? k = none) (line : Text) :
    s.shownLine k line = line := by
  rw [shownLine_eq_patch, h]

/-- A replacement does the same to its line wherever the script has the line. -/
theorem Carries.patchOn?_unplaced {c : Change} (h : s.Carries c) (k : Nat) :
    c.unplaced.edit.patchOn? k = c.edit.patchOn? k := by
  cases c with
  | update i edit =>
    show (if edit.kind = .replace && edit.region.unplaced.line = k then
      some (edit.region.unplaced.column, edit.region.unplaced.length, edit.newText) else none) = _
    rw [Region.line_unplaced, Region.column_unplaced, Region.length_unplaced]
    rfl
  | insertion edit =>
    obtain ⟨j, declaration, description, -, -, rfl⟩ := h
    rfl
  | removal i edit =>
    obtain ⟨e, description, -, rfl⟩ := h
    rfl

theorem Coherent.patchAt?_eq (h : Coherent (Index.parse parsing text) s) (k : Nat) :
    s.patchAt? k = (s.changes.map Change.unplaced).findSome? fun c => c.edit.patchOn? k := by
  rw [patchAt?, edits, List.findSome?_map, List.findSome?_map, ← List.head?_filterMap,
    ← List.head?_filterMap]
  exact congrArg List.head? (List.filterMap_congr fun c hc =>
    ((h.carries c hc).patchOn?_unplaced k).symm)

namespace InStep

theorem additions_eq (h : InStep parsing text s s') : s'.additions = s.additions := by
  have hadditions := congrArg (List.filterMap Change.addition?) h.changes
  simp only [List.filterMap_map, Function.comp_def, Change.addition?_unplaced] at hadditions
  exact hadditions

theorem additionsAt_eq (h : InStep parsing text s s') (k : Nat) :
    s'.additionsAt k = s.additionsAt k := by
  rw [additionsAt, additionsAt, h.additions_eq]

theorem isLineRemoved_eq (h : InStep parsing text s s') (k : Nat) :
    s'.isLineRemoved k = s.isLineRemoved k := by
  simp only [isLineRemoved, h.entries, List.zipIdx_map, List.any_map, Function.comp_def,
    Prod.map, Entry.line_behindReturns, h.isRemoved_eq, id_eq]

theorem patchAt?_eq (h : InStep parsing text s s') (k : Nat) : s'.patchAt? k = s.patchAt? k := by
  rw [h.coherent'.patchAt?_eq, h.coherent.patchAt?_eq, h.changes]

theorem length_lines (h : InStep parsing text s s') :
    s'.index.lines.length = s.index.lines.length := by
  rw [h.lines_eq, length_returned]

theorem shownLine_eq (h : InStep parsing text s s') (hline : (lines text)[k]? = some line)
    (r : Text) : s'.shownLine k (line ++ r) = s.shownLine k line ++ r := by
  have hpatched := s.patchAt?_eq_map k
  rcases h.coherent.replacementAt?_cases k with hnone | ⟨i, e, edit, he, rfl, hedit, hregion, -⟩
  · rw [hnone] at hpatched
    rw [shownLine_of_unpatched hpatched, shownLine_of_unpatched ((h.patchAt?_eq k).trans hpatched)]
  · obtain ⟨u, v, hcov⟩ := h.coherent.covers he
    obtain rfl := Option.some.inj (hline.symm.trans hcov.line)
    rw [hedit, Option.map_some, hregion, hcov.column_eq, hcov.length_eq] at hpatched
    rw [shownLine_of_patch hpatched, List.append_assoc _ v r,
      shownLine_of_patch ((h.patchAt?_eq _).trans hpatched), List.append_assoc _ v r]

theorem outputAt_eq (h : InStep parsing text s s') (hk : k < s.index.lines.length) :
    s'.outputAt k = (s.endedAt k).map withReturn := by
  have hadditions : ((s.additionsAt k).map fun declaration => (declaration, false)).map withReturn =
      s.additionsAt k := by
    rw [List.map_map]
    exact List.map_id _
  have hline := List.getElem?_eq_getElem hk
  have hshown := h.shownLine_eq (by rw [← hline, h.coherent.lines]; rfl)
  rw [outputAt, h.additionsAt_eq, h.isLineRemoved_eq, endedAt, List.map_append, hadditions,
    h.lines_eq, List.getD_eq_getElem?_getD, List.getD_eq_getElem?_getD, getElem?_returned, hline]
  split
  · rfl
  · rw [Option.map_some, Option.getD_some, Option.getD_some, List.map_singleton]
    by_cases hnext : k + 1 < s.index.lines.length
    · rw [if_pos hnext, decide_eq_true hnext, withReturn_true, hshown]
    · have hlast := hshown []
      rw [List.append_nil, List.append_nil] at hlast
      rw [if_neg hnext, decide_eq_false hnext, withReturn_false, hlast]

theorem outputLines_eq (h : InStep parsing text s s') :
    s'.outputLines = s.endedLines.map withReturn := by
  rw [outputLines, outputUpTo, h.length_lines, endedLines, endedUpTo, List.map_flatMap]
  exact List.flatMap_congr fun k hk => h.outputAt_eq (List.mem_range.1 hk)

theorem clash_iff (h : InStep parsing text s s') : s'.Clash ↔ s.Clash := by
  have hlast {k : Nat} (hk : k + 1 = s.index.lines.length) :
      s'.index.lines.getD k [] = s.index.lines.getD k [] := by
    have hnext : ¬ k + 1 < s.index.lines.length := by omega
    rw [h.lines_eq, List.getD_eq_getElem?_getD, List.getD_eq_getElem?_getD, getElem?_returned]
    simp only [if_neg hnext, Option.map_id']
  simp only [Clash, h.length_lines, h.isLineRemoved_eq, h.additionsAt_eq]
  refine exists_congr fun k => and_congr_right fun hk => ?_
  rw [hlast hk]

end InStep

/-! ## What is not rendered -/

/-- With the last line of several removed something is rendered if what stands in front of it then
begins as it does, and goes on with a line feed unless the line above is kept. -/
theorem Coherent.render_ok_iff_of_lastRemoved {before : Text}
    (h : Coherent (Index.parse parsing text) s)
    (hne : ∀ e ∈ (Index.parse parsing text).entries, e.rawText ≠ [])
    (hbefore : (Text.lines text)[k]? = some before)
    (hline : (Text.lines text)[k + 1]? = some line) (hk : k + 2 = (Text.lines text).length)
    (hremoved : s.isLineRemoved (k + 1) = true) : (∃ new, s.render.result = .ok new) ↔
      ∃ tail, terminated (s.additionsAt (k + 1)) ++ line = line ++ tail ∧
        ((∃ v, tail = '\n' :: v) ∨ s.isLineRemoved k = false) := by
  obtain ⟨hmade, hrefused⟩ :=
    h.run_lastRemoved hne hbefore hline hk hremoved (s.orderUpTo (k + 1))
  rw [h.render_eq hne hk]
  by_cases htail : ∃ tail, terminated (s.additionsAt (k + 1)) ++ line = line ++ tail
  · obtain ⟨tail, htail⟩ := htail
    rw [hmade tail htail]
    by_cases hstarts : ∃ v, tail = '\n' :: v
    · obtain ⟨v, rfl⟩ := hstarts
      rw [terminated_take_feed hbefore, h.run_upTo hne (by omega)]
      exact iff_of_true ⟨_, rfl⟩ ⟨_, htail, Or.inl ⟨v, rfl⟩⟩
    · have hcut := h.run_cut hne hbefore (by omega) fun v e => hstarts ⟨v, e⟩
      constructor
      · rintro ⟨new, hok⟩
        exact ⟨tail, htail, Or.inr ((hcut new).1 hok).1⟩
      · rintro ⟨tail', htail', hends⟩
        obtain rfl : tail' = tail := List.append_cancel_left (htail'.symm.trans htail)
        exact ⟨_, (hcut _).2 ⟨hends.resolve_left hstarts, rfl⟩⟩
  · refine iff_of_false ?_ fun ⟨tail, hboth⟩ => htail ⟨tail, hboth.1⟩
    rintro ⟨new, hok⟩
    exact hrefused (fun tail e => htail ⟨tail, e⟩) new hok

theorem InStep.render_ok_iff (h : InStep parsing text s s')
    (hne : ∀ e ∈ (Index.parse parsing text).entries, e.rawText ≠ [])
    (hne' : ∀ e ∈ (Index.parse parsing (crlf text)).entries, e.rawText ≠ []) :
    (∃ new, s'.render.result = .ok new) ↔ ∃ new, s.render.result = .ok new := by
  have hlines : s.index.lines = lines text := h.coherent.lines
  by_cases hlast : ∃ k, k + 2 = (lines text).length ∧ s.isLineRemoved (k + 1) = true
  · obtain ⟨k, hk, hremoved⟩ := hlast
    have hbefore := List.getElem?_eq_getElem (by omega : k < (lines text).length)
    have hline := List.getElem?_eq_getElem (by omega : k + 1 < (lines text).length)
    have hbefore' := getElem?_returned (lines text) k
    have hline' := getElem?_returned (lines text) (k + 1)
    rw [← lines_crlf, hbefore, Option.map_some, if_pos (by omega)] at hbefore'
    rw [← lines_crlf, hline, Option.map_some, if_neg (by omega)] at hline'
    have hk' : k + 2 = (lines (crlf text)).length := by rwa [lines_crlf, length_returned]
    have hremoved' : s'.isLineRemoved (k + 1) = true := by rwa [h.isLineRemoved_eq]
    rw [h.coherent.render_ok_iff_of_lastRemoved hne hbefore hline hk hremoved,
      h.coherent'.render_ok_iff_of_lastRemoved hne' hbefore' hline' hk' hremoved',
      h.additionsAt_eq, h.isLineRemoved_eq]
  · have hclash : ¬ s.Clash := fun ⟨k, hk, hremoved, _⟩ => hlast ⟨k, by rwa [← hlines], hremoved⟩
    exact iff_of_true ⟨_, (h.coherent'.render_iff hne').2 (mt h.clash_iff.1 hclash)⟩
      ⟨_, (h.coherent.render_iff hne).2 hclash⟩

/-! ## Kept endings -/

theorem Coherent.additions_bounds (h : Coherent (Index.parse parsing text) s) {a : Nat × Text}
    (ha : a ∈ s.additions) : 0 < a.1 ∧ a.1 < s.index.lines.length := by
  obtain ⟨c, hc, hadd⟩ := List.mem_filterMap.1 ha
  have hcarries := h.carries c hc
  cases c with
  | update i edit => cases hadd
  | insertion edit =>
    obtain ⟨k, declaration, description, hpos, hk, rfl⟩ := hcarries
    cases hadd
    simpa [lineInsertion, Region.line, Region.point, Position.point] using ⟨hpos, hk⟩
  | removal i edit => cases hadd

/-- All that is to be added goes in front of the last line just when nothing goes in front of a line
above it. -/
theorem Coherent.additions_eq_iff (h : Coherent (Index.parse parsing text) s)
    (hk : k + 1 = s.index.lines.length) (declarations : List Text) :
    s.additions = declarations.map (fun declaration => (k, declaration)) ↔
      (∀ j < k, s.additionsAt j = []) ∧ s.additionsAt k = declarations := by
  constructor
  · intro hall
    refine ⟨fun j hj => ?_, ?_⟩
    · rw [additionsAt, hall, List.filter_map, List.filter_eq_nil_iff.2, List.map_nil, List.map_nil]
      intro declaration _ hline
      have hkj : k = j := of_decide_eq_true hline
      omega
    · rw [additionsAt, hall, List.filter_map, List.filter_eq_self.2, List.map_map]
      · exact List.map_id _
      · exact fun declaration _ => decide_eq_true rfl
  · rintro ⟨hnone, rfl⟩
    have hline : ∀ a ∈ s.additions, a.1 = k := by
      intro a ha
      obtain ⟨-, hbound⟩ := h.additions_bounds ha
      refine Decidable.byContradiction fun hne => ?_
      have hmem : a.2 ∈ s.additionsAt a.1 :=
        List.mem_map.2 ⟨a, List.mem_filter.2 ⟨ha, decide_eq_true rfl⟩, rfl⟩
      rw [hnone a.1 (by omega)] at hmem
      cases hmem
    rw [additionsAt, List.filter_eq_self.2 fun a ha => decide_eq_true (hline a ha), List.map_map]
    refine (List.map_id _).symm.trans (List.map_congr_left fun a ha => ?_)
    exact Prod.ext (hline a ha) rfl

theorem forall_added_iff (declarations : List Text) :
    (∀ l ∈ declarations.map (fun declaration => (declaration, false)), l.2 = true) ↔
      declarations = [] := by
  cases declarations <;> simp

/-- The lines written for the lines above a line are lines of the script if none is added there. -/
theorem forall_endedUpTo_iff (hk : k < s.index.lines.length) :
    (∀ l ∈ s.endedUpTo k, l.2 = true) ↔ ∀ j < k, s.additionsAt j = [] := by
  have hown (j : Nat) (hj : j < k) : ∀ l ∈ (if s.isLineRemoved j then []
      else [(s.shownLine j (s.index.lines.getD j []), decide (j + 1 < s.index.lines.length))]),
      l.2 = true := by
    intro l hl
    split at hl
    · cases hl
    · rw [List.mem_singleton.1 hl]
      exact decide_eq_true (by omega)
  rw [endedUpTo, List.forall_mem_flatMap]
  refine forall_congr' fun j => ?_
  rw [List.mem_range]
  refine forall_congr' fun hj => ?_
  rw [endedAt, List.forall_mem_append, and_iff_left (hown j hj), forall_added_iff]

theorem Coherent.not_mem_outputLines (h : Coherent (Index.parse parsing text) s)
    (hone : s.OneLine) : ∀ l ∈ s.outputLines, '\n' ∉ l := by
  intro l hl
  obtain ⟨k, hk, hl⟩ := List.mem_flatMap.1 hl
  rcases List.mem_append.1 hl with hl | hl
  · obtain ⟨a, ha, rfl⟩ := List.mem_map.1 hl
    exact hone.additions a (List.mem_filter.1 ha).1
  · split at hl
    · cases hl
    · obtain rfl := List.mem_singleton.1 hl
      have hline : '\n' ∉ s.index.lines.getD k [] := by
        have hlines : s.index.lines = Text.lines text := h.lines
        rw [hlines] at hk ⊢
        rw [List.getD_eq_getElem?_getD, List.getElem?_eq_getElem (List.mem_range.1 hk)]
        exact not_mem_of_mem_lines (List.getElem_mem (List.mem_range.1 hk))
      unfold shownLine
      rcases h.replacementAt?_cases k with hnone | ⟨i, e, edit, he, -, hedit, -, hnew⟩
      · rw [hnone]
        exact hline
      · rw [hedit]
        intro hlf
        rcases mem_take_append_drop hlf with hlf | hlf
        · exact hline hlf
        · rw [hnew] at hlf
          exact hone.entries e (List.mem_of_getElem? he) hlf

/-- Lines that are joined have carriage returns at the ends of all but the last just when all but
the last get one. -/
theorem joinWith_withReturn_iff {lines : List (Text × Bool)} {line : Text × Bool}
    (hone : ∀ l ∈ (lines ++ [line]).map (·.1), '\n' ∉ l) :
    joinWith ['\n'] ((lines ++ [line]).map withReturn) =
        crlf (joinWith ['\n'] ((lines ++ [line]).map (·.1))) ↔
      (∀ l ∈ lines, l.2 = true) ∧ line.2 = false := by
  have hne : (lines ++ [line]).map (·.1) ≠ [] := by simp
  have hne' : (lines ++ [line]).map withReturn ≠ [] := by simp
  have hone' : ∀ l ∈ (lines ++ [line]).map withReturn, '\n' ∉ l := by
    intro l hl
    obtain ⟨⟨shown, ended⟩, hmem, rfl⟩ := List.mem_map.1 hl
    have hshown := hone shown (List.mem_map.2 ⟨_, hmem, rfl⟩)
    cases ended <;> simpa using hshown
  rw [← map_withReturn_concat]
  constructor
  · intro heq
    have hlines := congrArg Text.lines heq
    rwa [lines_crlf, lines_joinWith hne' hone', lines_joinWith hne hone] at hlines
  · intro heq
    rw [heq, joinWith_returned hne hone]

/-- With the last line kept the endings are kept if nothing is added. -/
theorem Coherent.join_iff_of_lastKept (h : Coherent (Index.parse parsing text) s)
    (hone : s.OneLine) (hk : k + 1 = s.index.lines.length) (hkept : s.isLineRemoved k = false) :
    joinWith ['\n'] (s.endedLines.map withReturn) = crlf (joinWith ['\n'] s.outputLines) ↔
      s.additions = [] := by
  have hlines : s.endedLines = (s.endedUpTo k ++
      (s.additionsAt k).map fun declaration => (declaration, false)) ++
        [(s.shownLine k (s.index.lines.getD k []), false)] := by
    rw [endedLines, ← hk, endedUpTo_succ, endedAt, hkept, if_neg Bool.false_ne_true,
      decide_eq_false (by omega : ¬ k + 1 < s.index.lines.length), List.append_assoc]
  have hfree := h.not_mem_outputLines hone
  rw [← map_fst_endedLines] at hfree ⊢
  rw [hlines] at hfree ⊢
  rw [joinWith_withReturn_iff hfree, and_iff_left rfl, List.forall_mem_append,
    forall_endedUpTo_iff (by omega), forall_added_iff]
  exact (h.additions_eq_iff hk []).symm

/-- With the last line of several removed the endings are kept if a single line takes its place. -/
theorem Coherent.join_iff_of_lastRemoved (h : Coherent (Index.parse parsing text) s)
    (hone : s.OneLine) (hk : k + 2 = s.index.lines.length)
    (hremoved : s.isLineRemoved (k + 1) = true) (hclash : ¬ s.Clash) :
    joinWith ['\n'] (s.endedLines.map withReturn) = crlf (joinWith ['\n'] s.outputLines) ↔
      ∃ declaration, s.additions = [(k + 1, declaration)] := by
  have hlines : s.endedLines = s.endedUpTo (k + 1) ++
      (s.additionsAt (k + 1)).map fun declaration => (declaration, false) := by
    rw [endedLines, ← hk, endedUpTo_succ, endedAt, hremoved, if_pos rfl, List.append_nil]
  have hfree := h.not_mem_outputLines hone
  rw [← map_fst_endedLines] at hfree ⊢
  rcases List.eq_nil_or_concat (s.additionsAt (k + 1)) with hnone | ⟨declarations, last, hsome⟩
  · -- the line above is the last that is written, and keeps its carriage return
    have hkept : s.isLineRemoved k = false :=
      Bool.eq_false_iff.2 fun hgone => hclash ⟨k, hk, hremoved, Or.inl ⟨hnone, hgone⟩⟩
    rw [hnone, List.map_nil, List.append_nil, endedUpTo_succ, endedAt, hkept,
      if_neg Bool.false_ne_true, decide_eq_true (by omega : k + 1 < s.index.lines.length),
      ← List.append_assoc] at hlines
    rw [hlines] at hfree ⊢
    rw [joinWith_withReturn_iff hfree]
    refine iff_of_false (fun hboth => Bool.noConfusion hboth.2) ?_
    rintro ⟨declaration, hadd⟩
    have hat := ((h.additions_eq_iff hk [declaration]).1 hadd).2
    rw [hnone] at hat
    cases hat
  · rw [List.concat_eq_append] at hsome
    rw [hsome, List.map_append, List.map_singleton, ← List.append_assoc] at hlines
    rw [hlines] at hfree ⊢
    rw [joinWith_withReturn_iff hfree, and_iff_left rfl, List.forall_mem_append,
      forall_endedUpTo_iff (by omega), forall_added_iff]
    constructor
    · rintro ⟨habove, rfl⟩
      exact ⟨last, (h.additions_eq_iff hk [last]).2 ⟨habove, hsome⟩⟩
    · rintro ⟨declaration, hadd⟩
      obtain ⟨habove, hat⟩ := (h.additions_eq_iff hk [declaration]).1 hadd
      have hsole : declarations ++ [last] = [] ++ [declaration] := hsome.symm.trans hat
      exact ⟨habove, (List.append_inj' hsole rfl).1⟩

/-- What is written with carriage returns has the endings of the script when these are kept. -/
theorem Coherent.join_iff (h : Coherent (Index.parse parsing text) s) (hone : s.OneLine)
    (hclash : ¬ s.Clash) :
    joinWith ['\n'] (s.endedLines.map withReturn) = crlf (joinWith ['\n'] s.outputLines) ↔
      s.KeepsEndings := by
  have hparsed : s.index.lines = Text.lines text := h.lines
  obtain ⟨k, hk⟩ : ∃ k, k + 1 = s.index.lines.length :=
    ⟨_, by rw [hparsed]; exact Nat.sub_add_cancel (length_lines_pos text)⟩
  have hlast : s.index.lines.length - 1 = k := by omega
  have hsingle (hzero : k = 0) : s.additions = [] := by
    refine List.eq_nil_iff_forall_not_mem.2 fun a ha => ?_
    have := h.additions_bounds ha
    omega
  simp only [KeepsEndings, hlast]
  cases hremoved : s.isLineRemoved k with
  | false =>
    rw [h.join_iff_of_lastKept hone hk hremoved]
    constructor
    · exact fun hnone => Or.inr (Or.inl ⟨hnone, rfl⟩)
    · rintro (hzero | ⟨hnone, -⟩ | ⟨-, hgone⟩)
      · exact hsingle hzero
      · exact hnone
      · cases hgone
  | true =>
    cases k with
    | zero =>
      have hnone : s.additionsAt 0 = [] := by rw [additionsAt, hsingle rfl]; rfl
      have hnil : s.endedLines = [] := by
        rw [endedLines, ← hk, endedUpTo_succ, endedAt, hremoved, hnone]
        rfl
      rw [← map_fst_endedLines, hnil]
      exact iff_of_true rfl (Or.inl rfl)
    | succ k =>
      rw [h.join_iff_of_lastRemoved hone hk hremoved hclash]
      constructor
      · exact fun hadd => Or.inr (Or.inr ⟨hadd, rfl⟩)
      · rintro (hzero | ⟨-, hkept⟩ | ⟨hadd, -⟩)
        · cases hzero
        · cases hkept
        · exact hadd

end

/-- What becomes of a script with carriage returns. The same requests are refused for it, with the
same warnings, and either both scripts are rendered or neither is. Where the lines of the session
are rendered, so they are for the script with carriage returns, and those that are lines of the
script and not its last have theirs behind them; what is rendered has the endings of the script just
when these are kept. -/
theorem render_crlf (kinds : List Kind) (enabled : Option (List Kind)) (skipComments : Bool)
    {editor : EditorOptions} (heditor : ∀ t ∈ editor.texts, '\n' ∉ t) (text : Text)
    {requests : List Request} (hrequests : ∀ r ∈ requests, ∀ t ∈ r.texts, '\n' ∉ t) :
    let options := ParseOptions.builtIn kinds enabled skipComments
    let base := start (Index.parse options text) editor
    let base' := start (Index.parse options (crlf text)) editor
    let s := base.afterAll requests
    let s' := base'.afterAll requests
    let new := joinWith ['\n'] (s.endedLines.map (·.1))
    let new' := joinWith ['\n'] (s.endedLines.map withReturn)
    (base'.attempts requests).map (fun a => (a.fault, a.warnings)) =
      (base.attempts requests).map (fun a => (a.fault, a.warnings)) ∧
    ((∃ result, s'.render.result = .ok result) ↔ ∃ result, s.render.result = .ok result) ∧
    (¬ s.Clash → s.render.result = .ok new ∧ s'.render.result = .ok new' ∧
      (new' = crlf new ↔ s.KeepsEndings)) := by
  obtain ⟨used, hused⟩ := ParseOptions.exists_builtIn_eq kinds enabled skipComments
  intro options base base' s s' new new'
  have hbase : InStep ⟨used.map Recognizer.ofKind, skipComments⟩ text base base' := by
    simp only [base, base', options, hused]
    exact inStep_start used skipComments text editor
  have hstep : InStep ⟨used.map Recognizer.ofKind, skipComments⟩ text s s' :=
    hbase.afterAll requests
  have hne (text : Text) :
      ∀ e ∈ (Index.parse ⟨used.map Recognizer.ofKind, skipComments⟩ text).entries,
        e.rawText ≠ [] := fun e he => Index.rawText_ne_nil_of_mem_parse he
  have hone : s.OneLine := oneLine_afterAll (oneLine_start heditor) hrequests
  have hnew : new = joinWith ['\n'] s.outputLines := congrArg (joinWith ['\n']) s.map_fst_endedLines
  have hnew' : new' = joinWith ['\n'] s'.outputLines :=
    congrArg (joinWith ['\n']) hstep.outputLines_eq.symm
  refine ⟨hbase.outcomes_eq requests, hstep.render_ok_iff (hne text) (hne (crlf text)),
    fun hclash => ⟨?_, ?_, ?_⟩⟩
  · rw [hnew]
    exact (hstep.coherent.render_iff (hne text)).2 hclash
  · rw [hnew']
    exact (hstep.coherent'.render_iff (hne (crlf text))).2 (mt hstep.clash_iff.1 hclash)
  · rw [hnew]
    exact hstep.coherent.join_iff hone hclash

/-- An update of a version keeps the endings. -/
theorem render_crlf_updated :
    let text := "id 'a' version '1'\n".toList
    let requests := [Request.setPluginVersion "a".toList "2".toList]
    let options := ParseOptions.builtIn Kind.all none true
    (∀ t ∈ EditorOptions.texts {}, '\n' ∉ t) ∧ (∀ r ∈ requests, ∀ t ∈ r.texts, '\n' ∉ t) ∧
    ((start (Index.parse options text) {}).afterAll requests).KeepsEndings ∧
    ((start (Index.parse options (crlf text)) {}).afterAll requests).render.result =
      .ok (crlf "id 'a' version '2'\n".toList) := by
  intro text requests options
  have heditor : ∀ t ∈ EditorOptions.texts {}, '\n' ∉ t := by decide
  have hrequests : ∀ r ∈ requests, ∀ t ∈ r.texts, '\n' ∉ t := by decide
  have hkeeps : ((start (Index.parse options text) {}).afterAll requests).KeepsEndings :=
    Or.inr (Or.inl ⟨by decide, by decide⟩)
  have hclash : ¬ ((start (Index.parse options text) {}).afterAll requests).Clash := by
    rintro ⟨k, hk, hremoved, -⟩
    obtain rfl : k = 0 := Nat.add_right_cancel hk
    exact absurd hremoved (by decide)
  have hupdated : ((start (Index.parse options text) {}).afterAll requests).render.result =
      .ok "id 'a' version '2'\n".toList := by decide
  obtain ⟨-, -, hrender⟩ := render_crlf Kind.all none true heditor text hrequests
  obtain ⟨hnew, hnew', hiff⟩ := hrender hclash
  refine ⟨heditor, hrequests, hkeeps, ?_⟩
  rw [hnew', hiff.2 hkeeps, Except.ok.inj (hnew.symm.trans hupdated)]

/-- A dependency that is added to a block ends in a line feed alone. -/
theorem render_crlf_added :
    let text := "dependencies \x7b\n\x7d\n".toList
    let requests := [Request.addDependency "g".toList "n".toList "1".toList none]
    let options := ParseOptions.builtIn Kind.all none true
    let new := "dependencies \x7b\n    implementation 'g:n:1'\n\x7d\n".toList
    let new' := "dependencies \x7b\r\n    implementation 'g:n:1'\n\x7d\r\n".toList
    ((start (Index.parse options text) {}).afterAll requests).render.result = .ok new ∧
    ((start (Index.parse options (crlf text)) {}).afterAll requests).render.result = .ok new' ∧
    new' ≠ crlf new := by
  decide

end Session

end BuildScript
