import BuildScript.Session.Request
import BuildScript.Proofs.Index.Shift
import BuildScript.Proofs.Session.Single
/-!
# Removing a dependency

On a script as it was parsed, a removal takes the first dependency that fits with its line, and
nothing else. The line goes with one line feed, the one behind it or, for the last line, the one in
front, and reading the rest again finds the other declarations as they were.

Results:
* `selectDependency_start`: the dependency selected is the first that fits.
* `removed_alone`: what is rendered and read again behind a removal.
-/
namespace BuildScript

/-- A dependency has a group and name, the scope if one is given, and is not another project. -/
def Dependency.Fits (group name : Text) (scope : Option Text) (d : Dependency) : Prop :=
  d.group = group ∧ d.name = name ∧ (∀ asked ∈ scope, d.scope = asked) ∧
    d.isProjectReference = false

theorem Dependency.fits_iff {group name : Text} {scope : Option Text} {d : Dependency} :
    (d.group = group ∧ d.name = name ∧ scope.all (d.scope = ·) ∧ !d.isProjectReference) ↔
      d.Fits group name scope := by
  cases scope <;> simp [Fits]

namespace Session

/-- In a session without changes the dependency selected is the first that fits. -/
theorem selectDependency_start {base : Index} {editor : EditorOptions} {group name : Text}
    {scope : Option Text} {e : Entry} {d : Dependency} {i : Nat}
    (h : ((start base editor).selectDependency group name scope).1 = .ok (e, d, i)) :
    ∃ before after, base.entries = before ++ e :: after ∧ e.declaration = .dependency d ∧
      d.Fits group name scope ∧
      ∀ e' ∈ before, ∀ d', e'.declaration = .dependency d' → ¬ d'.Fits group name scope := by
  unfold selectDependency at h
  split at h
  · cases h
  · next first others hc =>
    cases h
    have hremaining : (start base editor).remaining = base.entries.zipIdx :=
      List.filter_eq_self.2 fun _ _ => rfl
    rw [dependencyCandidates, hremaining] at hc
    obtain ⟨l₁, ⟨e', i'⟩, l₂, hsplit, hbefore, hfirst, -⟩ := List.filterMap_eq_cons_iff.1 hc
    obtain ⟨before, rest, hentries, rfl, hrest⟩ := List.zipIdx_eq_append_iff.1 hsplit
    obtain ⟨e₀, after, rfl, he₀, -⟩ := List.zipIdx_eq_cons_iff.1 hrest.symm
    dsimp only at hfirst
    split at hfirst
    · next d' hd =>
      split at hfirst
      · next hfits =>
        cases hfirst
        cases he₀
        refine ⟨before, after, hentries, hd, Dependency.fits_iff.1 hfits, ?_⟩
        intro e₁ he₁ d₁ hd₁ hfits₁
        obtain ⟨j, hj⟩ := List.getElem?_of_mem he₁
        have hnone := hbefore (e₁, 0 + j) (List.mem_zipIdx_iff_le_and_getElem?_sub.2 ?_)
        · dsimp only at hnone
          rw [hd₁] at hnone
          dsimp only at hnone
          rw [if_pos (Dependency.fits_iff.2 hfits₁)] at hnone
          cases hnone
        · simpa using hj
      · cases hfirst
    · cases hfirst

theorem removeDependency_spec {s : Session} {group name : Text} {scope : Option Text}
    (h : (s.removeDependency group name scope).fault = none) : ∃ e d i description,
      (s.selectDependency group name scope).1 = .ok (e, d, i) ∧
      (s.removeDependency group name scope).session =
        s.recordRemoval i (lineRemoval s.index.text e.line description) := by
  unfold removeDependency at h ⊢
  split
  · next hsel =>
    rw [hsel] at h
    cases h
  · next e d i warnings hsel =>
    rw [hsel] at h
    dsimp only at h
    split
    · exact ⟨e, d, i, _, by rw [hsel], rfl⟩
    · next howns =>
      rw [if_neg howns] at h
      cases h

/-- What is deleted with a line is a line feed longer than the line, unless the line is the only one
and no entries stand behind it. -/
theorem length_lineRemoval {options : ParseOptions} {text line : Text} (description : Text)
    {before after : List Entry} {e : Entry} (hline : (Text.lines text)[e.line]? = some line)
    (h : (Index.parse options text).entries = before ++ e :: after) :
    (lineRemoval text e.line description).oldText.length = line.length + 1 ∨ after = [] := by
  have hdeletes := deletesLine_lineRemoval (List.getElem?_eq_some_iff.1 hline).1 description
  by_cases hsingle : Text.lines text = [text]
  · right
    refine List.eq_nil_iff_forall_not_mem.2 fun e' he' => ?_
    have hpair := Index.pairwise_line_parse options text
    rw [h, List.pairwise_append] at hpair
    have hlt := (List.pairwise_cons.1 hpair.2.1).1 e' he'
    have hmem : e' ∈ (Index.parse options text).entries := by
      rw [h]
      exact List.mem_append_right _ (List.mem_cons_of_mem _ he')
    obtain ⟨u, v, hcov⟩ := Index.covers_of_mem_parse hmem
    have := hcov.lt
    rw [hsingle, List.length_singleton] at this
    omega
  · left
    generalize e.line = k at hline hdeletes
    cases hdeletes with
    | inner hline' _ _ _ hold =>
      rw [hold, Option.some.inj (hline.symm.trans hline')]
      simp
    | last _ hline' _ _ _ hold =>
      rw [hold, Option.some.inj (hline.symm.trans hline')]
      rfl
    | only hsingle' => exact absurd hsingle' hsingle

/-- A removal on a script as parsed takes one dependency with its line: the first of the group and
name, within the scope if one is given. The rendered script is that of the other lines, and with
the same options it is read as the other declarations, those behind the line a line higher. -/
theorem removed_alone (options : ParseOptions) (editor : EditorOptions) (text group name : Text)
    (scope : Option Text)
    (hfault : ((start (Index.parse options text) editor).attempt
      (.removeDependency group name scope)).fault = none) :
    let base := Index.parse options text
    let s := (start base editor).after (.removeDependency group name scope)
    ∃ before e after d edit new,
      base.inOrder = before ++ e :: after ∧ e.declaration = .dependency d ∧
      d.Fits group name scope ∧
      (∀ e' ∈ before, ∀ d', e'.declaration = .dependency d' → ¬ d'.Fits group name scope) ∧
      s.edits = [edit] ∧ s.render.result = .ok new ∧
      new = Text.joinWith ['\n'] ((Text.lines text).eraseIdx e.line) ∧
      (Index.parse options new).inOrder =
        before ++ after.map (Entry.shift (-1) (-edit.oldText.length)) := by
  intro base s
  obtain ⟨e, d, i, description, hsel, hafter⟩ := removeDependency_spec hfault
  obtain ⟨before, after, hentries, hd, hfits, hfirst⟩ := selectDependency_start hsel
  have hs : s = (start base editor).recordRemoval i (lineRemoval text e.line description) := hafter
  obtain ⟨u, v, hcov⟩ := Index.covers_of_mem_parse
    (hentries ▸ List.mem_append_right before List.mem_cons_self : e ∈ base.entries)
  refine ⟨before, e, after, d, lineRemoval text e.line description, _, ?_, hd, hfits, hfirst,
    by rw [hs]; rfl, ?_, rfl, ?_⟩
  · rw [Index.inOrder_parse, hentries]
  · rw [hs]
    exact replay_lineRemoval hcov.lt description
  · rw [Index.inOrder_parse, Index.entries_parse_eraseIdx hcov.line hentries]
    rcases length_lineRemoval description hcov.line hentries with hlength | rfl
    · rw [hlength]
      rfl
    · rfl

/-- A script whose last line has no line feed. -/
def openScript : Text := "implementation 'a:b:1'\nversion = '1'\ntestImplementation 'a:b:2'".toList

/-- Asked for in a scope, the dependency on the last line goes with the line feed in front. -/
theorem removed_alone_openScript :
    ((start (Index.parse {} openScript) {}).attempt
      (.removeDependency "a".toList "b".toList (some "testImplementation".toList))).fault = none ∧
    let base := Index.parse {} openScript
    let s := (start base {}).after
      (.removeDependency "a".toList "b".toList (some "testImplementation".toList))
    ∃ before e after d edit new,
      base.inOrder = before ++ e :: after ∧ e.declaration = .dependency d ∧
      d.Fits "a".toList "b".toList (some "testImplementation".toList) ∧
      (∀ e' ∈ before, ∀ d', e'.declaration = .dependency d' →
        ¬ d'.Fits "a".toList "b".toList (some "testImplementation".toList)) ∧
      s.edits = [edit] ∧ s.render.result = .ok new ∧
      new = Text.joinWith ['\n'] ((Text.lines openScript).eraseIdx e.line) ∧
      (Index.parse {} new).inOrder =
        before ++ after.map (Entry.shift (-1) (-edit.oldText.length)) :=
  ⟨by decide, removed_alone {} {} openScript _ _ _ (by decide)⟩

end Session

end BuildScript
