import BuildScript.Proofs.Session.Lines
import BuildScript.Proofs.Declaration.Bounds
/-!
# What a session renders

The replay of the pending edits goes through the script from the last line to the first. In front
of line `k` it has the lines above in hand as the script has them, and behind them finished text:
that is what a line keeps (`run_kept`, `run_removed`) and what the lines above a line keep
(`run_upTo`), whatever the finished text is.

Only the removal of the last line reaches over the start of its line, for the line feed in front.
It fails, or takes the wrong characters, when that line feed or the text of the line is no longer
where it was: when the line above is removed as well, or when declarations were put in between.
`Clash` is the exact condition.

Results:
* `run_upTo`: the edits of the lines above a line write those lines, whatever stands behind.
* `render_of_lastKept`, `render_of_lastRemoved`: what is rendered with and without the last line.
* `render_afterAll`: a session renders its output lines unless there is a clash.
-/
namespace BuildScript

namespace Session

/-- The last line is to be deleted, and the line feed in front of it or its text will not be where
the deletion looks for them: the line above goes too and nothing comes in between, or what comes in
between does not repeat the line. -/
def Clash (s : Session) : Prop :=
  ∃ k, k + 2 = s.index.lines.length ∧ s.isLineRemoved (k + 1) = true ∧
    ((s.additionsAt (k + 1) = [] ∧ s.isLineRemoved k = true) ∨
      ∀ m, Text.terminated (s.additionsAt (k + 1)) ≠
        Text.terminated (List.replicate m (s.index.lines.getD (k + 1) [])))

/-- The edits of a line in the order of application. -/
def orderOn (s : Session) (k : Nat) : List Edit :=
  Edit.applicationOrder ((s.changesOn k).map (·.edit))

/-- The edits of the lines above a line in the order of application. -/
def orderUpTo (s : Session) (k : Nat) : List Edit :=
  Edit.applicationOrder ((s.changesUpTo k).map (·.edit))

/-! ## Removals -/

section
variable {text : Text} {k : Nat} {before line : Text}

/-- The removal of a line that is not the last takes the line feed behind it. -/
theorem lineRemoval_inner (hline : (Text.lines text)[k]? = some line)
    (hk : k + 1 < (Text.lines text).length) (description : Text) :
    (lineRemoval text k description).start = Text.lineStart text k ∧
      (lineRemoval text k description).stop = Text.lineStart text k + (line ++ ['\n']).length ∧
      (lineRemoval text k description).oldText = line ++ ['\n'] := by
  cases deletesLine_lineRemoval (by omega : k < (Text.lines text).length) description with
  | inner hline' _ hstart hstop hold =>
    obtain rfl := Option.some.inj (hline.symm.trans hline')
    refine ⟨hstart, hstop.trans ?_, hold⟩
    rw [Text.lineStart_succ hline hk, List.length_append, List.length_singleton]
    omega
  | last _ _ hn => omega
  | only hsingle =>
    rw [hsingle, List.length_singleton] at hk
    omega

/-- The removal of the last line takes the line feed in front of it. -/
theorem lineRemoval_last (hbefore : (Text.lines text)[k]? = some before)
    (hline : (Text.lines text)[k + 1]? = some line) (hn : k + 2 = (Text.lines text).length)
    (description : Text) :
    (lineRemoval text (k + 1) description).start = (Text.lineStart text k + before.length : Nat) ∧
      (lineRemoval text (k + 1) description).stop =
        (Text.lineStart text k + before.length : Nat) + ('\n' :: line).length ∧
      (lineRemoval text (k + 1) description).oldText = '\n' :: line := by
  have hend := Text.lineStart_add_length_last hline hn
  rw [Text.lineStart_succ hbefore (by omega)] at hend
  cases deletesLine_lineRemoval (by omega : k + 1 < (Text.lines text).length) description with
  | inner _ hnext => omega
  | last hbefore' hline' _ hstart hstop hold =>
    obtain rfl := Option.some.inj (hbefore.symm.trans hbefore')
    obtain rfl := Option.some.inj (hline.symm.trans hline')
    refine ⟨hstart, hstop.trans ?_, hold⟩
    rw [← hend, List.length_cons]
    omega

end

section
variable {options : ParseOptions} {text : Text} {s : Session} {k : Nat} {line : Text}

/-! ## One line -/

/-- The insertions in front of a line put the declarations there. -/
theorem Coherent.run_insertions (h : Coherent (Index.parse options text) s)
    (hne : ∀ e ∈ (Index.parse options text).entries, e.rawText ≠ [])
    (hk : k < (Text.lines text).length) (tail : Text) (rest : List Edit) :
    Replay.run (Text.terminated ((Text.lines text).take k) ++ tail)
        (((s.insertionsAt k).map (·.edit)).reverse ++ rest) =
      Replay.run (Text.terminated ((Text.lines text).take k) ++
        (Text.terminated (s.additionsAt k) ++ tail)) rest := by
  rw [Replay.run_points, List.flatMap_map, h.newText_insertionsAt hne]
  intro e he
  obtain ⟨c, hc, rfl⟩ := List.mem_map.1 he
  rw [← Text.lineStart_eq hk]
  exact h.point_of_mem_insertionsAt hne hc

/-- A line that is kept is written as it is shown, behind the declarations put in front of it. -/
theorem Coherent.run_kept (h : Coherent (Index.parse options text) s)
    (hne : ∀ e ∈ (Index.parse options text).entries, e.rawText ≠ [])
    (hline : (Text.lines text)[k]? = some line) (hkept : s.isLineRemoved k = false)
    (tail : Text) (rest : List Edit) :
    Replay.run (Text.terminated ((Text.lines text).take k) ++ (line ++ tail))
        (s.orderOn k ++ rest) =
      Replay.run (Text.terminated ((Text.lines text).take k) ++
        (Text.terminated (s.additionsAt k) ++ (s.shownLine k line ++ tail))) rest := by
  have hk : k < (Text.lines text).length := (List.getElem?_eq_some_iff.1 hline).1
  have hreplacement := h.replacementAt?_eq hne (k := k)
  rcases h.ownChanges_cases hne k with hown | ⟨c, hown⟩
  · rw [hown] at hreplacement
    have hshown : s.shownLine k line = line := by
      rw [shownLine, hreplacement]
      rfl
    have horder : s.orderOn k = ((s.insertionsAt k).map (·.edit)).reverse := by
      rw [orderOn, h.applicationOrder_on hne (by simp [hown]), hown]
      rfl
    rw [horder, hshown, h.run_insertions hne hk]
  · have hc : c ∈ s.ownChanges k := hown ▸ List.mem_cons_self
    obtain ⟨hplaced, hkind⟩ := h.kind_of_mem_ownChanges hne hc
    cases hplaced with
    | insertion => exact absurd rfl hkind
    | removal =>
      have := h.isLineRemoved_iff.2 ⟨_, hc, _, _, rfl⟩
      rw [hkept] at this
      cases this
    | @update i e u m v he hcov hm newText description =>
      obtain rfl : line = u ++ m ++ v := Option.some.inj (hline.symm.trans hcov.line)
      rw [hown] at hreplacement
      have hshown : s.shownLine k (u ++ m ++ v) = u ++ newText ++ v := by
        rw [shownLine, hreplacement]
        show (u ++ m ++ v).take e.region.column ++ newText ++
          (u ++ m ++ v).drop (e.region.column + e.region.length.toNat) = _
        rw [hcov.column_eq, hcov.length_eq, Int.toNat_natCast, Text.replace_middle]
      have horder : s.orderOn k = ⟨.replace, e.region, m, newText, description⟩ ::
          ((s.insertionsAt k).map (·.edit)).reverse := by
        rw [orderOn, h.applicationOrder_on hne, hown]
        · rfl
        · intro c hc
          rw [hown, List.mem_singleton] at hc
          rw [hc]
          show (Text.lineStart text k : Int) ≤ e.region.start
          rw [hcov.start_eq]
          omega
      have hmade : Replay.run
          (Text.terminated ((Text.lines text).take k) ++ u ++ m ++ (v ++ tail))
          (⟨.replace, e.region, m, newText, description⟩ ::
            (((s.insertionsAt k).map (·.edit)).reverse ++ rest)) =
          Replay.run (Text.terminated ((Text.lines text).take k) ++ u ++ newText ++ (v ++ tail))
            (((s.insertionsAt k).map (·.edit)).reverse ++ rest) := by
        refine Replay.run_append ?_ ?_ _ _
        · rw [hcov.length_front]
          exact hcov.start_eq
        · rw [hcov.length_front]
          exact hcov.stop_eq
      rw [horder, hshown, ← h.run_insertions hne hk, List.cons_append]
      simpa only [List.append_assoc] using hmade

theorem Coherent.ownChanges_of_removed (h : Coherent (Index.parse options text) s)
    (hne : ∀ e ∈ (Index.parse options text).entries, e.rawText ≠ [])
    (hremoved : s.isLineRemoved k = true) :
    ∃ i description, s.ownChanges k = [.removal i (lineRemoval text k description)] := by
  obtain ⟨c, hc, i, edit, rfl⟩ := h.isLineRemoved_iff.1 hremoved
  have hplaced := (h.kind_of_mem_ownChanges hne hc).1
  rcases h.ownChanges_cases hne k with hown | ⟨c', hown⟩
  · rw [hown] at hc
    cases hc
  · rw [hown, List.mem_singleton] at hc
    rw [hown, ← hc]
    cases hplaced with
    | removal he hcov hm description => exact ⟨i, description, rfl⟩

/-- The removal of a line that is not the last comes before the insertions in front of it. -/
theorem Coherent.orderOn_of_removed (h : Coherent (Index.parse options text) s)
    (hne : ∀ e ∈ (Index.parse options text).entries, e.rawText ≠ [])
    (hk : k + 1 < (Text.lines text).length) (hremoved : s.isLineRemoved k = true) :
    ∃ description, s.orderOn k = lineRemoval text k description ::
      ((s.insertionsAt k).map (·.edit)).reverse := by
  obtain ⟨i, description, hown⟩ := h.ownChanges_of_removed hne hremoved
  refine ⟨description, ?_⟩
  rw [orderOn, h.applicationOrder_on hne, hown]
  · rfl
  · intro c hc
    rw [hown, List.mem_singleton] at hc
    rw [hc]
    show (Text.lineStart text k : Int) ≤ ((removalBounds text k).1 : Int)
    rw [removalBounds_of_lt hk]

/-- A line that is removed goes with the line feed behind it. -/
theorem Coherent.run_removed (h : Coherent (Index.parse options text) s)
    (hne : ∀ e ∈ (Index.parse options text).entries, e.rawText ≠ [])
    (hline : (Text.lines text)[k]? = some line) (hk : k + 1 < (Text.lines text).length)
    (hremoved : s.isLineRemoved k = true) (tail : Text) (rest : List Edit) :
    Replay.run (Text.terminated ((Text.lines text).take k) ++ (line ++ '\n' :: tail))
        (s.orderOn k ++ rest) =
      Replay.run (Text.terminated ((Text.lines text).take k) ++
        (Text.terminated (s.additionsAt k) ++ tail)) rest := by
  obtain ⟨description, horder⟩ := h.orderOn_of_removed hne hk hremoved
  obtain ⟨hstart, hstop, hold⟩ := lineRemoval_inner hline hk description
  have hlt : k < (Text.lines text).length := by omega
  have hexp : (lineRemoval text k description).expected = line ++ ['\n'] := hold
  rw [Text.lineStart_eq hlt] at hstart hstop
  rw [← hexp] at hstop
  have hmade := Replay.run_append hstart hstop tail
    (((s.insertionsAt k).map (·.edit)).reverse ++ rest)
  have hnew : (lineRemoval text k description).newText = [] := rfl
  rw [hexp, hnew, List.append_nil] at hmade
  rw [horder, ← h.run_insertions hne hlt, List.cons_append, ← hmade]
  simp

/-! ## The lines above a line -/

/-- The edits of the lines above a line write those lines, whatever stands behind. -/
theorem Coherent.run_upTo (h : Coherent (Index.parse options text) s)
    (hne : ∀ e ∈ (Index.parse options text).entries, e.rawText ≠ [])
    (hk : k < (Text.lines text).length) (tail : Text) :
    Replay.run (Text.terminated ((Text.lines text).take k) ++ tail) (s.orderUpTo k) =
      ⟨.ok (Text.terminated (s.outputUpTo k) ++ tail), []⟩ := by
  induction k generalizing tail with
  | zero =>
    have hnone : s.changesUpTo 0 = [] := List.filter_eq_nil_iff.2 fun c _ => by simp
    rw [orderUpTo, hnone]
    rfl
  | succ k ih =>
    have hlt : k < (Text.lines text).length := by omega
    have hline := List.getElem?_eq_getElem hlt
    have hget : s.index.lines.getD k [] = (Text.lines text)[k] := by
      rw [h.lines, Index.parse_lines, List.getD_eq_getElem?_getD, hline]
      rfl
    have horder : s.orderUpTo (k + 1) = s.orderOn k ++ s.orderUpTo k :=
      h.applicationOrder_upTo_succ hne k
    rw [horder, outputUpTo_succ, outputAt, hget, Text.terminated_take_succ hline,
      Text.terminated_append, Text.terminated_append]
    generalize (Text.lines text)[k] = line at hline
    cases hremoved : s.isLineRemoved k with
    | true =>
      have hmade := h.run_removed hne hline hk hremoved tail (s.orderUpTo k)
      rw [ih hlt] at hmade
      simpa using hmade
    | false =>
      have hmade := h.run_kept hne hline hremoved ('\n' :: tail) (s.orderUpTo k)
      rw [ih hlt] at hmade
      simpa using hmade

/-! ## The last line -/

theorem Coherent.render_eq (h : Coherent (Index.parse options text) s)
    (hne : ∀ e ∈ (Index.parse options text).entries, e.rawText ≠ [])
    (hn : k + 1 = (Text.lines text).length) :
    s.render.result = (Replay.run text (s.orderOn k ++ s.orderUpTo k)).result := by
  have hall : s.changesUpTo (k + 1) = s.changes := by
    refine List.filter_eq_self.2 fun c hc => ?_
    have := (h.placed hne hc).lt
    exact decide_eq_true (by omega)
  have horder : s.orderOn k ++ s.orderUpTo k = Edit.applicationOrder (s.changes.map (·.edit)) := by
    rw [← hall]
    exact (h.applicationOrder_upTo_succ hne k).symm
  rw [render, result_replay, horder, h.text, Index.parse_text]
  rfl

theorem Coherent.outputAt_eq (h : Coherent (Index.parse options text) s)
    (hline : (Text.lines text)[k]? = some line) :
    s.outputAt k = s.additionsAt k ++
      if s.isLineRemoved k then [] else [s.shownLine k line] := by
  rw [outputAt, h.lines, Index.parse_lines, List.getD_eq_getElem?_getD, hline]
  rfl

/-- A session that keeps the last line renders its output lines. -/
theorem Coherent.render_of_lastKept (h : Coherent (Index.parse options text) s)
    (hne : ∀ e ∈ (Index.parse options text).entries, e.rawText ≠ [])
    (hn : k + 1 = (Text.lines text).length) (hkept : s.isLineRemoved k = false) :
    s.render.result = .ok (Text.joinWith ['\n'] s.outputLines) := by
  have hlt : k < (Text.lines text).length := by omega
  have hline := List.getElem?_eq_getElem hlt
  generalize (Text.lines text)[k] = line at hline
  have htext : text = Text.terminated ((Text.lines text).take k) ++ (line ++ []) := by
    rcases Text.text_split hline with ⟨hlast, -⟩ | ⟨-, htext⟩
    · omega
    · rwa [List.append_nil]
  have hmade := h.run_kept hne hline hkept [] (s.orderUpTo k)
  rw [← htext, h.run_upTo hne hlt] at hmade
  have houtput : s.outputLines = (s.outputUpTo k ++ s.additionsAt k) ++ [s.shownLine k line] := by
    rw [outputLines, h.lines, Index.parse_lines, ← hn, outputUpTo_succ, h.outputAt_eq hline, hkept]
    exact (List.append_assoc _ _ _).symm
  rw [h.render_eq hne hn, hmade, houtput, Text.joinWith_concat, Text.terminated_append]
  simp

theorem Coherent.render_of_onlyRemoved (h : Coherent (Index.parse options text) s)
    (hne : ∀ e ∈ (Index.parse options text).entries, e.rawText ≠ [])
    (hn : (Text.lines text).length = 1) (hremoved : s.isLineRemoved 0 = true) :
    s.render.result = .ok (Text.joinWith ['\n'] s.outputLines) := by
  obtain ⟨i, description, hown⟩ := h.ownChanges_of_removed hne hremoved
  have hinsertions : s.insertionsAt 0 = [] := by
    refine List.filter_eq_nil_iff.2 fun c hc => ?_
    obtain ⟨hmem, hline⟩ := List.mem_filter.1 hc
    have hplaced := h.placed hne hmem
    rw [of_decide_eq_true hline] at hplaced
    cases hplaced with
    | update => simp
    | insertion hpos => omega
    | removal => simp
  have hadditions : s.additionsAt 0 = [] := by
    have hnew := h.newText_insertionsAt hne 0
    rw [hinsertions] at hnew
    exact Text.terminated_eq_nil_iff.1 hnew.symm
  have houtput : s.outputLines = [] := by
    rw [outputLines, h.lines, Index.parse_lines, hn, outputUpTo_succ, outputAt, hadditions,
      hremoved]
    rfl
  have horder : s.orderOn 0 ++ s.orderUpTo 0 = [lineRemoval text 0 description] := by
    have hnone : s.changesUpTo 0 = [] := List.filter_eq_nil_iff.2 fun c _ => by simp
    rw [orderUpTo, hnone, orderOn, h.applicationOrder_on hne, hown, hinsertions]
    · rfl
    · intro c hc
      rw [hown, List.mem_singleton] at hc
      rw [hc]
      exact Int.natCast_nonneg _
  rw [h.render_eq hne hn.symm, horder, houtput]
  cases deletesLine_lineRemoval (by omega : 0 < (Text.lines text).length) description with
  | inner _ hnext => omega
  | only _ hstart hstop hold =>
    have hexp : (lineRemoval text 0 description).expected = text := hold
    have hmade := Replay.run_append (u := []) hstart
      (by rw [hexp, hstop]; exact (Int.zero_add _).symm) [] []
    rw [hexp, List.nil_append, List.append_nil] at hmade
    rw [hmade]
    rfl

/-- The last line is deleted where its text stands: behind the declarations put in front of it, if
these bring it to the right place. -/
theorem Coherent.run_lastRemoved {before : Text} (h : Coherent (Index.parse options text) s)
    (hne : ∀ e ∈ (Index.parse options text).entries, e.rawText ≠ [])
    (hbefore : (Text.lines text)[k]? = some before)
    (hline : (Text.lines text)[k + 1]? = some line) (hn : k + 2 = (Text.lines text).length)
    (hremoved : s.isLineRemoved (k + 1) = true) (rest : List Edit) :
    (∀ tail, Text.terminated (s.additionsAt (k + 1)) ++ line = line ++ tail →
      Replay.run text (s.orderOn (k + 1) ++ rest) =
        Replay.run (Text.terminated ((Text.lines text).take k) ++ (before ++ tail)) rest) ∧
    ((∀ tail, Text.terminated (s.additionsAt (k + 1)) ++ line ≠ line ++ tail) →
      ∀ new, (Replay.run text (s.orderOn (k + 1) ++ rest)).result ≠ .ok new) := by
  obtain ⟨i, description, hown⟩ := h.ownChanges_of_removed hne hremoved
  obtain ⟨hstart, hstop, hold⟩ := lineRemoval_last hbefore hline hn description
  have hlt : k + 1 < (Text.lines text).length := by omega
  have hfront : Text.lineStart text k + before.length =
      (Text.terminated ((Text.lines text).take k) ++ before).length := by
    rw [List.length_append, Text.lineStart_eq (by omega)]
  have htext : text = Text.terminated ((Text.lines text).take (k + 1)) ++ line := by
    rcases Text.text_split hline with ⟨hlast, -⟩ | ⟨-, htext⟩
    · omega
    · exact htext
  have horder : s.orderOn (k + 1) =
      ((s.insertionsAt (k + 1)).map (·.edit)).reverse ++
        [lineRemoval text (k + 1) description] := by
    rw [orderOn, h.applicationOrder_on_last hne, hown]
    · rfl
    · intro c hc
      rw [hown, List.mem_singleton] at hc
      rw [hc]
      show (lineRemoval text (k + 1) description).start < _
      rw [hstart, Text.lineStart_succ hbefore hlt]
      omega
  -- the declarations are in place and the deletion is next
  have hrun : Replay.run text (s.orderOn (k + 1) ++ rest) =
      Replay.run (Text.terminated ((Text.lines text).take k) ++ before ++
        '\n' :: (Text.terminated (s.additionsAt (k + 1)) ++ line))
        (lineRemoval text (k + 1) description :: rest) := by
    have hmade := h.run_insertions hne hlt line (lineRemoval text (k + 1) description :: rest)
    rw [← htext] at hmade
    rw [horder, List.append_assoc, List.singleton_append, hmade,
      Text.terminated_take_succ hbefore]
    simp
  rw [hfront] at hstart hstop
  have hexp : (lineRemoval text (k + 1) description).expected = '\n' :: line := hold
  rw [hrun]
  refine ⟨fun tail htail => ?_, fun hnone new => ?_⟩
  · rw [← hexp] at hstop
    have hmade := Replay.run_append hstart hstop tail rest
    have hnew : (lineRemoval text (k + 1) description).newText = [] := rfl
    rw [hexp, hnew, List.append_nil] at hmade
    rw [htail, ← List.append_assoc, ← hmade]
    simp
  · refine Replay.run_of_not_fits EditKind.noConfusion (hold ▸ List.mem_cons_self) ?_ rest new
    rintro ⟨u, v, hsplit, hu, -⟩
    rw [hexp, List.append_assoc u] at hsplit
    rw [hstart, Int.natCast_inj] at hu
    have htail := (List.append_inj hsplit hu).2
    rw [List.cons_append, List.cons.injEq] at htail
    exact hnone v htail.2

/-- Behind a line whose line feed is gone the lines above are written only if it is kept. -/
theorem Coherent.run_cut (h : Coherent (Index.parse options text) s)
    (hne : ∀ e ∈ (Index.parse options text).entries, e.rawText ≠ [])
    (hline : (Text.lines text)[k]? = some line) (hk : k + 1 < (Text.lines text).length)
    {tail : Text} (htail : ∀ v, tail ≠ '\n' :: v) (new : Text) :
    (Replay.run (Text.terminated ((Text.lines text).take k) ++ (line ++ tail))
        (s.orderUpTo (k + 1))).result = .ok new ↔
      s.isLineRemoved k = false ∧ new = Text.terminated (s.outputUpTo k) ++
        (Text.terminated (s.additionsAt k) ++ (s.shownLine k line ++ tail)) := by
  have hlt : k < (Text.lines text).length := by omega
  have horder : s.orderUpTo (k + 1) = s.orderOn k ++ s.orderUpTo k :=
    h.applicationOrder_upTo_succ hne k
  rw [horder]
  cases hremoved : s.isLineRemoved k with
  | false =>
    rw [h.run_kept hne hline hremoved, h.run_upTo hne hlt]
    exact ⟨fun he => ⟨rfl, (Except.ok.inj he).symm⟩, fun he => congrArg Except.ok he.2.symm⟩
  | true =>
    refine ⟨fun he => absurd he ?_, fun he => Bool.noConfusion he.1⟩
    obtain ⟨description, hdelete⟩ := h.orderOn_of_removed hne hk hremoved
    obtain ⟨hstart, -, hold⟩ := lineRemoval_inner hline hk description
    rw [hdelete, List.cons_append]
    refine Replay.run_of_not_fits EditKind.noConfusion ?_ ?_ _ new
    · rw [hold]
      exact List.mem_append_right line List.mem_cons_self
    · rintro ⟨u, v, hsplit, hu, -⟩
      have hexp : (lineRemoval text k description).expected = line ++ ['\n'] := hold
      rw [hexp, List.append_assoc u, List.append_assoc line] at hsplit
      rw [hstart, Int.natCast_inj, Text.lineStart_eq hlt] at hu
      have hrest := (List.append_inj hsplit hu).2
      exact htail v (List.append_cancel_left hrest)

/-- With nothing put in front of the last line its removal leaves the line above at the end of the
text, and works if that line is kept. -/
theorem Coherent.run_lastRemoved_alone {before : Text}
    (h : Coherent (Index.parse options text) s)
    (hne : ∀ e ∈ (Index.parse options text).entries, e.rawText ≠ [])
    (hbefore : (Text.lines text)[k]? = some before)
    (hline : (Text.lines text)[k + 1]? = some line) (hn : k + 2 = (Text.lines text).length)
    (hremoved : s.isLineRemoved (k + 1) = true) (hnone : s.additionsAt (k + 1) = []) :
    (Replay.run text (s.orderOn (k + 1) ++ s.orderUpTo (k + 1))).result =
        .ok (Text.joinWith ['\n'] (s.outputUpTo (k + 1))) ↔ s.isLineRemoved k = false := by
  obtain ⟨hmade, -⟩ := h.run_lastRemoved hne hbefore hline hn hremoved (s.orderUpTo (k + 1))
  rw [hnone] at hmade
  rw [hmade [] (List.append_nil line).symm,
    h.run_cut hne hbefore (by omega) fun v => (List.cons_ne_nil _ v).symm]
  refine and_iff_left_of_imp fun hkept => ?_
  rw [List.append_nil, outputUpTo_succ, h.outputAt_eq hbefore, hkept,
    if_neg Bool.false_ne_true, ← List.append_assoc, Text.joinWith_concat, Text.terminated_append]
  simp

/-- With declarations put in front of the last line its removal takes as many characters as the
line has from where they begin, and works if they repeat the line. -/
theorem Coherent.run_lastRemoved_behind {before : Text}
    (h : Coherent (Index.parse options text) s)
    (hne : ∀ e ∈ (Index.parse options text).entries, e.rawText ≠ [])
    (hbefore : (Text.lines text)[k]? = some before)
    (hline : (Text.lines text)[k + 1]? = some line) (hn : k + 2 = (Text.lines text).length)
    (hremoved : s.isLineRemoved (k + 1) = true) (hsome : s.additionsAt (k + 1) ≠ []) :
    (Replay.run text (s.orderOn (k + 1) ++ s.orderUpTo (k + 1))).result =
        .ok (Text.joinWith ['\n'] (s.outputUpTo (k + 1) ++ s.additionsAt (k + 1))) ↔
      ∃ m, Text.terminated (s.additionsAt (k + 1)) = Text.terminated (List.replicate m line) := by
  obtain ⟨hmade, hrefused⟩ :=
    h.run_lastRemoved hne hbefore hline hn hremoved (s.orderUpTo (k + 1))
  have hterminated := Text.terminated_eq_joinWith hsome
  rw [Text.joinWith_append _ hsome]
  generalize Text.joinWith ['\n'] (s.additionsAt (k + 1)) = added at hterminated
  constructor
  · intro hok
    by_cases htail : ∃ tail, Text.terminated (s.additionsAt (k + 1)) ++ line = line ++ tail
    · obtain ⟨tail, htail⟩ := htail
      rw [hmade tail htail] at hok
      by_cases hstarts : ∃ v, tail = '\n' :: v
      · obtain ⟨v, rfl⟩ := hstarts
        rw [Text.terminated_take_feed hbefore, h.run_upTo hne (by omega)] at hok
        obtain rfl : v = added := List.append_cancel_left (Except.ok.inj hok)
        have hlf : '\n' ∉ line := Text.not_mem_of_mem_lines (List.mem_of_getElem? hline)
        refine Text.eq_replicate_of_commute hlf (Or.inr ⟨v, hterminated⟩) ?_
        rw [htail, hterminated]
        simp
      · have hcut := h.run_cut hne hbefore (by omega) (fun v e => hstarts ⟨v, e⟩)
        obtain ⟨hkept, hnew⟩ := (hcut _).1 hok
        rw [outputUpTo_succ, h.outputAt_eq hbefore, hkept, if_neg Bool.false_ne_true,
          Text.terminated_append, Text.terminated_append, List.append_assoc,
          List.append_assoc] at hnew
        have hrest := List.append_cancel_left (List.append_cancel_left hnew)
        rw [Text.terminated_cons, Text.terminated_nil, List.append_assoc] at hrest
        exact absurd ⟨added, (List.append_cancel_left hrest).symm⟩ hstarts
    · exact absurd hok (hrefused (fun tail e => htail ⟨tail, e⟩) _)
  · rintro ⟨m, hm⟩
    have hcommute := Text.replicate_commute line m
    rw [← hm, hterminated, ← List.cons_append, ← List.append_assoc] at hcommute
    have htail : Text.terminated (s.additionsAt (k + 1)) ++ line = line ++ '\n' :: added := by
      rw [hterminated]
      exact (List.append_cancel_right hcommute).symm
    rw [hmade _ htail, Text.terminated_take_feed hbefore, h.run_upTo hne (by omega)]

/-- A session that removes the last line of several renders its output lines if the line above is
kept or declarations come in between, and if these repeat the line. -/
theorem Coherent.render_of_lastRemoved (h : Coherent (Index.parse options text) s)
    (hne : ∀ e ∈ (Index.parse options text).entries, e.rawText ≠ [])
    (hline : (Text.lines text)[k + 1]? = some line) (hn : k + 2 = (Text.lines text).length)
    (hremoved : s.isLineRemoved (k + 1) = true) :
    s.render.result = .ok (Text.joinWith ['\n'] s.outputLines) ↔
      ¬ ((s.additionsAt (k + 1) = [] ∧ s.isLineRemoved k = true) ∨
        ∀ m, Text.terminated (s.additionsAt (k + 1)) ≠
          Text.terminated (List.replicate m line)) := by
  have hbefore := List.getElem?_eq_getElem (by omega : k < (Text.lines text).length)
  generalize (Text.lines text)[k] = before at hbefore
  have houtput : s.outputLines = s.outputUpTo (k + 1) ++ s.additionsAt (k + 1) := by
    rw [outputLines, h.lines, Index.parse_lines, ← hn, outputUpTo_succ, h.outputAt_eq hline,
      hremoved]
    exact congrArg _ (List.append_nil _)
  rw [h.render_eq hne hn, houtput]
  by_cases hnone : s.additionsAt (k + 1) = []
  · have hrepeat : ¬ ∀ m, Text.terminated (s.additionsAt (k + 1)) ≠
        Text.terminated (List.replicate m line) := by
      intro hall
      rw [hnone] at hall
      exact hall 0 rfl
    rw [or_iff_left hrepeat, and_iff_right hnone, Bool.not_eq_true]
    have halone := h.run_lastRemoved_alone hne hbefore hline hn hremoved hnone
    rw [hnone, List.append_nil]
    exact halone
  · rw [or_iff_right fun hboth => hnone hboth.1, not_forall_not]
    exact h.run_lastRemoved_behind hne hbefore hline hn hremoved hnone

/-! ## Every session -/

theorem Coherent.render_iff (h : Coherent (Index.parse options text) s)
    (hne : ∀ e ∈ (Index.parse options text).entries, e.rawText ≠ []) :
    s.render.result = .ok (Text.joinWith ['\n'] s.outputLines) ↔ ¬ s.Clash := by
  have hlines : s.index.lines = Text.lines text := h.lines
  obtain ⟨k, hn⟩ : ∃ k, k + 1 = (Text.lines text).length :=
    ⟨_, Nat.sub_add_cancel (Text.length_lines_pos text)⟩
  cases hremoved : s.isLineRemoved k with
  | false =>
    refine iff_of_true (h.render_of_lastKept hne hn hremoved) ?_
    rintro ⟨j, hj, hgone, -⟩
    rw [hlines] at hj
    obtain rfl : k = j + 1 := by omega
    rw [hremoved] at hgone
    cases hgone
  | true =>
    cases k with
    | zero =>
      refine iff_of_true (h.render_of_onlyRemoved hne hn.symm hremoved) ?_
      rintro ⟨j, hj, -⟩
      rw [hlines] at hj
      omega
    | succ k =>
      have hline := List.getElem?_eq_getElem (by omega : k + 1 < (Text.lines text).length)
      have hget : s.index.lines.getD (k + 1) [] = (Text.lines text)[k + 1] := by
        rw [hlines, List.getD_eq_getElem?_getD, hline]
        rfl
      rw [h.render_of_lastRemoved hne hline hn hremoved, ← hget]
      refine not_congr ⟨fun hclash => ⟨k, by rw [hlines]; exact hn, hremoved, hclash⟩, ?_⟩
      rintro ⟨j, hj, -, hclash⟩
      rw [hlines] at hj
      obtain rfl : k = j := by omega
      exact hclash

end

/-- Behind every course of requests declarations are to be added where the requests since the last
clear put them, entries count as removed that these requests removed, and the lines that follow
from this and from the pending replacements are rendered unless there is a clash. -/
theorem render_afterAll (kinds : List Kind) (skipComments : Bool) (editor : EditorOptions)
    (text : Text) (requests : List Request) :
    let base := Index.parse ⟨kinds.map Recognizer.ofKind, skipComments⟩ text
    let s := (start base editor).afterAll requests
    s.additions.map (·.1) = Request.additionLines (Text.lines text) requests ∧
      (∀ i, s.isRemoved i = true ↔ i ∈ (start base editor).removedSince [] requests) ∧
      (s.render.result = .ok (Text.joinWith ['\n'] s.outputLines) ↔ ¬ s.Clash) := by
  intro base s
  refine ⟨additions_afterAll base editor requests, fun i => ?_, ?_⟩
  · refine isRemoved_afterAll (fun j => ?_) requests i
    simp [isRemoved, start]
  · exact (coherent_afterAll base editor requests).render_iff fun e he =>
      Index.rawText_ne_nil_of_mem_parse he

/-- A script of two dependencies from which both are removed. -/
def bothRemoved : Session :=
  (start (Index.parse {} "implementation 'a:b:1'\nimplementation 'c:d:1'".toList) {}).afterAll
    [.removeDependency "a".toList "b".toList none, .removeDependency "c".toList "d".toList none]

/-- Once the last line has taken the line feed in front of it, the line above lacks it. -/
theorem render_bothRemoved : bothRemoved.outputLines = [] ∧ bothRemoved.render.result =
    .error (.outOfBounds .delete 0 23 22 "Remove dependency a:b".toList) := by
  decide

end Session

end BuildScript
