import BuildScript.Proofs.Index.Accuracy
/-!
# Entries of shifted lines

A line is read for itself: whether it makes an entry, and which, depends on its text, and where the
entry stands on the number of the line and its offset. So a script that gains or loses a line keeps
the entries of the other lines. Those in front of the line stay, those behind it move by one line
and by the characters of the line and its line feed.

Results:
* `entries_parse_joinWith`: the entries of a script are those of its lines, one after the other.
* `lineEntries_shift`: lines that start elsewhere have the same entries, moved.
* `parse_append`: parsing takes two parts of a script apart.
* `entries_parse_insert`, `entries_parse_eraseIdx`: a script that gains or loses a line keeps the
  other entries.
-/
namespace BuildScript

/-! ## Moving regions -/

/-- A position some lines down and some characters further on. -/
def Position.shift (lines offset : Int) (p : Position) : Position :=
  { p with line := p.line + lines, start := p.start + offset, stop := p.stop + offset }

/-- A region some lines down and some characters further on. Its columns stay. -/
def Region.shift (lines offset : Int) (r : Region) : Region :=
  ⟨r.first.shift lines offset, r.last.shift lines offset⟩

/-- An entry some lines down and some characters further on. It keeps its declaration, its text and
its columns. -/
def Entry.shift (lines offset : Int) (e : Entry) : Entry :=
  { e with region := e.region.shift lines offset }

theorem Region.shift_onLine (lines offset line lineStart localStart localStop : Int) :
    (onLine line lineStart localStart localStop).shift lines offset =
      onLine (line + lines) (lineStart + offset) localStart localStop := by
  simp only [onLine, shift, Position.shift, Position.point, Region.mk.injEq, Position.mk.injEq,
    and_true, true_and]
  omega

theorem Entry.shift_shift (e : Entry) (lines offset lines' offset' : Int) :
    (e.shift lines offset).shift lines' offset' = e.shift (lines + lines') (offset + offset') := by
  simp only [shift, Region.shift, Position.shift, Int.add_assoc]

theorem Entry.shift_zero (e : Entry) : e.shift 0 0 = e := by
  simp only [shift, Region.shift, Position.shift, Int.add_zero]

theorem Entry.map_shift_neg (entries : List Entry) (lines offset : Int) :
    (entries.map (Entry.shift lines offset)).map (Entry.shift (-lines) (-offset)) = entries := by
  rw [List.map_map, List.map_congr_left (g := id) fun e _ => ?_, List.map_id]
  rw [Function.comp_apply, shift_shift, Int.add_right_neg, Int.add_right_neg, shift_zero]
  rfl

theorem Entry.shift_ofSighting (number start m o : Nat) (s : Sighting) :
    (ofSighting number start s).shift m o = ofSighting (number + m) (start + o) s := by
  simp only [ofSighting, shift, Region.shift_onLine, Int.natCast_add]

/-- The entry that a sighting makes, if its bounds lie within its line and hold its text. -/
def Entry.ofSighting? (number start : Nat) (line : Text) (s : Sighting) : Option Entry :=
  if (0 ≤ s.start ∧ s.start ≤ s.stop ∧ s.stop ≤ line.length) ∧
      Text.slice line s.start s.stop = s.text then
    some (ofSighting number start s)
  else none

theorem Entry.ofSighting?_cut (number start : Nat) (u m v : Text) (d : Declaration) :
    ofSighting? number start (u ++ m ++ v) ⟨d, u.length, (u ++ m).length, m⟩ =
      some ⟨d, Region.onLine number start u.length (u ++ m).length, m⟩ := by
  have hbounds : (0 : Int) ≤ u.length ∧ (u.length : Int) ≤ (u ++ m).length ∧
      ((u ++ m).length : Int) ≤ (u ++ m ++ v).length := by
    simp only [List.length_append]
    omega
  have hslice : Text.slice (u ++ m ++ v) u.length (u ++ m).length = m := by
    rw [Text.slice_of_le, List.take_left, List.drop_left]
  exact if_pos ⟨hbounds, hslice⟩

theorem Entry.ofSighting?_shift (number start m o : Nat) (line : Text) (s : Sighting) :
    ofSighting? (number + m) (start + o) line s =
      (ofSighting? number start line s).map (shift m o) := by
  unfold ofSighting?
  split
  · rw [Option.map_some, shift_ofSighting]
  · rfl

namespace Index

/-! ## The entries of lines -/

/-- The entry that a line makes that has a number and a start. -/
def entryOfLine? (options : ParseOptions) (number start : Nat) (line : Text) : Option Entry :=
  if isSkipped options.skipComments line then none
  else (Recognizer.firstSighting? options.recognizers line).bind
    (Entry.ofSighting? number start line)

/-- The entries of consecutive lines, the first of them having the given number and start. -/
def lineEntries (options : ParseOptions) : (number start : Nat) → List Text → List Entry
  | _, _, [] => []
  | number, start, line :: rest =>
    (entryOfLine? options number start line).toList ++
      lineEntries options (number + 1) (start + line.length + 1) rest

section
variable {options : ParseOptions} {number start : Nat} {line : Text} {ls : List Text} {e : Entry}

theorem entryOfLine?_shift (options : ParseOptions) (number start m o : Nat) (line : Text) :
    entryOfLine? options (number + m) (start + o) line =
      (entryOfLine? options number start line).map (Entry.shift m o) := by
  unfold entryOfLine?
  split
  · rfl
  · rw [Option.map_bind]
    exact Option.bind_congr fun s _ => Entry.ofSighting?_shift number start m o line s

/-- Lines that start elsewhere have the same entries, moved. -/
theorem lineEntries_shift (options : ParseOptions) (number start m o : Nat) (ls : List Text) :
    lineEntries options (number + m) (start + o) ls =
      (lineEntries options number start ls).map (Entry.shift m o) := by
  induction ls generalizing number start with
  | nil => rfl
  | cons line ls ih =>
    have hnext : number + m + 1 = number + 1 + m ∧
        start + o + line.length + 1 = start + line.length + 1 + o := by omega
    rw [lineEntries, lineEntries, entryOfLine?_shift, hnext.1, hnext.2, ih, List.map_append]
    congr 1
    cases entryOfLine? options number start line <;> rfl

theorem lineEntries_append (options : ParseOptions) (number start : Nat) (ls ms : List Text) :
    lineEntries options number start (ls ++ ms) = lineEntries options number start ls ++
      lineEntries options (number + ls.length) (start + (Text.terminated ls).length) ms := by
  induction ls generalizing number start with
  | nil => rfl
  | cons line ls ih =>
    have hnext : number + 1 + ls.length = number + (line :: ls).length ∧
        start + line.length + 1 + (Text.terminated ls).length =
          start + (Text.terminated (line :: ls)).length := by
      rw [Text.terminated_cons, List.length_append, List.length_cons, List.length_cons]
      omega
    rw [List.cons_append, lineEntries, lineEntries, ih, hnext.1, hnext.2, List.append_assoc]

/-- The entries of lines with one more among them: those of the lines behind it move by one line
and by the characters of the line and its line feed. -/
theorem lineEntries_insert (options : ParseOptions) (number start : Nat) (front : List Text)
    (line : Text) (back : List Text) :
    lineEntries options number start (front ++ line :: back) =
      lineEntries options number start front ++
        ((entryOfLine? options (number + front.length) (start + (Text.terminated front).length)
          line).toList ++
        (lineEntries options (number + front.length) (start + (Text.terminated front).length)
          back).map (Entry.shift 1 (line.length + 1))) := by
  rw [lineEntries_append, lineEntries, Nat.add_assoc (start + _), lineEntries_shift]
  rfl

theorem line_of_mem_lineEntries (h : e ∈ lineEntries options number start ls) :
    number ≤ e.region.first.line ∧ e.region.first.line < number + ls.length := by
  induction ls generalizing number start with
  | nil => cases h
  | cons line ls ih =>
    rw [List.length_cons]
    rcases List.mem_append.1 h with h | h
    · rw [Option.mem_toList, entryOfLine?] at h
      split at h
      · cases h
      · obtain ⟨s, -, h⟩ := Option.bind_eq_some_iff.1 h
        rw [Entry.ofSighting?] at h
        split at h
        · cases h
          show (number : Int) ≤ number ∧ (number : Int) < _
          omega
        · cases h
    · have := ih h
      omega

end

/-! ## The entries of a script -/

section
variable {options : ParseOptions} {text : Text}

/-- Whether a sighting is bound, and to what, shows on its line. -/
theorem toOption_bindSighting {line : Text} {k : Nat} (hline : (Text.lines text)[k]? = some line)
    (s : Sighting) :
    (bindSighting text (k + 1) (Text.lineStart text k) line s).toOption =
      Entry.ofSighting? (k + 1) (Text.lineStart text k) line s := by
  unfold bindSighting Entry.ofSighting?
  by_cases hbounds : 0 ≤ s.start ∧ s.start ≤ s.stop ∧ s.stop ≤ line.length
  · obtain ⟨i, hi⟩ := Int.eq_ofNat_of_zero_le hbounds.1
    obtain ⟨j, hj⟩ := Int.eq_ofNat_of_zero_le (Int.le_trans hbounds.1 hbounds.2.1)
    obtain ⟨u, m, v, rfl, rfl, rfl, hm⟩ :=
      Text.exists_cut (s := line) (i := i) (j := j) (by omega) (by omega)
    have hcovers : (Region.onLine (k + 1 : Nat) (Text.lineStart text k) s.start s.stop).Covers
        text k u m v := ⟨hline, by rw [hi, hj]; rfl⟩
    have hslice : Text.slice (u ++ m ++ v) s.start s.stop = m := by
      rw [hi, hj, Text.slice_of_le]
      exact hm.symm
    rw [if_pos hbounds, hslice]
    dsimp only
    rw [hcovers.slice_eq]
    by_cases htext : m = s.text
    · rw [if_pos htext, if_pos ⟨hbounds, htext⟩, Entry.ofSighting, ← htext]
      rfl
    · rw [if_neg htext, if_neg fun h => htext h.2]
      rfl
  · rw [if_neg hbounds, if_neg fun h => hbounds h.1]
    rfl

/-- What a line of a script contributes, warnings left out, is the entry that it makes. -/
theorem readLine_bind_toOption (options : ParseOptions) {line : Text} {k : Nat}
    (hline : (Text.lines text)[k]? = some line) :
    (readLine options text (k + 1) (Text.lineStart text k) line).bind Except.toOption =
      entryOfLine? options (k + 1) (Text.lineStart text k) line := by
  unfold readLine entryOfLine?
  split
  · rfl
  · rw [Option.bind_map]
    exact Option.bind_congr fun s _ => toOption_bindSighting hline s

theorem filterMap_readLines (options : ParseOptions) (front : List Text) {ls : List Text}
    (h : Text.lines text = front ++ ls) :
    (readLines options text (front.length + 1) (Text.terminated front).length ls).filterMap
        Except.toOption =
      lineEntries options (front.length + 1) (Text.terminated front).length ls := by
  induction ls generalizing front with
  | nil => rfl
  | cons line ls ih =>
    have hline : (Text.lines text)[front.length]? = some line := by
      rw [h, List.getElem?_append_right (Nat.le_refl _), Nat.sub_self, List.getElem?_cons_zero]
    have hstart : (Text.terminated front).length = Text.lineStart text front.length := by
      rw [Text.lineStart_eq (List.getElem?_eq_some_iff.1 hline).1, h, List.take_left]
    have hrest := ih (front ++ [line]) (by rw [h, List.append_assoc]; rfl)
    have hnext : (Text.terminated (front ++ [line])).length =
        (Text.terminated front).length + line.length + 1 := by
      rw [Text.terminated_append, Text.terminated_cons, Text.terminated_nil, List.length_append,
        List.length_append, List.length_cons, List.length_nil]
      omega
    rw [hnext, List.length_append, List.length_singleton] at hrest
    rw [readLines, lineEntries, List.filterMap_append, hrest, hstart,
      ← readLine_bind_toOption options hline]
    congr 1
    cases readLine options text (front.length + 1) (Text.lineStart text front.length) line with
    | none => rfl
    | some c => cases c <;> rfl

theorem entries_parse_eq_lineEntries (options : ParseOptions) (text : Text) :
    (parse options text).entries = lineEntries options 1 0 (Text.lines text) :=
  (entries_parse_eq_filterMap options text).trans
    (filterMap_readLines options [] (List.nil_append _).symm)

/-- The entries of a script are those of its lines, one after the other. -/
theorem entries_parse_joinWith (options : ParseOptions) {ls : List Text}
    (h : ∀ l ∈ ls, '\n' ∉ l) :
    (parse options (Text.joinWith ['\n'] ls)).entries = lineEntries options 1 0 ls := by
  rw [entries_parse_eq_lineEntries]
  cases ls with
  | nil => rfl
  | cons l ls => rw [Text.lines_joinWith (List.cons_ne_nil l ls) h]

/-- The entries of a script in two parts, the second of which begins on a line of its own: those of
the first part, and behind them those of the second, moved by the lines of the first and by its
characters and the line feed. -/
theorem entries_parse_append (options : ParseOptions) (a b : Text) :
    (parse options (a ++ '\n' :: b)).entries = (parse options a).entries ++
      (parse options b).entries.map (Entry.shift (Text.lines a).length (a.length + 1)) := by
  have hlength : (Text.terminated (Text.lines a)).length = a.length + 1 := by
    rw [Text.terminated_eq_joinWith (Text.lines_ne_nil a), Text.joinWith_lines]
    simp
  have hmoved := lineEntries_shift options 1 0 (Text.lines a).length (a.length + 1) (Text.lines b)
  simp only [entries_parse_eq_lineEntries]
  rw [Text.lines_append, lineEntries_append, hlength, hmoved, Int.natCast_add]
  rfl

/-- Parsing takes two parts of a script apart. Whatever the recognizers, and whether or not comments
are skipped, the entries of a kind are those of the first part, and behind them those of the second,
moved by the lines of the first and by its characters and the line feed between them; and so are
all entries in the order of the script. -/
theorem parse_append (options : ParseOptions) (a b : Text) :
    (∀ kind, (parse options (a ++ '\n' :: b)).ofKind kind = (parse options a).ofKind kind ++
      ((parse options b).ofKind kind).map (Entry.shift (Text.lines a).length (a.length + 1))) ∧
    (parse options (a ++ '\n' :: b)).inOrder = (parse options a).inOrder ++
      (parse options b).inOrder.map (Entry.shift (Text.lines a).length (a.length + 1)) := by
  constructor
  · intro kind
    simp only [ofKind, entries_parse_append, List.filter_append, List.filter_map]
    rfl
  · simp only [inOrder_parse, entries_parse_append]

/-- A script that gains a line keeps its entries. Those behind the line move down by one line and by
the characters of the line and its line feed. -/
theorem entries_parse_insert (options : ParseOptions) {line : Text} {k : Nat}
    (hline : '\n' ∉ line) (hk : k ≤ (Text.lines text).length) : ∃ before after start,
      (parse options text).entries = before ++ after ∧
      (∀ e ∈ before, e.region.first.line < k + 1) ∧ (∀ e ∈ after, k + 1 ≤ e.region.first.line) ∧
      (parse options (Text.joinWith ['\n']
          ((Text.lines text).take k ++ line :: (Text.lines text).drop k))).entries =
        before ++ ((entryOfLine? options (k + 1) start line).toList ++
          after.map (Entry.shift 1 (line.length + 1))) := by
  have hplain : ∀ l ∈ (Text.lines text).take k ++ line :: (Text.lines text).drop k, '\n' ∉ l := by
    intro l hl
    rcases List.mem_append.1 hl with hl | hl
    · exact Text.not_mem_of_mem_lines (List.mem_of_mem_take hl)
    · rcases List.mem_cons.1 hl with rfl | hl
      · exact hline
      · exact Text.not_mem_of_mem_lines (List.mem_of_mem_drop hl)
  have hlength : ((Text.lines text).take k).length = k := List.length_take_of_le hk
  have hold := entries_parse_eq_lineEntries options text
  rw [← List.take_append_drop k (Text.lines text), lineEntries_append, hlength,
    Nat.add_comm 1] at hold
  have hnew := entries_parse_joinWith options hplain
  rw [lineEntries_insert, hlength, Nat.add_comm 1] at hnew
  refine ⟨_, _, _, hold, fun e he => ?_, fun e he => ?_, hnew⟩
  · have := (line_of_mem_lineEntries he).2
    rw [hlength] at this
    omega
  · have := (line_of_mem_lineEntries he).1
    omega

/-- A script that loses the line of an entry keeps the other entries. Those behind it move up by one
line and by the characters of the line and its line feed. -/
theorem entries_parse_eraseIdx {line : Text} {before after : List Entry} {e : Entry}
    (hline : (Text.lines text)[e.line]? = some line)
    (h : (parse options text).entries = before ++ e :: after) :
    (parse options (Text.joinWith ['\n'] ((Text.lines text).eraseIdx e.line))).entries =
      before ++ after.map (Entry.shift (-1) (-(line.length + 1))) := by
  have hmem : e ∈ (parse options text).entries := by
    rw [h]
    exact List.mem_append_right _ List.mem_cons_self
  have hfirst := first_line_of_mem_parse hmem
  have hk := (List.getElem?_eq_some_iff.1 hline).1
  have hplain : ∀ l ∈ (Text.lines text).eraseIdx e.line, '\n' ∉ l := fun l hl =>
    Text.not_mem_of_mem_lines (List.mem_of_mem_eraseIdx hl)
  rw [entries_parse_joinWith options hplain, List.eraseIdx_eq_take_drop_succ,
    lineEntries_append]
  generalize hfront : (Text.lines text).take e.line = front
  generalize hback : (Text.lines text).drop (e.line + 1) = back
  have hlength : front.length = e.line := by
    rw [← hfront, List.length_take]
    omega
  have hsplit : Text.lines text = front ++ line :: back := by
    rw [← hfront, ← hback, ← List.getElem_eq_iff hk |>.2 hline, ← List.drop_eq_getElem_cons hk,
      List.take_append_drop]
  rw [entries_parse_eq_lineEntries, hsplit, lineEntries_insert] at h hmem
  -- the entry is the one that its line makes, since the others stand on other lines
  have hnot₁ : e ∉ lineEntries options 1 0 front := by
    intro he
    have := (line_of_mem_lineEntries he).2
    omega
  have hnot₂ : e ∉ (lineEntries options (1 + front.length)
      (0 + (Text.terminated front).length) back).map (Entry.shift 1 (line.length + 1)) := by
    intro he
    obtain ⟨e', he', rfl⟩ := List.mem_map.1 he
    have hline' := (line_of_mem_lineEntries he').1
    have hshift : (e'.shift 1 (line.length + 1)).region.first.line = e'.region.first.line + 1 := rfl
    omega
  rw [List.mem_append, or_iff_right hnot₁, List.mem_append, or_iff_left hnot₂,
    Option.mem_toList] at hmem
  rw [hmem, Option.toList_some, List.singleton_append,
    List.append_cons_inj_of_notMem hnot₁ hnot₂] at h
  rw [← h.1, ← h.2.2, Entry.map_shift_neg]

end

end Index

end BuildScript
