import Mathlib.Data.List.Basic
import BuildScript.Index.Parse
import BuildScript.Proofs.Text.Layout
import BuildScript.Proofs.Declaration.Bounds
/-!
# Where entries stand

An entry of a parsed script covers a piece of one line, and later entries stand on later lines.
`Region.Covers` cuts the line around the piece, so that what an edit of the entry does to the line
can be written down as the middle part changing.

Results:
* `entries_parse`: the entries of a script are what its lines contribute, line by line.
* `covers_of_mem_parse`: an entry covers its text on its line.
* `exists_find?_of_mem_parse`: and was found there by the recognizer of its kind.
* `pairwise_line_parse`: entries stand on different lines, in the order of the lines.
-/
namespace BuildScript

/-- A region is the part `m` of the line `u ++ m ++ v` with index `k`. -/
structure Region.Covers (text : Text) (r : Region) (k : Nat) (u m v : Text) : Prop where
  line : (Text.lines text)[k]? = some (u ++ m ++ v)
  region : r = Region.onLine (k + 1) (Text.lineStart text k) u.length (u ++ m).length

/-- The line that a region begins on, counting from zero. -/
def Region.line (r : Region) : Nat := (r.first.line - 1).toNat

/-- The number of characters in front of a region on the line that it begins on. -/
def Region.column (r : Region) : Nat := (r.first.column - 1).toNat

/-- The line that an entry stands on, counting from zero. -/
def Entry.line (e : Entry) : Nat := e.region.line

namespace Region.Covers

variable {text : Text} {r : Region} {k : Nat} {u m v : Text}

theorem lt (h : r.Covers text k u m v) : k < (Text.lines text).length :=
  (List.getElem?_eq_some_iff.1 h.line).1

theorem start_eq (h : r.Covers text k u m v) :
    r.start = (Text.lineStart text k + u.length : Nat) := by
  rw [h.region]
  exact (Int.natCast_add _ _).symm

theorem stop_eq (h : r.Covers text k u m v) :
    r.stop = (Text.lineStart text k + u.length + m.length : Nat) := by
  rw [h.region, Nat.add_assoc, ← List.length_append]
  exact (Int.natCast_add _ _).symm

theorem length_front (h : r.Covers text k u m v) :
    (Text.terminated ((Text.lines text).take k) ++ u).length =
      Text.lineStart text k + u.length := by
  rw [List.length_append, Text.lineStart_eq h.lt]

theorem text_eq (h : r.Covers text k u m v) :
    ∃ w, text = Text.terminated ((Text.lines text).take k) ++ u ++ m ++ w := by
  rcases Text.text_split h.line with ⟨-, e⟩ | ⟨-, e⟩
  · exact ⟨v ++ '\n' :: Text.joinWith ['\n'] ((Text.lines text).drop (k + 1)), by
      simpa only [List.append_assoc] using e⟩
  · exact ⟨v, by simpa only [List.append_assoc] using e⟩

theorem slice_eq (h : r.Covers text k u m v) : Text.slice text r.start r.stop = m := by
  obtain ⟨w, hw⟩ := h.text_eq
  have hlen := h.length_front
  rw [h.start_eq, h.stop_eq, Text.slice_of_le, ← hlen]
  generalize Text.terminated ((Text.lines text).take k) ++ u = front at hw
  rw [hw]
  exact Text.drop_take_append front m w

theorem line_eq (h : r.Covers text k u m v) : r.line = k := by
  rw [Region.line, h.region]
  simp [Region.onLine]

theorem column_eq (h : r.Covers text k u m v) : r.column = u.length := by
  rw [Region.column, h.region]
  simp [Region.onLine]

theorem length_eq (h : r.Covers text k u m v) : r.length = m.length := by
  rw [Region.length, h.start_eq, h.stop_eq]
  omega

end Region.Covers

namespace Index

/-! ## Contributions of lines -/

/-- The entry that a line contributes, lines counting from zero. -/
def entryOn? (options : ParseOptions) (text : Text) (k : Nat) : Option Entry :=
  (Text.lines text)[k]?.bind fun line =>
    (readLine options text (k + 1) (Text.lineStart text k) line).bind Except.toOption

theorem readLines_eq (options : ParseOptions) (text : Text) (number start : Nat) (ls : List Text) :
    readLines options text number start ls = (List.range ls.length).filterMap fun k =>
      ls[k]?.bind fun line =>
        readLine options text (number + k) (start + (Text.terminated (ls.take k)).length) line := by
  induction ls generalizing number start with
  | nil => rfl
  | cons l ls ih =>
    rw [readLines, ih, List.length_cons, List.range_succ_eq_map, List.filterMap_cons,
      List.filterMap_map]
    have htail : ∀ k, number + 1 + k = number + (k + 1) ∧
        start + l.length + 1 + (Text.terminated (ls.take k)).length =
          start + (Text.terminated ((l :: ls).take (k + 1))).length := by
      intro k
      rw [List.take_succ_cons, Text.terminated_cons, List.length_append, List.length_cons]
      omega
    simp only [htail, Function.comp_def, Nat.succ_eq_add_one, List.getElem?_cons_succ]
    simp only [List.getElem?_cons_zero, Option.bind_some, Nat.add_zero, List.take_zero,
      Text.terminated_nil, List.length_nil]
    cases readLine options text number start l <;> rfl

theorem readLines_parse (options : ParseOptions) (text : Text) :
    readLines options text 1 0 (Text.lines text) =
      (List.range (Text.lines text).length).filterMap fun k => (Text.lines text)[k]?.bind
        (readLine options text (k + 1) (Text.lineStart text k)) := by
  rw [readLines_eq]
  refine List.filterMap_congr fun k hk => ?_
  rw [List.mem_range] at hk
  rw [Text.lineStart_eq hk, Nat.zero_add, Nat.add_comm 1 k]

/-- The entries of a script are what its lines contribute, warnings left out. -/
theorem entries_parse_eq_filterMap (options : ParseOptions) (text : Text) :
    (parse options text).entries =
      (readLines options text 1 0 (Text.lines text)).filterMap Except.toOption := by
  rw [parse]
  dsimp only
  congr 1
  funext c
  cases c <;> rfl

/-- The entries of a script are what its lines contribute, line by line. -/
theorem entries_parse (options : ParseOptions) (text : Text) :
    (parse options text).entries =
      (List.range (Text.lines text).length).filterMap (entryOn? options text) := by
  rw [entries_parse_eq_filterMap, readLines_parse, List.filterMap_filterMap]
  simp only [Option.bind_assoc]
  rfl

theorem bindSighting_eq {text u m v : Text} {k : Nat}
    (hline : (Text.lines text)[k]? = some (u ++ m ++ v)) (d : Declaration) :
    bindSighting text (k + 1) (Text.lineStart text k) (u ++ m ++ v)
        ⟨d, u.length, (u ++ m).length, m⟩ =
      .ok ⟨d, Region.onLine (k + 1 : Nat) (Text.lineStart text k) u.length (u ++ m).length, m⟩ := by
  have hcovers : (Region.onLine (k + 1 : Nat) (Text.lineStart text k) u.length
      (u ++ m).length).Covers text k u m v := ⟨hline, rfl⟩
  have hbounds : (0 : Int) ≤ u.length ∧ (u.length : Int) ≤ (u ++ m).length ∧
      ((u ++ m).length : Int) ≤ (u ++ m ++ v).length := by
    simp only [List.length_append]
    omega
  unfold bindSighting
  rw [if_pos hbounds]
  dsimp only
  rw [if_pos hcovers.slice_eq, hcovers.slice_eq]

theorem bindSighting_eq_ok {text line : Text} {number start : Nat} {s : Sighting} {e : Entry}
    (h : bindSighting text number start line s = .ok e) :
    ∃ i j : Nat, i ≤ j ∧ j ≤ line.length ∧ s.start = i ∧ s.stop = j ∧
      e.declaration = s.declaration ∧ e.region = Region.onLine number start i j ∧
      e.rawText = Text.slice text e.region.start e.region.stop ∧ e.rawText = s.text := by
  unfold bindSighting at h
  split at h
  · next hb =>
    obtain ⟨i, hi⟩ := Int.eq_ofNat_of_zero_le hb.1
    obtain ⟨j, hj⟩ := Int.eq_ofNat_of_zero_le (Int.le_trans hb.1 hb.2.1)
    dsimp only at h
    split at h
    · next ht =>
      cases h
      rw [hi, hj] at hb ht ⊢
      exact ⟨i, j, by omega, by omega, rfl, rfl, rfl, rfl, rfl, ht⟩
    · cases h
  · cases h

/-- A line that contributes an entry is read, and its first sighting is bound. -/
theorem sighting_of_entryOn? {options : ParseOptions} {text : Text} {k : Nat} {e : Entry}
    (h : entryOn? options text k = some e) : ∃ line sighting,
      (Text.lines text)[k]? = some line ∧ isSkipped options.skipComments line = false ∧
      Recognizer.firstSighting? options.recognizers line = some sighting ∧
      bindSighting text (k + 1) (Text.lineStart text k) line sighting = .ok e := by
  obtain ⟨line, hline, h⟩ := Option.bind_eq_some_iff.1 h
  obtain ⟨c, hc, h⟩ := Option.bind_eq_some_iff.1 h
  rw [readLine] at hc
  split at hc
  · cases hc
  · next hread =>
    obtain ⟨s, hs, rfl⟩ := Option.map_eq_some_iff.1 hc
    refine ⟨line, s, hline, Bool.eq_false_iff.2 hread, hs, ?_⟩
    cases hb : bindSighting text (k + 1) (Text.lineStart text k) line s with
    | error w =>
      rw [hb] at h
      cases h
    | ok e' =>
      rw [hb] at h
      cases h
      rfl

theorem covers_of_entryOn? {options : ParseOptions} {text : Text} {k : Nat} {e : Entry}
    (h : entryOn? options text k = some e) : ∃ u v, e.region.Covers text k u e.rawText v := by
  obtain ⟨line, s, hline, -, -, hb⟩ := sighting_of_entryOn? h
  obtain ⟨i, j, hij, hj, -, -, -, hregion, hraw, -⟩ := bindSighting_eq_ok hb
  obtain ⟨u, m, v, hcut, hu, hm, -⟩ := Text.exists_cut hij hj
  have hcovers : e.region.Covers text k u m v :=
    ⟨by rw [← hcut, hline], by rw [hregion, hu, hm]; rfl⟩
  refine ⟨u, v, ?_⟩
  rw [hraw, hcovers.slice_eq]
  exact hcovers

/-- An entry of a parsed script covers its text on its line. -/
theorem covers_of_mem_parse {options : ParseOptions} {text : Text} {e : Entry}
    (h : e ∈ (parse options text).entries) : ∃ u v, e.region.Covers text e.line u e.rawText v := by
  rw [entries_parse, List.mem_filterMap] at h
  obtain ⟨k, -, h⟩ := h
  obtain ⟨u, v, hc⟩ := covers_of_entryOn? h
  exact ⟨u, v, by rw [Entry.line, hc.line_eq]; exact hc⟩

/-- An entry that a built-in recognizer makes is what that recognizer finds on its line. -/
theorem exists_find?_of_mem_parse {kinds : List Kind} {skipComments : Bool} {text : Text}
    {e : Entry} (h : e ∈ (parse ⟨kinds.map Recognizer.ofKind, skipComments⟩ text).entries) :
    ∃ found u v, e.region.Covers text e.line u e.rawText v ∧
      Declaration.find? e.kind (u ++ e.rawText ++ v) = some found ∧ e.declaration = found.value ∧
      found.start = u.length ∧ found.stop = (u ++ e.rawText).length := by
  rw [entries_parse, List.mem_filterMap] at h
  obtain ⟨k, -, h⟩ := h
  obtain ⟨line, s, hline, -, hs, hb⟩ := sighting_of_entryOn? h
  obtain ⟨i, j, hij, hj, hstart, hstop, hd, hregion, hraw, -⟩ := bindSighting_eq_ok hb
  obtain ⟨r, hr, hs⟩ := List.exists_of_findSome?_eq_some hs
  obtain ⟨kind, -, rfl⟩ := List.mem_map.1 hr
  obtain ⟨found, hfound, rfl⟩ := Option.map_eq_some_iff.1 hs
  obtain ⟨u, m, v, rfl, rfl, rfl, -⟩ := Text.exists_cut hij hj
  have hcovers : e.region.Covers text k u m v := ⟨hline, hregion⟩
  obtain rfl : e.rawText = m := by rw [hraw, hcovers.slice_eq]
  obtain rfl : e.kind = kind :=
    (congrArg Declaration.kind hd).trans (Declaration.kind_of_find? hfound)
  refine ⟨found, u, v, ?_, hfound, hd, Int.ofNat_inj.1 hstart, Int.ofNat_inj.1 hstop⟩
  rw [Entry.line, hcovers.line_eq]
  exact hcovers

/-- Entries stand on different lines, in the order of the lines. -/
theorem pairwise_line_parse (options : ParseOptions) (text : Text) :
    (parse options text).entries.Pairwise fun a b => a.line < b.line := by
  rw [entries_parse, List.pairwise_filterMap]
  refine List.pairwise_lt_range.imp ?_
  intro j k hjk a ha b hb
  obtain ⟨_, _, hca⟩ := covers_of_entryOn? ha
  obtain ⟨_, _, hcb⟩ := covers_of_entryOn? hb
  rw [Entry.line, Entry.line, hca.line_eq, hcb.line_eq]
  exact hjk

theorem rawText_ne_nil_of_mem_parse {kinds : List Kind} {skipComments : Bool} {text : Text}
    {e : Entry} (h : e ∈ (parse ⟨kinds.map Recognizer.ofKind, skipComments⟩ text).entries) :
    e.rawText ≠ [] := by
  rw [entries_parse, List.mem_filterMap] at h
  obtain ⟨k, -, h⟩ := h
  obtain ⟨line, s, -, -, hs, hb⟩ := sighting_of_entryOn? h
  obtain ⟨i, j, -, -, hij, hj, htext⟩ := Recognizer.bounds_of_firstSighting? hs
  obtain ⟨_, _, _, _, _, _, _, _, _, hraw⟩ := bindSighting_eq_ok hb
  rw [hraw, htext, ← List.length_pos_iff, List.length_drop, List.length_take]
  omega

end Index

end BuildScript
