import BuildScript.Proofs.Index.Accuracy
/-!
# Entries at a line and column

A place in a script is named by a line and a column, both counted from one, or by an offset. A
region gives its end as the column of its last character, so that a look-up by line and column
includes both ends, while its offsets leave the end out. Both say the same of a region on one line
that is not empty, and these are the regions of a parsed script.

A column may lie behind the end of its line. It then names an offset on a later line, which is why
a look-up also asks for the line of the region.

Results:
* `Region.Covers.contains_iff`: a place is in a region just when its offset is.
* `offsetAt?_eq_some_iff`: which offset a line and column name.
* `Index.entryAt?_eq_some_iff`: the entry at a place is the one whose text holds the character
  there.
-/
namespace BuildScript

/-- The offset that a line and a column name, both counted from one. -/
def Text.offsetAt? (s : Text) (line column : Int) : Option Nat :=
  if 1 ≤ line ∧ 1 ≤ column then
    (lineStarts s)[(line - 1).toNat]?.map (· + (column - 1).toNat)
  else none

section
variable {text : Text} {r : Region} {k offset : Nat} {u m v : Text} {line column : Int}

theorem Text.offsetAt?_eq_some_iff : text.offsetAt? line column = some offset ↔
    ∃ k, k < (lines text).length ∧ line = k + 1 ∧ 1 ≤ column ∧
      (offset : Int) = lineStart text k + (column - 1) := by
  unfold offsetAt?
  constructor
  · intro h
    split at h
    · next hpos =>
      obtain ⟨start, hstart, hoffset⟩ := Option.map_eq_some_iff.1 h
      have hk : (line - 1).toNat < (lines text).length := by
        rw [← length_lineStarts]
        exact (List.getElem?_eq_some_iff.1 hstart).1
      rw [(getElem?_lineStarts hk).1, Option.some.injEq] at hstart
      refine ⟨(line - 1).toNat, hk, ?_, hpos.2, ?_⟩
      · omega
      · omega
    · cases h
  · rintro ⟨k, hk, rfl, hcolumn, hoffset⟩
    have hline : ((k : Int) + 1 - 1).toNat = k := by omega
    rw [if_pos ⟨by omega, hcolumn⟩, hline, (getElem?_lineStarts hk).1, Option.map_some,
      Option.some.injEq]
    omega

/-- A place is in a region on one line, and a column there is counted from the first to the last
character of the region. -/
theorem Region.Covers.contains_eq (h : r.Covers text k u m v) (hm : m ≠ []) :
    r.contains line column = true ↔
      line = k + 1 ∧ u.length + 1 ≤ column ∧ column ≤ u.length + m.length := by
  have hpos := List.length_pos_iff.2 hm
  have hlast : max ((u ++ m).length : Int) 1 = u.length + m.length := by
    rw [List.length_append]
    omega
  rw [h.region, contains, onLine]
  simp only [Position.point, hlast, Bool.not_eq_true', Bool.or_eq_false_iff, Bool.and_eq_false_imp,
    beq_iff_eq, decide_eq_false_iff_not]
  omega

/-- A place is in a region just when the region holds the character at its offset. -/
theorem Region.Covers.contains_iff (h : r.Covers text k u m v) (hm : m ≠ []) :
    r.contains line column = true ↔ r.first.line = line ∧ ∃ offset c,
      text.offsetAt? line column = some offset ∧ text[offset]? = some c ∧
        r.start ≤ offset ∧ (offset : Int) < r.stop := by
  have hline : r.first.line = k + 1 := congrArg (·.first.line) h.region
  rw [h.contains_eq hm, hline, h.start_eq, h.stop_eq]
  simp only [Text.offsetAt?_eq_some_iff]
  constructor
  · rintro ⟨rfl, hfirst, hlast⟩
    -- the place is inside the text because the region is
    obtain ⟨w, hw⟩ := h.text_eq
    have hlength := congrArg List.length hw
    rw [List.length_append, List.length_append, h.length_front] at hlength
    have hlt : Text.lineStart text k + (column - 1).toNat < text.length := by omega
    refine ⟨rfl, _, _, ⟨k, h.lt, rfl, ?_, ?_⟩, List.getElem?_eq_getElem hlt, ?_, ?_⟩
    all_goals omega
  · rintro ⟨hk, offset, c, ⟨j, -, hj, -, hoffset⟩, -, hfirst, hlast⟩
    obtain rfl : j = k := by omega
    refine ⟨hj, ?_, ?_⟩
    all_goals omega

end

namespace Index

variable {index : Index} {kind : Kind} {e : Entry}

theorem mem_ofKind : e ∈ index.ofKind kind ↔ e ∈ index.entries ∧ e.kind = kind := by
  rw [ofKind, List.mem_filter, decide_eq_true_iff]

theorem find?_eq_some_iff_of_unique {α : Type} {p : α → Bool} {l : List α} {a : α}
    (hunique : ∀ b ∈ l, ∀ c ∈ l, p b = true → p c = true → b = c) :
    l.find? p = some a ↔ a ∈ l ∧ p a = true := by
  constructor
  · exact fun h => ⟨List.mem_of_find?_eq_some h, List.find?_some h⟩
  · rintro ⟨ha, hp⟩
    obtain ⟨b, hb⟩ := Option.isSome_iff_exists.1 (List.find?_isSome.2 ⟨a, ha, hp⟩)
    rw [hb, hunique b (List.mem_of_find?_eq_some hb) a ha (List.find?_some hb) hp]

/-- The entry of a kind at a line and column is the one on that line whose text holds the character
at the offset that they name. -/
theorem entryAt?_eq_some_iff (kinds : List Kind) (enabled : Option (List Kind))
    (skipComments : Bool) (text : Text) (kind : Kind) (line column : Int) (e : Entry) :
    (parse (.builtIn kinds enabled skipComments) text).entryAt? kind line column = some e ↔
      e ∈ (parse (.builtIn kinds enabled skipComments) text).ofKind kind ∧
        e.region.first.line = line ∧ ∃ offset c,
          text.offsetAt? line column = some offset ∧ text[offset]? = some c ∧
            e.region.start ≤ offset ∧ (offset : Int) < e.region.stop := by
  obtain ⟨used, hused⟩ := ParseOptions.exists_builtIn_eq kinds enabled skipComments
  rw [hused, entryAt?]
  have hcontains : ∀ b ∈ (parse ⟨used.map Recognizer.ofKind, skipComments⟩ text).ofKind kind,
      (b.region.contains line column = true ↔ b.region.first.line = line ∧ ∃ offset c,
        text.offsetAt? line column = some offset ∧ text[offset]? = some c ∧
          b.region.start ≤ offset ∧ (offset : Int) < b.region.stop) := by
    intro b hb
    obtain ⟨hmem, -⟩ := mem_ofKind.1 hb
    obtain ⟨u, v, hcov⟩ := covers_of_mem_parse hmem
    exact hcov.contains_iff (rawText_ne_nil_of_mem_parse hmem)
  rw [find?_eq_some_iff_of_unique]
  · exact and_congr_right (hcontains e)
  · intro b hb c hc hbplace hcplace
    -- both stand on the line asked for, and a line makes one entry at most
    have hline : b.line = c.line := by
      have hb' := first_line_of_mem_parse (mem_ofKind.1 hb).1
      have hc' := first_line_of_mem_parse (mem_ofKind.1 hc).1
      have hbline := ((hcontains b hb).1 hbplace).1
      have hcline := ((hcontains c hc).1 hcplace).1
      omega
    have hentry := mem_entries_parse_iff_entryOn?.1 ⟨(mem_ofKind.1 hb).1, hline⟩
    rw [mem_entries_parse_iff_entryOn?.1 ⟨(mem_ofKind.1 hc).1, rfl⟩] at hentry
    exact (Option.some.inj hentry).symm

end Index

end BuildScript
