import BuildScript.Proofs.Text.Return
import BuildScript.Proofs.Declaration.Trailer
import BuildScript.Proofs.Index.Shift
/-!
# Scripts with two characters at the end of a line

A script whose lines end in a carriage return and a line feed declares what it does with line feeds
alone. Each of its lines makes the same entry with the same text, on the same line and in the same
columns; its offset is greater by the carriage returns in front of it, of which there is one for
each line above.

Results:
* `entryOfLine?_return`: a line makes the same entry with a carriage return at its end.
* `lineEntries_returned`, `entries_parse_crlf`: the entries of such lines and of such a script.
* `parse_crlf`: parsing does not see the carriage returns.
-/
namespace BuildScript

open Text

namespace Entry

/-- An entry in a script with a carriage return at the end of each line: as many characters further
on as there are lines in front of its own, the first of them having the given number. -/
def behindReturns (number : Nat) (e : Entry) : Entry := e.shift 0 (e.region.first.line - number)

theorem behindReturns_of_line {number : Nat} {e : Entry} (h : e.region.first.line = number) :
    e.behindReturns number = e := by
  rw [behindReturns, h, Int.sub_self, shift_zero]

theorem behindReturns_succ (number : Nat) (e : Entry) :
    (e.shift 0 1).behindReturns (number + 1) = e.behindReturns number := by
  have hline : (e.shift 0 1).region.first.line = e.region.first.line :=
    Int.add_zero e.region.first.line
  have hoffset : 1 + (e.region.first.line - ((number + 1 : Nat) : Int)) =
      e.region.first.line - number := by omega
  rw [behindReturns, behindReturns, hline, shift_shift, hoffset]
  rfl

end Entry

namespace Index

theorem isSkipped_return (skipComments : Bool) (line : Text) :
    isSkipped skipComments (line ++ ['\r']) = isSkipped skipComments line := by
  unfold isSkipped
  rw [trim_return (Or.inr rfl)]

/-- A line makes the same entry with a carriage return at its end. -/
theorem entryOfLine?_return (kinds : List Kind) (skipComments : Bool) (number start : Nat)
    (line : Text) :
    entryOfLine? ⟨kinds.map Recognizer.ofKind, skipComments⟩ number start (line ++ ['\r']) =
      entryOfLine? ⟨kinds.map Recognizer.ofKind, skipComments⟩ number start line := by
  unfold entryOfLine?
  rw [isSkipped_return, Recognizer.firstSighting?_return]
  split
  · rfl
  · refine Option.bind_congr fun s hs => ?_
    obtain ⟨u, m, v, rfl, hcut⟩ := Recognizer.cut_of_firstSighting? hs
    rw [hcut, List.append_assoc (u ++ m) v, Entry.ofSighting?_cut, Entry.ofSighting?_cut]

/-- The entries of lines with a carriage return at the end of each but the last. -/
theorem lineEntries_returned (kinds : List Kind) (skipComments : Bool) (number start : Nat)
    (ls : List Text) :
    lineEntries ⟨kinds.map Recognizer.ofKind, skipComments⟩ number start (returned ls) =
      (lineEntries ⟨kinds.map Recognizer.ofKind, skipComments⟩ number start ls).map
        (Entry.behindReturns number) := by
  have hline (number start : Nat) (l : Text) :
      (entryOfLine? ⟨kinds.map Recognizer.ofKind, skipComments⟩ number start l).toList.map
          (Entry.behindReturns number) =
        (entryOfLine? ⟨kinds.map Recognizer.ofKind, skipComments⟩ number start l).toList := by
    refine (List.map_congr_left fun e he => ?_).trans (List.map_id _)
    have he : e ∈ lineEntries ⟨kinds.map Recognizer.ofKind, skipComments⟩ number start [l] :=
      List.mem_append_left _ he
    have := line_of_mem_lineEntries he
    simp only [List.length_cons, List.length_nil] at this
    exact Entry.behindReturns_of_line (by omega)
  fun_induction returned ls generalizing number start with
  | case1 => rfl
  | case2 l =>
    rw [lineEntries, List.map_append, hline]
    rfl
  | case3 l m ls ih =>
    have hstart : start + (l ++ ['\r']).length + 1 = start + l.length + 1 + 1 := by simp; omega
    have hmoved := lineEntries_shift ⟨kinds.map Recognizer.ofKind, skipComments⟩ (number + 1)
      (start + l.length + 1) 0 1 (m :: ls)
    rw [lineEntries, lineEntries, entryOfLine?_return, hstart, ih, List.map_append, hline]
    congr 1
    rw [Nat.add_zero] at hmoved
    rw [hmoved, List.map_map]
    exact List.map_congr_left fun e _ => Entry.behindReturns_succ number e

/-- The entries of a script with carriage returns. -/
theorem entries_parse_crlf (kinds : List Kind) (skipComments : Bool) (text : Text) :
    (parse ⟨kinds.map Recognizer.ofKind, skipComments⟩ (crlf text)).entries =
      (parse ⟨kinds.map Recognizer.ofKind, skipComments⟩ text).entries.map
        (Entry.behindReturns 1) := by
  rw [entries_parse_eq_lineEntries, entries_parse_eq_lineEntries, lines_crlf,
    lineEntries_returned]

theorem mem_of_mem_rawText {options : ParseOptions} {text : Text} {e : Entry} {c : Char}
    (he : e ∈ (parse options text).entries) (hc : c ∈ e.rawText) : c ∈ text := by
  obtain ⟨u, v, hcov⟩ := covers_of_mem_parse he
  obtain ⟨w, hw⟩ := hcov.text_eq
  rw [hw]
  exact List.mem_append_left _ (List.mem_append_right _ hc)

/-- Parsing does not see the carriage returns at the ends of the lines. Whatever recognizers are
built in, and whether or not comments are skipped, the entries of a kind are those of the script
without carriage returns, as many characters further on as lines are in front of them; so are all
entries in the order of the script, and the text of none of them has a carriage return. -/
theorem parse_crlf (kinds : List Kind) (enabled : Option (List Kind)) (skipComments : Bool)
    {text : Text} (hreturn : '\r' ∉ text) :
    let options := ParseOptions.builtIn kinds enabled skipComments
    (∀ kind, (parse options (crlf text)).ofKind kind =
      ((parse options text).ofKind kind).map (Entry.behindReturns 1)) ∧
    (parse options (crlf text)).inOrder =
      (parse options text).inOrder.map (Entry.behindReturns 1) ∧
    ∀ e ∈ (parse options (crlf text)).entries, '\r' ∉ e.rawText := by
  obtain ⟨used, hused⟩ := ParseOptions.exists_builtIn_eq kinds enabled skipComments
  intro options
  have hentries : (parse options (crlf text)).entries =
      (parse options text).entries.map (Entry.behindReturns 1) := by
    simp only [options, hused, entries_parse_crlf]
  refine ⟨fun kind => ?_, ?_, fun e he hc => ?_⟩
  · simp only [ofKind, hentries, List.filter_map]
    rfl
  · simp only [inOrder_parse, hentries]
  · rw [hentries] at he
    obtain ⟨e', he', rfl⟩ := List.mem_map.1 he
    exact hreturn (mem_of_mem_rawText he' hc)

/-- A script of two declarations: the second stands one character further on. -/
theorem parse_crlf_twoLines :
    let text := "id 'a'\nid 'b'".toList
    let options := ParseOptions.builtIn Kind.all none true
    '\r' ∉ text ∧
    (∀ kind, (parse options (crlf text)).ofKind kind =
      ((parse options text).ofKind kind).map (Entry.behindReturns 1)) ∧
    (parse options (crlf text)).inOrder =
      (parse options text).inOrder.map (Entry.behindReturns 1) ∧
    ∀ e ∈ (parse options (crlf text)).entries, '\r' ∉ e.rawText :=
  ⟨by decide, parse_crlf Kind.all none true (by decide)⟩

end Index

end BuildScript
