import Mathlib.Data.List.Nodup
import BuildScript.Proofs.Index.Reading
/-!
# What an index says of its script

With the built-in recognizers an index is accurate. No sighting is dropped, so there are no
warnings: the bounds that a recognizer reports and the offsets that the parser counts agree with
the script and with the line starts that are computed apart from it. Each line that is read makes
the entry of its first recognizer with a sighting, and no other line makes one. Sorting by offset
finds the entries in the order of their lines already.

Results:
* `sortStable_eq_of_perm`: a list sorted by increasing keys is the only sorted list of its items.
* `warnings_parse`: the built-in recognizers are never warned about.
* `mem_entries_parse_iff`: the entry on a line is what its first recognizer with a sighting makes.
* `accurate_parse`: an index is accurate, whatever recognizers are built in.
-/
namespace BuildScript

/-! ## Sorting by increasing keys -/

section
variable {α : Type} {key : α → Int} {a : α} {l : List α}

theorem insertLast_perm (before : α → α → Bool) (a : α) (l : List α) :
    (insertLast before a l).Perm (a :: l) := by
  induction l with
  | nil => exact List.Perm.refl [a]
  | cons b l ih =>
    unfold insertLast
    split
    · exact List.Perm.refl _
    · exact (ih.cons b).trans (List.Perm.swap a b l)

theorem sortStable_concat (before : α → α → Bool) (l : List α) (a : α) :
    sortStable before (l ++ [a]) = insertLast before a (sortStable before l) := by
  simp [sortStable]

theorem sortStable_perm (before : α → α → Bool) (l : List α) : (sortStable before l).Perm l := by
  induction l using List.reverseRecOn with
  | nil => exact List.Perm.refl []
  | append_singleton l a ih =>
    rw [sortStable_concat]
    exact (insertLast_perm before a _).trans
      ((ih.cons a).trans (List.perm_append_singleton a l).symm)

theorem pairwise_insertLast (h : l.Pairwise fun a b => key a ≤ key b) :
    (insertLast (fun a b => key a < key b) a l).Pairwise fun a b => key a ≤ key b := by
  induction l with
  | nil => simp [insertLast]
  | cons b l ih =>
    obtain ⟨hb, hl⟩ := List.pairwise_cons.1 h
    unfold insertLast
    split
    · next hab =>
      rw [decide_eq_true_eq] at hab
      refine List.pairwise_cons.2 ⟨fun c hc => ?_, h⟩
      rcases List.mem_cons.1 hc with rfl | hc
      · omega
      · have := hb c hc
        omega
    · next hab =>
      rw [decide_eq_true_eq] at hab
      refine List.pairwise_cons.2 ⟨fun c hc => ?_, ih hl⟩
      rcases List.mem_cons.1 ((insertLast_perm _ a l).mem_iff.1 hc) with rfl | hc
      · omega
      · exact hb c hc

theorem pairwise_sortStable (l : List α) :
    (sortStable (fun a b => key a < key b) l).Pairwise fun a b => key a ≤ key b := by
  induction l using List.reverseRecOn with
  | nil => exact List.Pairwise.nil
  | append_singleton l a ih =>
    rw [sortStable_concat]
    exact pairwise_insertLast ih

/-- A list with increasing keys is what sorting its items in any order gives. -/
theorem sortStable_eq_of_perm {t : List α} (hperm : l.Perm t)
    (ht : t.Pairwise fun a b => key a < key b) : sortStable (fun a b => key a < key b) l = t := by
  have hsorted := (sortStable_perm (fun a b => key a < key b) l).trans hperm
  have hkeys : (t.map key).Nodup := List.pairwise_map.2 (ht.imp Int.ne_of_lt)
  refine List.Perm.eq_of_pairwise ?_ (pairwise_sortStable l) (ht.imp Int.le_of_lt) hsorted
  intro a b ha hb hab hba
  exact List.inj_on_of_nodup_map hkeys (hsorted.mem_iff.1 ha) hb (Int.le_antisymm hab hba)

end

/-! ## Built-in recognizers -/

namespace ParseOptions

/-- The built-in recognizers of some kinds, in their order, of which only those of the enabled
kinds are used if any are given. -/
def builtIn (kinds : List Kind) (enabled : Option (List Kind)) (skipComments : Bool) :
    ParseOptions :=
  let options : ParseOptions := ⟨kinds.map Recognizer.ofKind, skipComments⟩
  match enabled with
  | none => options
  | some enabled => options.restrictTo enabled

theorem builtIn_some (kinds enabled : List Kind) (skipComments : Bool) :
    builtIn kinds (some enabled) skipComments =
      ⟨(kinds.filter fun kind => kind ∈ enabled).map Recognizer.ofKind, skipComments⟩ := by
  simp only [builtIn, restrictTo, List.filter_map]
  rfl

theorem exists_builtIn_eq (kinds : List Kind) (enabled : Option (List Kind)) (skipComments : Bool) :
    ∃ used : List Kind,
      builtIn kinds enabled skipComments = ⟨used.map Recognizer.ofKind, skipComments⟩ := by
  cases enabled with
  | none => exact ⟨kinds, rfl⟩
  | some enabled => exact ⟨_, builtIn_some kinds enabled skipComments⟩

end ParseOptions

/-- A region covers a part of the one line that it names, and the part is not empty. -/
def Region.Placed (text : Text) (r : Region) : Prop :=
  ∃ (k start : Nat) (line : Text), (Text.lines text)[k]? = some line ∧
    (Text.lineStarts text)[k]? = some start ∧ r.first.line = k + 1 ∧ r.last.line = k + 1 ∧
    r.start = start + (r.first.column - 1) ∧ start ≤ r.start ∧ r.start < r.stop ∧
    r.stop ≤ start + line.length

theorem Region.Covers.placed {text : Text} {r : Region} {k : Nat} {u m v : Text}
    (h : r.Covers text k u m v) (hm : m ≠ []) : r.Placed text := by
  have hstart := h.start_eq
  have hstop := h.stop_eq
  have hcolumn : r.first.column = u.length + 1 := congrArg (·.first.column) h.region
  have hpos := List.length_pos_iff.2 hm
  refine ⟨k, _, _, h.line, (Text.getElem?_lineStarts h.lt).1, congrArg (·.first.line) h.region,
    congrArg (·.last.line) h.region, ?_, ?_, ?_, ?_⟩
  · omega
  · omega
  · omega
  · simp only [List.length_append]
    omega

theorem Region.Covers.check_eq {text : Text} {r : Region} {k : Nat} {u m v : Text}
    (h : r.Covers text k u m v) : r.check = .ok () := by
  rw [h.region]
  refine Region.check_onLine (by omega) (by omega) (by omega) ?_
  rw [List.length_append]
  omega

/-- The entry that a sighting on a line makes. -/
def Entry.ofSighting (number lineStart : Nat) (s : Sighting) : Entry :=
  ⟨s.declaration, Region.onLine number lineStart s.start s.stop, s.text⟩

namespace Index

section
variable {text line : Text} {kinds : List Kind} {skipComments : Bool} {k : Nat} {s : Sighting}

/-- What a built-in recognizer reports about a line is not dropped. -/
theorem bindSighting_of_firstSighting? (hline : (Text.lines text)[k]? = some line)
    (h : Recognizer.firstSighting? (kinds.map Recognizer.ofKind) line = some s) :
    bindSighting text (k + 1) (Text.lineStart text k) line s =
      .ok (.ofSighting (k + 1) (Text.lineStart text k) s) := by
  obtain ⟨u, m, v, rfl, hs⟩ := Recognizer.cut_of_firstSighting? h
  rw [hs]
  exact bindSighting_eq hline s.declaration

theorem readLine_eq (hline : (Text.lines text)[k]? = some line) :
    readLine ⟨kinds.map Recognizer.ofKind, skipComments⟩ text (k + 1) (Text.lineStart text k) line =
      if isSkipped skipComments line then none
      else (Recognizer.firstSighting? (kinds.map Recognizer.ofKind) line).map fun s =>
        .ok (.ofSighting (k + 1) (Text.lineStart text k) s) := by
  unfold readLine
  split
  · rfl
  · exact Option.map_congr fun s hs => bindSighting_of_firstSighting? hline hs

/-- The built-in recognizers are never warned about. -/
theorem warnings_parse (kinds : List Kind) (skipComments : Bool) (text : Text) :
    (parse ⟨kinds.map Recognizer.ofKind, skipComments⟩ text).warnings = [] := by
  refine List.filterMap_eq_nil_iff.2 fun c hc => ?_
  rw [readLines_parse, List.mem_filterMap] at hc
  obtain ⟨k, -, hc⟩ := hc
  obtain ⟨line, hline, hc⟩ := Option.bind_eq_some_iff.1 hc
  rw [readLine_eq hline] at hc
  split at hc
  · cases hc
  · obtain ⟨s, -, rfl⟩ := Option.map_eq_some_iff.1 hc
    rfl

theorem mem_entries_parse_iff_entryOn? {options : ParseOptions} {e : Entry} :
    e ∈ (parse options text).entries ∧ e.line = k ↔ entryOn? options text k = some e := by
  rw [entries_parse, List.mem_filterMap]
  constructor
  · rintro ⟨⟨j, -, he⟩, rfl⟩
    obtain ⟨u, v, hcov⟩ := covers_of_entryOn? he
    rw [Entry.line, hcov.line_eq]
    exact he
  · intro he
    obtain ⟨u, v, hcov⟩ := covers_of_entryOn? he
    exact ⟨⟨k, List.mem_range.2 hcov.lt, he⟩, hcov.line_eq⟩

/-- The entry on a line is what its first recognizer with a sighting makes. -/
theorem mem_entries_parse_iff (hline : (Text.lines text)[k]? = some line) {e : Entry} :
    e ∈ (parse ⟨kinds.map Recognizer.ofKind, skipComments⟩ text).entries ∧ e.line = k ↔
      isSkipped skipComments line = false ∧ ∃ before recognizer after s,
        kinds.map Recognizer.ofKind = before ++ recognizer :: after ∧
          (∀ r ∈ before, r.sight? line = none) ∧ recognizer.sight? line = some s ∧
          e = .ofSighting (k + 1) (Text.lineStart text k) s := by
  have hfirst : (∃ before recognizer after s,
      kinds.map Recognizer.ofKind = before ++ recognizer :: after ∧
        (∀ r ∈ before, r.sight? line = none) ∧ recognizer.sight? line = some s ∧
        e = .ofSighting (k + 1) (Text.lineStart text k) s) ↔
      ∃ s, Recognizer.firstSighting? (kinds.map Recognizer.ofKind) line = some s ∧
        e = .ofSighting (k + 1) (Text.lineStart text k) s := by
    simp only [Recognizer.firstSighting?, List.findSome?_eq_some_iff]
    constructor
    · rintro ⟨before, r, after, s, hsplit, hnone, hs, he⟩
      exact ⟨s, ⟨before, r, after, hsplit, hs, hnone⟩, he⟩
    · rintro ⟨s, ⟨before, r, after, hsplit, hs, hnone⟩, he⟩
      exact ⟨before, r, after, s, hsplit, hnone, hs, he⟩
  rw [hfirst, mem_entries_parse_iff_entryOn?, entryOn?, hline, Option.bind_some,
    readLine_eq hline]
  cases isSkipped skipComments line with
  | true => simp
  | false =>
    cases Recognizer.firstSighting? (kinds.map Recognizer.ofKind) line with
    | none => simp
    | some s => simp [Except.toOption, eq_comm]

end

/-! ## The order of the entries -/

theorem pairwise_start_parse (options : ParseOptions) (text : Text) :
    (parse options text).entries.Pairwise fun a b => a.region.start < b.region.start := by
  refine (pairwise_line_parse options text).imp_of_mem ?_
  intro a b ha hb hab
  obtain ⟨u, v, hcova⟩ := covers_of_mem_parse ha
  obtain ⟨u', v', hcovb⟩ := covers_of_mem_parse hb
  have hlt := Text.lineStart_add_length_lt hcova.line hab hcovb.lt
  simp only [List.length_append] at hlt
  rw [hcova.start_eq, hcovb.start_eq]
  omega

/-- Sorted into kinds, no entry is lost or added. -/
theorem flatMap_ofKind_perm (index : Index) :
    (kindOrder.flatMap index.ofKind).Perm index.entries := by
  rw [List.perm_iff_count]
  intro a
  have hcount : ∀ kind, (index.ofKind kind).count a =
      if a.kind = kind then index.entries.count a else 0 := by
    intro kind
    unfold ofKind
    split
    · next h => exact List.count_filter (decide_eq_true h)
    · next h =>
      refine List.count_eq_zero.2 fun ha => h ?_
      exact of_decide_eq_true (List.mem_filter.1 ha).2
  simp only [kindOrder, List.flatMap_cons, List.flatMap_nil, List.count_append, hcount]
  cases a.kind <;> simp

/-- Sorting by offset leaves the entries of a script in the order of its lines. -/
theorem inOrder_parse (options : ParseOptions) (text : Text) :
    (parse options text).inOrder = (parse options text).entries :=
  sortStable_eq_of_perm (flatMap_ofKind_perm _) (pairwise_start_parse options text)

/-! ## Accuracy -/

/-- An index holds what the lines of a script declare, all of it and nothing else, and says rightly
where it stands. -/
structure Accurate (options : ParseOptions) (text : Text) (index : Index) : Prop where
  /-- Nothing was dropped. -/
  warnings : index.warnings = []
  /-- The text of an entry is what the script holds in its region. -/
  rawText : ∀ e ∈ index.entries, Text.slice text e.region.start e.region.stop = e.rawText
  /-- The numbers of a region fit together. -/
  checked : ∀ e ∈ index.entries, e.region.check = .ok ()
  /-- A region covers a part of the one line that it names, and the part is not empty. -/
  placed : ∀ e ∈ index.entries, e.region.Placed text
  /-- A line makes the entry that its first recognizer with a sighting reports, unless it is
  skipped, and no other entry. -/
  read : ∀ (k start : Nat) (line : Text), (Text.lines text)[k]? = some line →
    (Text.lineStarts text)[k]? = some start → ∀ e,
      e ∈ index.entries ∧ e.region.first.line = k + 1 ↔
        isSkipped options.skipComments line = false ∧
          ∃ before recognizer after s, options.recognizers = before ++ recognizer :: after ∧
            (∀ r ∈ before, r.sight? line = none) ∧ recognizer.sight? line = some s ∧
            e = .ofSighting (k + 1) start s
  /-- Sorting by offset lists exactly the entries, each once. -/
  listed : index.inOrder = index.entries
  /-- Offsets and lines increase in that list. -/
  increasing : index.inOrder.Pairwise fun a b =>
    a.region.start < b.region.start ∧ a.region.first.line < b.region.first.line

theorem first_line_of_mem_parse {options : ParseOptions} {text : Text} {e : Entry}
    (h : e ∈ (parse options text).entries) : e.region.first.line = e.line + 1 := by
  obtain ⟨u, v, hcov⟩ := covers_of_mem_parse h
  exact congrArg (·.first.line) hcov.region

/-- An index is accurate, whatever recognizers are built in. -/
theorem accurate_parse (kinds : List Kind) (enabled : Option (List Kind)) (skipComments : Bool)
    (text : Text) :
    Accurate (.builtIn kinds enabled skipComments) text
      (parse (.builtIn kinds enabled skipComments) text) := by
  obtain ⟨used, hused⟩ := ParseOptions.exists_builtIn_eq kinds enabled skipComments
  rw [hused]
  refine ⟨warnings_parse used skipComments text, ?_, ?_, ?_, ?_, inOrder_parse _ text, ?_⟩
  · intro e he
    obtain ⟨u, v, hcov⟩ := covers_of_mem_parse he
    exact hcov.slice_eq
  · intro e he
    obtain ⟨u, v, hcov⟩ := covers_of_mem_parse he
    exact hcov.check_eq
  · intro e he
    obtain ⟨u, v, hcov⟩ := covers_of_mem_parse he
    exact hcov.placed (rawText_ne_nil_of_mem_parse he)
  · intro k start line hline hstart e
    have hk := (List.getElem?_eq_some_iff.1 hline).1
    obtain rfl : Text.lineStart text k = start :=
      Option.some.inj ((Text.getElem?_lineStarts hk).1.symm.trans hstart)
    rw [← mem_entries_parse_iff hline]
    refine and_congr_right fun he => ?_
    rw [first_line_of_mem_parse he]
    omega
  · rw [inOrder_parse]
    refine ((pairwise_start_parse _ text).and (pairwise_line_parse _ text)).imp_of_mem ?_
    rintro a b ha hb ⟨hstart, hline⟩
    rw [first_line_of_mem_parse ha, first_line_of_mem_parse hb]
    omega

end Index

end BuildScript
