import BuildScript.Proofs.Index.Accuracy
/-!
# Looking for fewer kinds

A line makes the entry of the first recognizer that sights something on it, so recognizers stand in
each other's way, and leaving some out can reveal what others make of a line. It does no more than
that. A line that was claimed by a recognizer that stays is claimed by it still, because those in
front of it had declined; and a line that all had declined is declined by the rest.

Results:
* `firstSighting?_filter`, `firstSighting?_filter_eq_none`: what the recognizers that stay see.
* `entriesOn_parse`: the entries on a line are what the line contributes, one at most.
* `restricts_parse`: an index of fewer kinds differs from one of more exactly on the lines that made
  an entry of a kind that is left out.
-/
namespace BuildScript

namespace Recognizer

variable {kinds : List Kind} {p : Kind → Bool} {line : Text} {s : Sighting}

/-- What is sighted first stays so without the recognizers of other kinds. -/
theorem firstSighting?_filter (h : firstSighting? (kinds.map ofKind) line = some s)
    (hs : p s.declaration.kind = true) :
    firstSighting? ((kinds.filter p).map ofKind) line = some s := by
  induction kinds with
  | nil => cases h
  | cons kind kinds ih =>
    rw [firstSighting?, List.map_cons, List.findSome?_cons] at h
    cases hsight : (ofKind kind).sight? line with
    | some s' =>
      rw [hsight] at h
      obtain rfl := Option.some.inj h
      rw [kind_of_sight? hsight] at hs
      rw [List.filter_cons_of_pos hs, List.map_cons, firstSighting?, List.findSome?_cons, hsight]
    | none =>
      rw [hsight] at h
      rw [List.filter_cons]
      split
      · rw [List.map_cons, firstSighting?, List.findSome?_cons, hsight]
        exact ih h
      · exact ih h

/-- Where nothing is sighted, nothing is with fewer recognizers. -/
theorem firstSighting?_filter_eq_none (h : firstSighting? (kinds.map ofKind) line = none) :
    firstSighting? ((kinds.filter p).map ofKind) line = none := by
  rw [firstSighting?, List.findSome?_eq_none_iff] at h ⊢
  exact fun r hr => h r (List.map_subset ofKind List.filter_sublist.subset hr)

end Recognizer

namespace Index

def entriesOn (index : Index) (k : Nat) : List Entry := index.entries.filter fun e => e.line = k

/-- An index of enabled kinds holds what one of more kinds does, but for the lines on which that one
has an entry of a kind that is not enabled. -/
structure Restricts (enabled : List Kind) (narrow wide : Index) : Prop where
  text : narrow.text = wide.text
  lines : narrow.lines = wide.lines
  warnings : narrow.warnings = wide.warnings
  /-- A line has one entry at most, in either index. -/
  single : ∀ k, (narrow.entriesOn k).length ≤ 1 ∧ (wide.entriesOn k).length ≤ 1
  /-- A line has the same entry in both or none in both, unless the wider index has one of a kind
  that is not enabled on it, and then it has not. -/
  differs : ∀ k, narrow.entriesOn k ≠ wide.entriesOn k ↔
    ∃ e ∈ wide.entriesOn k, e.kind ∉ enabled
  /-- No entry of an enabled kind is lost, changed or put elsewhere in the list of its kind. -/
  kept : ∀ kind ∈ enabled, (wide.ofKind kind).Sublist (narrow.ofKind kind)
  /-- There are no entries of other kinds. -/
  excluded : ∀ kind ∉ enabled, narrow.ofKind kind = []

section
variable {options : ParseOptions} {text line : Text} {kinds : List Kind} {p : Kind → Bool}
  {skipComments : Bool} {k : Nat} {e : Entry}

/-- The entries on a line are what the line contributes, one at most. -/
theorem entriesOn_parse (options : ParseOptions) (text : Text) (k : Nat) :
    (parse options text).entriesOn k = (entryOn? options text k).toList := by
  have hmem : ∀ e, e ∈ (parse options text).entriesOn k ↔ entryOn? options text k = some e :=
    fun e => by
      rw [← mem_entries_parse_iff_entryOn?, entriesOn, List.mem_filter, decide_eq_true_iff]
  have hpair : ((parse options text).entriesOn k).Pairwise fun a b => a.line < b.line :=
    (pairwise_line_parse options text).filter _
  have hline : ∀ e ∈ (parse options text).entriesOn k, e.line = k := fun e he =>
    of_decide_eq_true (List.mem_filter.1 he).2
  generalize (parse options text).entriesOn k = l at hmem hpair hline
  cases l with
  | nil =>
    rw [Option.eq_none_iff_forall_ne_some.2 fun e he => List.not_mem_nil ((hmem e).2 he)]
    rfl
  | cons a l =>
    cases l with
    | nil =>
      rw [(hmem a).1 List.mem_cons_self]
      rfl
    | cons b l =>
      -- two entries of one line would stand on lines one behind the other
      have hlt := (List.pairwise_cons.1 hpair).1 b List.mem_cons_self
      rw [hline a List.mem_cons_self, hline b (List.mem_cons_of_mem a List.mem_cons_self)] at hlt
      exact absurd hlt (Nat.lt_irrefl k)

theorem length_entriesOn_parse (options : ParseOptions) (text : Text) (k : Nat) :
    ((parse options text).entriesOn k).length ≤ 1 := by
  rw [entriesOn_parse]
  exact Option.length_toList_le

/-! ## Line by line -/

theorem entryOn?_builtIn (hline : (Text.lines text)[k]? = some line) :
    entryOn? ⟨kinds.map Recognizer.ofKind, skipComments⟩ text k =
      if isSkipped skipComments line then none
      else (Recognizer.firstSighting? (kinds.map Recognizer.ofKind) line).map
        (Entry.ofSighting (k + 1) (Text.lineStart text k)) := by
  rw [entryOn?, hline, Option.bind_some, readLine_eq hline]
  split
  · rfl
  · cases Recognizer.firstSighting? (kinds.map Recognizer.ofKind) line <;> rfl

theorem kind_of_entryOn?
    (h : entryOn? ⟨kinds.map Recognizer.ofKind, skipComments⟩ text k = some e) :
    e.kind ∈ kinds := by
  obtain ⟨line, s, -, -, hs, hb⟩ := sighting_of_entryOn? h
  obtain ⟨_, _, _, _, _, _, hdeclaration, -⟩ := bindSighting_eq_ok hb
  rw [Entry.kind, hdeclaration]
  exact Recognizer.kind_of_firstSighting? hs

theorem entryOn?_filter (h : entryOn? ⟨kinds.map Recognizer.ofKind, skipComments⟩ text k = some e)
    (he : p e.kind = true) :
    entryOn? ⟨(kinds.filter p).map Recognizer.ofKind, skipComments⟩ text k = some e := by
  obtain ⟨line, s, hline, hread, hs, -⟩ := sighting_of_entryOn? h
  rw [entryOn?_builtIn hline, hread, hs] at h
  obtain rfl : Entry.ofSighting (k + 1) (Text.lineStart text k) s = e := Option.some.inj h
  rw [entryOn?_builtIn hline, hread, Recognizer.firstSighting?_filter hs he]
  rfl

/-- A line without an entry has none when fewer kinds are looked for. -/
theorem entryOn?_filter_eq_none
    (h : entryOn? ⟨kinds.map Recognizer.ofKind, skipComments⟩ text k = none) :
    entryOn? ⟨(kinds.filter p).map Recognizer.ofKind, skipComments⟩ text k = none := by
  cases hline : (Text.lines text)[k]? with
  | none => rw [entryOn?, hline, Option.bind_none]
  | some line =>
    rw [entryOn?_builtIn hline] at h ⊢
    split at h
    · next hskip => exact if_pos hskip
    · next hread =>
      rw [if_neg hread, Recognizer.firstSighting?_filter_eq_none (Option.map_eq_none_iff.1 h)]
      rfl

end

/-! ## The whole index -/

theorem filterMap_sublist_filterMap {α β : Type} {f g : α → Option β} {l : List α}
    (h : ∀ a ∈ l, ∀ b, f a = some b → g a = some b) :
    (l.filterMap f).Sublist (l.filterMap g) := by
  induction l with
  | nil => exact List.Sublist.refl []
  | cons a l ih =>
    have ih := ih fun a ha => h a (List.mem_cons_of_mem _ ha)
    rw [List.filterMap_cons, List.filterMap_cons]
    cases hf : f a with
    | none =>
      cases g a with
      | none => exact ih
      | some b => exact ih.cons b
    | some b =>
      rw [h a List.mem_cons_self b hf]
      exact ih.cons_cons b

theorem ofKind_parse (options : ParseOptions) (text : Text) (kind : Kind) :
    (parse options text).ofKind kind = (List.range (Text.lines text).length).filterMap fun k =>
      (entryOn? options text k).filter fun e => e.kind = kind := by
  rw [ofKind, entries_parse, List.filter_filterMap]

section
variable (kinds enabled : List Kind) (skipComments : Bool) (text : Text)

/-- A line differs exactly if it made an entry of a kind that is left out. -/
theorem entriesOn_ne_iff (k : Nat) :
    (parse ⟨(kinds.filter fun kind => kind ∈ enabled).map Recognizer.ofKind, skipComments⟩
        text).entriesOn k ≠ (parse ⟨kinds.map Recognizer.ofKind, skipComments⟩ text).entriesOn k ↔
      ∃ e ∈ (parse ⟨kinds.map Recognizer.ofKind, skipComments⟩ text).entriesOn k,
        e.kind ∉ enabled := by
  rw [entriesOn_parse, entriesOn_parse]
  cases hwide : entryOn? ⟨kinds.map Recognizer.ofKind, skipComments⟩ text k with
  | none => simp [entryOn?_filter_eq_none hwide]
  | some e =>
    simp only [Option.toList_some, List.mem_singleton, exists_eq_left]
    by_cases he : e.kind ∈ enabled
    · have hkept := entryOn?_filter (p := fun kind => kind ∈ enabled) hwide (decide_eq_true he)
      rw [hkept, Option.toList_some]
      exact iff_of_false (fun h => h rfl) (not_not_intro he)
    · refine iff_of_true (fun heq => he ?_) he
      -- an entry on the line would be of an enabled kind
      have hmem := heq ▸ List.mem_singleton_self e
      exact of_decide_eq_true (List.mem_filter.1 (kind_of_entryOn? (Option.mem_toList.1 hmem))).2

theorem ofKind_sublist_of_mem {kind : Kind} (hkind : kind ∈ enabled) :
    ((parse ⟨kinds.map Recognizer.ofKind, skipComments⟩ text).ofKind kind).Sublist
      ((parse ⟨(kinds.filter fun kind => kind ∈ enabled).map Recognizer.ofKind, skipComments⟩
        text).ofKind kind) := by
  rw [ofKind_parse, ofKind_parse]
  refine filterMap_sublist_filterMap fun k _ e he => ?_
  obtain ⟨he, hek⟩ := Option.filter_eq_some_iff.1 he
  have hstays : decide (e.kind ∈ enabled) = true := by
    rwa [of_decide_eq_true hek, decide_eq_true_iff]
  rw [entryOn?_filter (p := fun kind => kind ∈ enabled) he hstays]
  exact Option.filter_eq_some_iff.2 ⟨rfl, hek⟩

theorem ofKind_eq_nil_of_not_mem {kind : Kind} (hkind : kind ∉ enabled) :
    (parse ⟨(kinds.filter fun kind => kind ∈ enabled).map Recognizer.ofKind, skipComments⟩
      text).ofKind kind = [] := by
  rw [ofKind_parse, List.filterMap_eq_nil_iff]
  refine fun k _ => Option.filter_eq_none_iff.2 fun e he hek => hkind ?_
  rw [← of_decide_eq_true hek]
  exact of_decide_eq_true (List.mem_filter.1 (kind_of_entryOn? he)).2

end

/-- Enabling fewer kinds changes the entries of a script on those lines alone that made one of a
kind that is no longer enabled. -/
theorem restricts_parse {enabled more : List Kind} (h : enabled ⊆ more) (kinds : List Kind)
    (skipComments : Bool) (text : Text) :
    Restricts enabled (parse (.builtIn kinds (some enabled) skipComments) text)
      (parse (.builtIn kinds (some more) skipComments) text) := by
  have hkinds : (kinds.filter fun kind => kind ∈ enabled) =
      (kinds.filter fun kind => kind ∈ more).filter fun kind => kind ∈ enabled := by
    rw [List.filter_filter]
    refine List.filter_congr fun kind _ => ?_
    rw [Bool.eq_iff_iff, Bool.and_eq_true, decide_eq_true_iff, decide_eq_true_iff]
    exact ⟨fun hk => ⟨hk, h hk⟩, And.left⟩
  rw [ParseOptions.builtIn_some, ParseOptions.builtIn_some, hkinds]
  generalize (kinds.filter fun kind => kind ∈ more) = kinds
  refine ⟨rfl, rfl, ?_, fun k => ⟨length_entriesOn_parse _ text k, length_entriesOn_parse _ text k⟩,
    entriesOn_ne_iff kinds enabled skipComments text,
    fun kind => ofKind_sublist_of_mem kinds enabled skipComments text,
    fun kind => ofKind_eq_nil_of_not_mem kinds enabled skipComments text⟩
  rw [warnings_parse, warnings_parse]

/-- A script whose second line is a dependency or, failing that, a plugin. -/
def shadowedScript : Text := "group = 'a'\nid 'b:c' version '1'\ngoogle()".toList

/-- Without dependencies the plugin comes to light, and the other lines stay as they are. -/
theorem restricts_shadowedScript :
    [Kind.property, .plugin, .repository] ⊆ Kind.all ∧
      Restricts [.property, .plugin, .repository]
        (parse (.builtIn Kind.all (some [.property, .plugin, .repository]) true) shadowedScript)
        (parse (.builtIn Kind.all (some Kind.all) true) shadowedScript) ∧
      (parse (.builtIn Kind.all (some [.property, .plugin, .repository]) true)
        shadowedScript).entries.map Entry.kind = [.property, .plugin, .repository] ∧
      (parse (.builtIn Kind.all (some Kind.all) true) shadowedScript).entries.map Entry.kind =
        [.property, .dependency, .repository] := by
  have h : [Kind.property, .plugin, .repository] ⊆ Kind.all := by decide
  exact ⟨h, restricts_parse h Kind.all true shadowedScript, by decide +kernel, by decide +kernel⟩

end Index

end BuildScript
