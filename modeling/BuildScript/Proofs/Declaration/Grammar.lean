import BuildScript.Proofs.Declaration.Trailer
import BuildScript.Proofs.Text.Literal
/-!
# The grammar of assignments

A line assigns a property just when it is blanks, a key, blanks, one equals sign and a rest that has
something to assign: its expression, which is the rest without the blanks around it and without its
comment. The clause runs from the key to the end of the expression, so it stands in front of the
comment of the line. The marks of an expression that is one literal do not belong to the value.

The reader takes the key, the blanks and the rest one after the other and counts offsets from what
is left over. Here the parts are given and the line is put together from them.

Results:
* `Property.readAssignment?_eq_some_iff`, `Property.valueOf?_eq_some_iff`: what the two readers
  take.
* `Property.find?_eq_some_iff`: a property is found just where a line is an assignment.
* `Recognizer.sight?_property_iff`: the recognizer of properties accepts its grammar and no more.
-/
namespace BuildScript

open Text

namespace Property

/-! ## The parts of an assignment -/

/-- A key: a letter or an underscore, then word characters and full stops. -/
def IsKey (key : Text) : Prop :=
  ∃ c w, key = c :: w ∧ isIdentifierStart c = true ∧ ∀ x ∈ w, isDotted x = true

/-- What the rest of a line behind an equals sign assigns: no blanks around it and no comment. -/
def expression (rest : Text) : Text := trimRight (beforeComment (trim rest))

/-- A line as an assignment. -/
structure Assignment (line : Text) where
  indent : Text
  key : Text
  gap : Text
  rest : Text
  line_eq : line = indent ++ key ++ gap ++ '=' :: rest
  indent_blank : ∀ c ∈ indent, isBlank c = true
  gap_blank : ∀ c ∈ gap, isBlank c = true
  isKey : IsKey key
  not_reserved : key ≠ "url".toList
  /-- A second equals sign would make it a comparison. -/
  single : rest.head? ≠ some '='
  assigns : expression rest ≠ []

/-- What an expression stands for: the body of a literal, and any other expression itself. -/
inductive Stands (e : Text) : Text → Prop
  | literal {body : Text} (h : IsLiteral e body) : Stands e body
  | bare (h : ∀ body, ¬ IsLiteral e body) : Stands e e

theorem unquote_eq_of_isLiteral {e body : Text} (h : IsLiteral e body) : unquote e = body := by
  have hliteral := isLiteral_iff.2 ⟨body, h⟩
  obtain ⟨mark, -, -, rfl⟩ := h
  rw [unquote, if_pos hliteral, List.dropLast_concat]
  rfl

theorem stands_iff {e value : Text} : Stands e value ↔ value = unquote e := by
  constructor
  · rintro (h | h)
    · exact (unquote_eq_of_isLiteral h).symm
    · rw [unquote, if_neg fun hliteral => ?_]
      obtain ⟨body, hbody⟩ := isLiteral_iff.1 hliteral
      exact h body hbody
  · rintro rfl
    by_cases hliteral : isLiteral e = true
    · obtain ⟨body, hbody⟩ := isLiteral_iff.1 hliteral
      rw [unquote_eq_of_isLiteral hbody]
      exact .literal hbody
    · rw [unquote, if_neg hliteral]
      exact .bare fun body hbody => hliteral (isLiteral_iff.2 ⟨body, hbody⟩)

/-! ## The readers -/

theorem IsKey.trimLeft_append {key : Text} (h : IsKey key) (t : Text) :
    trimLeft (key ++ t) = key ++ t := by
  obtain ⟨c, w, rfl, hc, -⟩ := h
  exact trimLeft_cons_of_not_blank (not_isBlank_of_isIdentifierStart hc) _

theorem exists_stop {gap : Text} (hgap : ∀ c ∈ gap, isBlank c = true) (rest : Text) :
    ∃ d t, gap ++ '=' :: rest = d :: t ∧ isDotted d = false := by
  cases gap with
  | nil => exact ⟨'=', rest, rfl, not_isDotted_equals⟩
  | cons d gap =>
    refine ⟨d, gap ++ '=' :: rest, rfl, Bool.eq_false_iff.2 fun hd => ?_⟩
    have hblank := hgap d List.mem_cons_self
    rcases Bool.or_eq_true_iff.1 hd with hd | hd
    · rw [not_isBlank_of_isWord hd] at hblank
      cases hblank
    · rw [beq_iff_eq.1 hd] at hblank
      exact absurd hblank (by decide)

theorem readAssignment?_eq_some_iff {s key r : Text} : readAssignment? s = some (key, r) ↔
    ∃ gap rest, s = key ++ gap ++ '=' :: rest ∧ IsKey key ∧ (∀ c ∈ gap, isBlank c = true) ∧
      rest.head? ≠ some '=' ∧ r = trimLeft rest := by
  constructor
  · intro h
    cases s with
    | nil => cases h
    | cons c s =>
      rw [readAssignment?] at h
      split at h
      · next hc =>
        split at h
        · cases h
        · next rest hsingle e =>
          cases h
          have hs : s.takeWhile isDotted ++ s.dropWhile isDotted = s :=
            List.takeWhile_append_dropWhile
          have hgap : (s.dropWhile isDotted).takeWhile isBlank ++ '=' :: rest =
              s.dropWhile isDotted := by
            rw [← e]
            exact List.takeWhile_append_dropWhile
          refine ⟨(s.dropWhile isDotted).takeWhile isBlank, rest, ?_, ⟨c, _, rfl, hc, ?_⟩, ?_, ?_,
            rfl⟩
          · rw [List.append_assoc, hgap, List.cons_append, hs]
          · exact fun x hx => List.all_eq_true.1 List.all_takeWhile x hx
          · exact fun x hx => List.all_eq_true.1 List.all_takeWhile x hx
          · intro hhead
            obtain ⟨t, rfl⟩ := List.head?_eq_some_iff.1 hhead
            exact hsingle t rfl
        · cases h
      · cases h
  · rintro ⟨gap, rest, rfl, ⟨c, w, rfl, hc, hw⟩, hgap, hhead, rfl⟩
    obtain ⟨d, t, hstop, hd⟩ := exists_stop hgap rest
    have hbehind : trimLeft (d :: t) = '=' :: rest := by
      rw [← hstop, trimLeft_append_of_blank hgap]
      exact trimLeft_cons_of_not_blank not_isBlank_equals rest
    rw [List.append_assoc, hstop, List.cons_append, readAssignment?, if_pos hc,
      takeWhile_of_all hw hd, dropWhile_of_all hw hd, hbehind]
    split
    · next e =>
      rw [(List.cons.inj e).2] at hhead
      exact absurd rfl hhead
    · next e => rw [(List.cons.inj e).2]
    · next hnone => exact absurd rfl (hnone rest)

theorem valueOf?_eq_some_iff {rest value : Text} (hlf : '\n' ∉ rest) :
    valueOf? (trimLeft rest) = some value ↔ value = expression rest ∧ value ≠ [] := by
  have hclause : '\n' ∉ trimRight (trimLeft rest) :=
    fun hmem => hlf ((trim_sublist rest).subset hmem)
  have hvalue : trimRight (beforeComment (trimRight (trimLeft rest))) = expression rest := rfl
  unfold valueOf?
  dsimp only
  rw [if_neg hclause, hvalue]
  split
  · next e =>
    refine iff_of_false (Option.some_ne_none value).symm fun h => ?_
    exact h.2 (h.1.trans e)
  · next hne =>
    rw [Option.some.injEq, eq_comm]
    exact ⟨fun h => ⟨h, h ▸ hne⟩, And.left⟩

/-! ## Where an assignment is found -/

namespace Assignment

variable {line : Text} (a : Assignment line)

/-- What stands between the equals sign and the expression. -/
def lead : Text := a.rest.takeWhile isBlank

/-- The offset of the key. -/
def start : Nat := a.indent.length

/-- The offset behind the expression. -/
def stop : Nat :=
  (a.indent ++ a.key ++ a.gap ++ '=' :: a.lead ++ expression a.rest).length

/-- The assignment without the blanks in front and without what stands behind the expression. -/
def clause : Text := a.key ++ a.gap ++ '=' :: (a.lead ++ expression a.rest)

/-- What is to be reported about the line for a value. -/
def sighting (value : Text) : Sighting :=
  ⟨.property ⟨a.key, value⟩, a.start, a.stop, slice line a.start a.stop⟩

theorem trimLeft_line : trimLeft line = a.key ++ a.gap ++ '=' :: a.rest := by
  have hclause := trimLeft_append_of_blank a.indent_blank (a.key ++ (a.gap ++ '=' :: a.rest))
  rw [a.isKey.trimLeft_append, ← List.append_assoc, ← List.append_assoc, ← List.append_assoc,
    ← a.line_eq] at hclause
  exact hclause

theorem lead_blank : ∀ c ∈ a.lead, isBlank c = true := List.all_eq_true.1 List.all_takeWhile

theorem lead_append : a.rest = a.lead ++ trimLeft a.rest :=
  List.takeWhile_append_dropWhile.symm

theorem stop_eq : a.stop = a.start + a.clause.length := by
  simp [stop, start, clause, Nat.add_assoc]

end Assignment

/-- The expression of a rest is what it begins with behind the blanks. -/
theorem prefix_expression (rest : Text) : expression rest <+: trimLeft rest :=
  ((prefix_trimRight _).trans (prefix_beforeComment _)).trans (prefix_trimRight (trimLeft rest))

theorem trimLeft_expression (rest : Text) : trimLeft (expression rest) = expression rest := by
  obtain ⟨t, ht⟩ := prefix_expression rest
  have htrim := trimLeft_trimLeft rest
  rw [← ht] at htrim
  generalize expression rest = e at htrim
  cases e with
  | nil => rfl
  | cons c e => exact trimLeft_cons_of_not_blank (not_isBlank_of_trimLeft htrim) e

/-- Only blanks and a comment are left out of an expression, and only once. -/
theorem expression_expression {lead : Text} (hlead : ∀ c ∈ lead, isBlank c = true) (rest : Text) :
    expression (lead ++ expression rest) = expression rest := by
  have hright : trimRight (expression rest) = expression rest := trimRight_trimRight _
  have hcomment : commentStart (expression rest) = none :=
    commentStart_eq_none_of_prefix (prefix_trimRight _)
  rw [expression, trim, trimLeft_append_of_blank hlead, trimLeft_expression, hright,
    beforeComment_of_none hcomment, hright]

/-- The clause of an assignment is an assignment of the same, with nothing around it. -/
def Assignment.excerpt {line : Text} (a : Assignment line) : Assignment a.clause where
  indent := []
  key := a.key
  gap := a.gap
  rest := a.lead ++ expression a.rest
  line_eq := rfl
  indent_blank := by simp
  gap_blank := a.gap_blank
  isKey := a.isKey
  not_reserved := a.not_reserved
  single := by
    obtain ⟨t, ht⟩ := prefix_expression a.rest
    have hrest := a.lead_append
    rw [← ht, ← List.append_assoc] at hrest
    intro hhead
    refine a.single ?_
    rw [hrest, List.head?_append, hhead]
    rfl
  assigns := by
    rw [expression_expression a.lead_blank]
    exact a.assigns

namespace Assignment

variable {line : Text} (a : Assignment line)

theorem expression_excerpt : expression a.excerpt.rest = expression a.rest :=
  expression_expression a.lead_blank a.rest

theorem clause_excerpt : a.excerpt.clause = a.clause := by
  have hrest : a.excerpt.lead ++ expression a.rest = a.lead ++ expression a.rest := by
    have hlead := a.excerpt.lead_append
    rw [show a.excerpt.rest = a.lead ++ expression a.rest from rfl,
      trimLeft_append_of_blank a.lead_blank, trimLeft_expression] at hlead
    exact hlead.symm
  rw [clause, expression_excerpt, hrest]
  rfl

theorem stop_excerpt : a.excerpt.stop = a.clause.length := by
  rw [stop_eq, clause_excerpt]
  exact Nat.zero_add _

theorem exists_around : ∃ t, line = a.indent ++ a.clause ++ t := by
  obtain ⟨t, ht⟩ := prefix_expression a.rest
  have hrest := a.lead_append
  rw [← ht] at hrest
  refine ⟨t, a.line_eq.trans ?_⟩
  conv_lhs => rw [hrest]
  simp [clause]

end Assignment

/-- A property is found just where a line is an assignment. -/
theorem find?_eq_some_iff {line : Text} (hlf : '\n' ∉ line) {found : Found Property} :
    find? line = some found ↔ ∃ a : Assignment line,
      found = ⟨a.start, a.stop, ⟨a.key, unquote (expression a.rest)⟩⟩ := by
  have hfound (a : Assignment line) : find? line =
      some ⟨a.start, a.stop, ⟨a.key, unquote (expression a.rest)⟩⟩ := by
    have hread := readAssignment?_eq_some_iff.2
      ⟨a.gap, a.rest, a.trimLeft_line, a.isKey, a.gap_blank, a.single, rfl⟩
    have hlf' : '\n' ∉ a.rest := by
      intro hmem
      refine hlf ?_
      rw [a.line_eq]
      exact List.mem_append_right _ (List.mem_cons_of_mem _ hmem)
    have hvalue := (valueOf?_eq_some_iff hlf').2 ⟨rfl, a.assigns⟩
    have hkey : a.key ∉ reservedKeys := fun hmem => a.not_reserved (List.mem_singleton.1 hmem)
    rw [find?_eq, hread, Option.bind_some, hvalue, Option.bind_some, if_neg hkey]
    have hline := congrArg List.length a.line_eq
    have hclause := congrArg List.length a.trimLeft_line
    have hrest := congrArg List.length
      (List.takeWhile_append_dropWhile (p := isBlank) (l := a.rest))
    simp only [List.length_append, List.length_cons] at hline hclause hrest
    simp only [Assignment.start, Assignment.stop, Assignment.lead, List.length_append,
      List.length_cons, trimLeft, Option.some.injEq, Found.mk.injEq, and_true] at hclause ⊢
    omega
  constructor
  · intro h
    obtain ⟨⟨key, r⟩, hread, h'⟩ := Option.bind_eq_some_iff.1 (find?_eq line ▸ h)
    obtain ⟨value, hvalue, h'⟩ := Option.bind_eq_some_iff.1 h'
    split at h'
    · cases h'
    · next hkey =>
      obtain ⟨gap, rest, hclause, hkeyForm, hgap, hsingle, rfl⟩ :=
        readAssignment?_eq_some_iff.1 hread
      have hline : line = line.takeWhile isBlank ++ key ++ gap ++ '=' :: rest := by
        have hclause' : line.dropWhile isBlank = key ++ gap ++ '=' :: rest := hclause
        rw [List.append_assoc, List.append_assoc, ← List.append_assoc key, ← hclause',
          List.takeWhile_append_dropWhile]
      have hlf' : '\n' ∉ rest := by
        intro hmem
        refine hlf ?_
        rw [hline]
        exact List.mem_append_right _ (List.mem_cons_of_mem _ hmem)
      obtain ⟨rfl, hne⟩ := (valueOf?_eq_some_iff hlf').1 hvalue
      let a : Assignment line :=
        ⟨line.takeWhile isBlank, key, gap, rest, hline,
          fun c hc => List.all_eq_true.1 List.all_takeWhile c hc, hgap, hkeyForm,
          fun hurl => hkey (List.mem_singleton.2 hurl), hsingle, hne⟩
      exact ⟨a, Option.some.inj (h.symm.trans (hfound a))⟩
  · rintro ⟨a, rfl⟩
    exact hfound a

end Property

namespace Recognizer

open Property

/-- The recognizer of properties accepts its grammar and no more. On one line it sees a property
just where the line is an assignment, and in whatever way the line is taken as one, it reports the
key, what the expression stands for, the bounds from the key to the end of the expression and the
text between them; and it leaves the comment of the line alone. -/
theorem sight?_property_iff {line : Text} (hlf : '\n' ∉ line) :
    (((ofKind .property).sight? line).isSome ↔ Nonempty (Assignment line)) ∧
    (∀ s, (ofKind .property).sight? line = some s ↔
      ∃ (a : Assignment line) (value : Text),
        Stands (expression a.rest) value ∧ s = a.sighting value) ∧
    ∀ s, (ofKind .property).sight? line = some s →
      ∀ i, commentStart line = some i → s.stop ≤ i := by
  have hiff (s : Sighting) : (ofKind .property).sight? line = some s ↔
      ∃ (a : Assignment line) (value : Text),
        Stands (expression a.rest) value ∧ s = a.sighting value := by
    have hslice (a : Assignment line) :
        (⟨a.start, a.stop, Declaration.property ⟨a.key, unquote (expression a.rest)⟩⟩ :
          Found Declaration).text line = slice line a.start a.stop :=
      (slice_of_le line a.start a.stop).symm
    constructor
    · intro h
      obtain ⟨found, hfound, rfl⟩ := Option.map_eq_some_iff.1 h
      obtain ⟨p, hp, rfl⟩ := Option.map_eq_some_iff.1 hfound
      obtain ⟨a, rfl⟩ := (find?_eq_some_iff hlf).1 hp
      refine ⟨a, _, stands_iff.2 rfl, ?_⟩
      rw [Assignment.sighting, ← hslice]
      rfl
    · rintro ⟨a, value, hvalue, rfl⟩
      obtain rfl := stands_iff.1 hvalue
      have hp := (find?_eq_some_iff hlf).2 ⟨a, rfl⟩
      refine Option.map_eq_some_iff.2 ⟨_, Option.map_eq_some_iff.2 ⟨_, hp, rfl⟩, ?_⟩
      rw [Assignment.sighting, ← hslice]
      rfl
  refine ⟨?_, hiff, fun s hs i hi => ?_⟩
  · rw [Option.isSome_iff_exists]
    exact ⟨fun ⟨s, hs⟩ => ((hiff s).1 hs).nonempty, fun ⟨a⟩ =>
      ⟨_, (hiff _).2 ⟨a, _, stands_iff.2 rfl, rfl⟩⟩⟩
  · obtain ⟨found, hfound, rfl⟩ := Option.map_eq_some_iff.1 hs
    obtain ⟨code, comment, rfl, rfl, -, htrailer⟩ := isTrailerOf_of_commentStart hlf hi
    rw [Declaration.find?_property_append htrailer] at hfound
    exact Int.ofNat_le.2 (Declaration.bounds_of_find? hfound).2

/-- An assignment whose value and comment both have two slashes. -/
def notedVersion : Text := "  version = 'a//b' // c".toList

theorem sight?_notedVersion :
    '\n' ∉ notedVersion ∧ Nonempty (Assignment notedVersion) ∧
    ∃ s, (ofKind .property).sight? notedVersion = some s ∧
      s = ⟨.property ⟨"version".toList, "a//b".toList⟩, 2, 18, "version = 'a//b'".toList⟩ ∧
      commentStart notedVersion = some 19 ∧ s.stop ≤ 19 := by
  have hlf : '\n' ∉ notedVersion := by decide
  obtain ⟨hassigns, -, hstop⟩ := sight?_property_iff hlf
  have hs : (ofKind .property).sight? notedVersion =
      some ⟨.property ⟨"version".toList, "a//b".toList⟩, 2, 18, "version = 'a//b'".toList⟩ := by
    decide
  have hcomment : commentStart notedVersion = some 19 := by decide
  exact ⟨hlf, hassigns.1 (by rw [hs]; rfl), _, hs, rfl, hcomment, hstop _ hs 19 hcomment⟩

end Recognizer

end BuildScript
