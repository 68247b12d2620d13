import BuildScript.Proofs.Session.Removal
import BuildScript.Proofs.Session.Revision
import BuildScript.Proofs.Text.Literal
/-!
# Lines that a dependency owns

A dependency is removed with its line if beside its coordinate there stand only the scope, call
parentheses and a comment. So the code of a line that is removed opens no brace and closes none, and
it has at most one parenthesis on either side of the coordinate. The two are asked for one by one:
a line on which a call is only opened is owned as well as one on which it is opened and closed, and
what is left of the call then stands alone.

**Code.** `front`, `raw` and `behind` are the line as it stands in the script, cut around the parsed
coordinate; what the session shows for the dependency has no part in it. A coordinate that ends with
a backslash does not end where its mark is, and what stands behind it may be part of a literal.

Results:
* `ownsLine_iff`: what stands beside the coordinate on a line that is owned.
* `isBalanced_iff_of_owned`: when the code of such a line is balanced.
* `removes_of_selected`: what comes of a removal.
* `removes_splitScript`: a call that spans two lines.
-/
namespace BuildScript

open Text

theorem Dependency.isWord_of_mem_scopeOf {line : Text} {c : Char} (h : c ∈ scopeOf line) :
    isWord c = true := by
  unfold scopeOf at h
  split at h
  · cases h
  · next a s _ =>
    split at h
    · next hstart =>
      dsimp only at h
      split at h
      · cases h
      · rcases List.mem_cons.1 h with rfl | h
        · exact isWord_of_isIdentifierStart hstart
        · exact List.all_eq_true.1 List.all_takeWhile c h
    · cases h

/-! ## Balance -/

namespace Text

/-- A text opens as many parentheses and as many braces as it closes. -/
def IsBalanced (s : Text) : Prop :=
  s.count '(' = s.count ')' ∧ s.count '\x7b' = s.count '\x7d'

instance (s : Text) : Decidable (IsBalanced s) := inferInstanceAs (Decidable (_ ∧ _))

/-- Whether a call parenthesis is open at the end of a text. -/
def opensCall (s : Text) : Bool := endsWith ['('] (trim s)

/-- Whether the code of a text begins with the parenthesis that closes a call. -/
def closesCall (s : Text) : Bool := startsWith [')'] (trim (beforeComment s))

variable {c d : Char} {s : Text}

theorem count_trimRight (hc : isBlank c = false) (s : Text) :
    (trimRight s).count c = s.count c := by
  obtain ⟨b, hb, hs⟩ := eq_trimRight_append s
  have hnone : b.count c = 0 := List.count_eq_zero.2 fun hmem => by
    rw [hb c hmem] at hc
    cases hc
  conv_rhs => rw [hs, List.count_append, hnone, Nat.add_zero]

theorem count_trim (hc : isBlank c = false) (s : Text) : (trim s).count c = s.count c := by
  have hnone : (s.takeWhile isBlank).count c = 0 := List.count_eq_zero.2 fun hmem => by
    rw [List.all_eq_true.1 List.all_takeWhile c hmem] at hc
    cases hc
  rw [trim, count_trimRight hc]
  conv_rhs => rw [← List.takeWhile_append_dropWhile (p := isBlank) (l := s), List.count_append,
    hnone, Nat.zero_add]
  rfl

theorem count_of_endsWith (h : endsWith [d] s = true) (c : Char) :
    s.count c = s.dropLast.count c + if d = c then 1 else 0 := by
  obtain ⟨r, hr⟩ := Option.isSome_iff_exists.1 h
  have hs : s = r.reverse ++ [d] := by
    have hreverse := congrArg List.reverse (eq_append_of_after? hr)
    simpa using hreverse
  rw [hs, List.dropLast_concat, List.count_append, List.count_singleton]
  simp [beq_iff_eq]

theorem count_of_startsWith (h : startsWith [d] s = true) (c : Char) :
    s.count c = (s.drop 1).count c + if d = c then 1 else 0 := by
  obtain ⟨r, hr⟩ := Option.isSome_iff_exists.1 h
  rw [eq_append_of_after? hr]
  simp [List.count_cons]

end Text

namespace Session

/-! ## Beside the coordinate -/

/-- What stands in front of a coordinate on its line, apart from one open parenthesis. -/
def frontCode (front : Text) : Text :=
  if opensCall front then trimRight (trim front).dropLast else trim front

/-- What stands behind a coordinate on its line, apart from one parenthesis that closes a call and
the comment. -/
def behindCode (behind : Text) : Text :=
  if closesCall behind then trim ((trim (beforeComment behind)).drop 1)
  else trim (beforeComment behind)

theorem count_front {c : Char} (hc : isBlank c = false) (front : Text) :
    front.count c = (frontCode front).count c + if opensCall front ∧ '(' = c then 1 else 0 := by
  unfold frontCode
  rw [← count_trim hc]
  by_cases h : opensCall front = true
  · rw [if_pos h, count_trimRight hc, count_of_endsWith h]
    simp [h]
  · simp [h]

theorem count_behind {c : Char} (hc : isBlank c = false) (behind : Text) :
    (beforeComment behind).count c =
      (behindCode behind).count c + if closesCall behind ∧ ')' = c then 1 else 0 := by
  unfold behindCode
  rw [← count_trim hc (beforeComment behind)]
  by_cases h : closesCall behind = true
  · rw [if_pos h, count_trim hc (List.drop 1 _), count_of_startsWith h]
    simp [h]
  · simp [h]

/-- A dependency owns its line when beside the coordinate stand the scope or nothing, one
parenthesis on either side, and a comment. -/
theorem ownsLine_iff {s : Session} {e : Entry} {d : Dependency} {front raw behind : Text}
    (hline : s.index.lineText e.region.first.line = front ++ raw ++ behind)
    (hcolumn : e.region.first.column - 1 = front.length) (hlength : e.region.length = raw.length) :
    s.ownsLine e d = true ↔
      (frontCode front = [] ∨ frontCode front = d.scope) ∧ behindCode behind = [] := by
  have hplace : ((front.length : Int) + raw.length).toNat = (front ++ raw).length := by
    rw [List.length_append]
    omega
  unfold ownsLine
  rw [hline, hcolumn, hlength]
  dsimp only
  rw [hplace, List.drop_left, List.append_assoc, slice_front]
  simp only [Bool.and_eq_true, Bool.or_eq_true, decide_eq_true_eq]
  exact Iff.rfl

section
variable {front behind : Text}

theorem count_front_of_word (hword : ∀ c ∈ frontCode front, isWord c = true) {c : Char}
    (hblank : isBlank c = false) (hc : isWord c = false) :
    front.count c = if opensCall front ∧ '(' = c then 1 else 0 := by
  rw [count_front hblank, List.count_eq_zero.2 fun hmem => ?_, Nat.zero_add]
  rw [hword c hmem] at hc
  cases hc

theorem count_behind_of_nil (hbehind : behindCode behind = []) {c : Char}
    (hblank : isBlank c = false) :
    (beforeComment behind).count c = if closesCall behind ∧ ')' = c then 1 else 0 := by
  rw [count_behind hblank, hbehind, List.count_nil, Nat.zero_add]

/-- In front of the coordinate no literal is open, nor a comment. -/
theorem plain_of_front (hword : ∀ c ∈ frontCode front, isWord c = true) :
    ∀ c ∈ front, isQuote c = false ∧ c ≠ '/' := by
  intro c hmem
  cases hblank : isBlank c with
  | true => exact plain_of_isBlank hblank
  | false =>
    cases hc : isWord c with
    | true =>
      refine ⟨not_isQuote_of_isWord hc, ?_⟩
      rintro rfl
      exact absurd hc (by decide)
    | false =>
      -- what is neither a blank nor of a word can only be the parenthesis
      have hpos := List.count_pos_iff.2 hmem
      rw [count_front_of_word hword hblank hc] at hpos
      split at hpos
      · next h => rw [← h.2]; decide
      · cases hpos

/-- Behind the coordinate no literal begins in front of the comment. -/
theorem plain_of_behind (hbehind : behindCode behind = []) :
    ∀ c ∈ beforeComment behind, isQuote c = false := by
  intro c hmem
  cases hblank : isBlank c with
  | true => exact not_isQuote_of_isBlank hblank
  | false =>
    have hpos := List.count_pos_iff.2 hmem
    rw [count_behind_of_nil hbehind hblank] at hpos
    split at hpos
    · next h => rw [← h.2]; decide
    · cases hpos

/-- The code of a line that is owned is balanced just when a call is opened and closed on it, or
neither. -/
theorem isBalanced_iff_of_owned {raw : Text} (hword : ∀ c ∈ frontCode front, isWord c = true)
    (hbehind : behindCode behind = []) (hliteral : isLiteral raw = true) :
    IsBalanced (codePortion (front ++ raw ++ behind)) ↔ opensCall front = closesCall behind := by
  rw [List.append_assoc, codePortion_append_plain (plain_of_front hword),
    codePortion_append_of_isLiteral hliteral, codePortion,
    outsideLiterals_of_plain (plain_of_behind hbehind), IsBalanced]
  simp only [List.count_append]
  rw [count_front_of_word hword (by decide) (by decide),
    count_front_of_word hword (by decide) (by decide),
    count_front_of_word hword (by decide) (by decide),
    count_front_of_word hword (by decide) (by decide),
    count_behind_of_nil hbehind (by decide), count_behind_of_nil hbehind (by decide),
    count_behind_of_nil hbehind (by decide), count_behind_of_nil hbehind (by decide)]
  cases opensCall front <;> cases closesCall behind <;> decide

end

/-! ## Removals -/

theorem Coherent.lineText_eq {options : ParseOptions} {text : Text} {s : Session} {r : Region}
    {k : Nat} {u m v : Text} (h : Coherent (Index.parse options text) s)
    (hcovers : r.Covers text k u m v) : s.index.lineText r.first.line = u ++ m ++ v := by
  have hline : r.first.line = (k + 1 : Nat) := congrArg (·.first.line) hcovers.region
  have hnumber : (r.first.line - 1).toNat = k := by omega
  rw [Index.lineText, if_neg (by omega), hnumber, h.lines, Index.parse_lines,
    List.getD_eq_getElem?_getD, hcovers.line]
  rfl

/-- The removal of a dependency that is selected is refused unless it owns its line. -/
theorem removeDependency_cases {s : Session} {group name : Text} {scope : Option Text} {e : Entry}
    {d : Dependency} {i : Nat} (h : (s.selectDependency group name scope).1 = .ok (e, d, i)) :
    (s.ownsLine e d = true ∧ (s.removeDependency group name scope).fault = none ∧
      ∃ description, (s.removeDependency group name scope).session =
        s.recordRemoval i (lineRemoval s.index.text e.line description)) ∨
    (s.ownsLine e d = false ∧
      (s.removeDependency group name scope).fault =
        some (.lineShared group name e.region.first.line) ∧
      (s.removeDependency group name scope).session = s) := by
  obtain ⟨warnings, hsel⟩ : ∃ warnings, s.selectDependency group name scope =
      (.ok (e, d, i), warnings) := ⟨_, Prod.ext h rfl⟩
  unfold removeDependency
  rw [hsel]
  dsimp only
  cases howns : s.ownsLine e d with
  | true => exact Or.inl ⟨rfl, rfl, _, rfl⟩
  | false => exact Or.inr ⟨rfl, rfl, rfl⟩

theorem isWord_of_mem_scope {kinds : List Kind} {skipComments : Bool} {text : Text} {e : Entry}
    {d : Dependency}
    (h : e ∈ (Index.parse ⟨kinds.map Recognizer.ofKind, skipComments⟩ text).entries)
    (hd : e.declaration = .dependency d) (hown : d.isProjectReference = false) :
    ∀ c ∈ d.scope, isWord c = true := by
  obtain ⟨found, u, v, -, hfind, hfound, -⟩ := Index.exists_find?_of_mem_parse h
  rw [Entry.kind, hd] at hfind
  obtain ⟨a, ha, rfl⟩ := Option.map_eq_some_iff.1 hfind
  obtain rfl : d = a.value := Declaration.dependency.inj (hd.symm.trans hfound)
  obtain ⟨_, _, _, _, _, -, -, -, hvalue⟩ := Dependency.find?_spec ha hown
  rw [hvalue]
  exact fun c hc => Dependency.isWord_of_mem_scopeOf hc

/-- A dependency that is selected behind any course of requests stands where it was parsed, under a
word. -/
theorem covers_of_selected {kinds : List Kind} {skipComments : Bool} {text : Text}
    {editor : EditorOptions} {requests : List Request} {group name : Text} {scope : Option Text}
    {e : Entry} {d : Dependency} {i : Nat}
    (h : (((start (Index.parse ⟨kinds.map Recognizer.ofKind, skipComments⟩ text) editor).afterAll
      requests).selectDependency group name scope).1 = .ok (e, d, i)) :
    ∃ front raw behind, e.region.Covers text e.line front raw behind ∧
      ∀ c ∈ d.scope, isWord c = true := by
  obtain ⟨hmem, hd, -, -, hown⟩ := selectDependency_spec h
  obtain ⟨he, -⟩ := mem_remaining hmem
  obtain ⟨e₀, he₀, hregion, hrevised⟩ := KeepsEntries.afterAll _ requests i e he
  rw [hd] at hrevised
  obtain ⟨d₀, hd₀, hown₀, -, -, hscope⟩ := hrevised.of_dependency hown
  have hmem₀ := List.mem_of_getElem? he₀
  obtain ⟨front, behind, hcovers⟩ := Index.covers_of_mem_parse hmem₀
  rw [hregion, show e₀.line = e.line from congrArg Region.line hregion] at hcovers
  refine ⟨front, e₀.rawText, behind, hcovers, ?_⟩
  rw [← hscope]
  exact isWord_of_mem_scope hmem₀ hd₀ hown₀

/-- What comes of the removal of a dependency whose coordinate stands between `front` and `behind`
on its line: the line is deleted, or the removal is refused with a fault and records nothing. A line
that is deleted has its code in front of the coordinate as it stands there, and if the coordinate is
a literal its code is balanced just when a call is opened and closed on the line, or neither. -/
structure Removes (text : Text) (s : Session) (attempt : Attempt) (fault : Fault) (e : Entry)
    (i : Nat) (front raw behind : Text) : Prop where
  covers : e.region.Covers text e.line front raw behind
  deletes : attempt.fault = none →
    ∃ edit : Edit, edit.DeletesLine text e.line ∧ attempt.session = s.recordRemoval i edit
  refused : attempt.fault ≠ none → attempt.fault = some fault ∧ attempt.session = s
  code : attempt.fault = none →
    codePortion (front ++ raw ++ behind) = front ++ codePortion (raw ++ behind)
  balanced : attempt.fault = none → isLiteral raw = true →
    (IsBalanced (codePortion (front ++ raw ++ behind)) ↔ opensCall front = closesCall behind)

/-- The removal of a dependency behind any course of requests. Where a call is opened and closed on
the line, or neither, a line that is not balanced is refused as shared and nothing is recorded. -/
theorem removes_of_selected (kinds : List Kind) (enabled : Option (List Kind))
    (skipComments : Bool) (editor : EditorOptions) (text : Text) (requests : List Request)
    (group name : Text) (scope : Option Text) {e : Entry} {d : Dependency} {i : Nat}
    (hsel : (((start (Index.parse (.builtIn kinds enabled skipComments) text) editor).afterAll
      requests).selectDependency group name scope).1 = .ok (e, d, i)) :
    let base := start (Index.parse (.builtIn kinds enabled skipComments) text) editor
    let s := base.afterAll requests
    let attempt := s.attempt (.removeDependency group name scope)
    let fault := Fault.lineShared group name e.region.first.line
    ∃ front raw behind, Removes text s attempt fault e i front raw behind ∧
      (isLiteral raw = true → opensCall front = closesCall behind →
        ¬ IsBalanced (codePortion (front ++ raw ++ behind)) →
          attempt.fault = some fault ∧ attempt.session = s) := by
  obtain ⟨used, hused⟩ := ParseOptions.exists_builtIn_eq kinds enabled skipComments
  rw [hused] at hsel ⊢
  intro base s attempt fault
  have hcoherent := coherent_afterAll (Index.parse ⟨used.map Recognizer.ofKind, skipComments⟩ text)
    editor requests
  obtain ⟨front, raw, behind, hcovers, hscope⟩ := covers_of_selected hsel
  have hcolumn : e.region.first.column - 1 = front.length := by
    rw [hcovers.region]
    exact Int.add_sub_cancel _ _
  have howns := ownsLine_iff (d := d) (hcoherent.lineText_eq hcovers) hcolumn hcovers.length_eq
  refine ⟨front, raw, behind, ?_⟩
  rcases removeDependency_cases hsel with ⟨hown, hfault, description, hsession⟩ |
    ⟨-, hfault, hsession⟩
  · obtain ⟨hfront, hbehind⟩ := howns.1 hown
    have hword : ∀ c ∈ frontCode front, isWord c = true := by
      rcases hfront with h | h <;> rw [h]
      · exact fun c hc => absurd hc List.not_mem_nil
      · exact hscope
    have hbalanced (hliteral : isLiteral raw = true) :=
      isBalanced_iff_of_owned hword hbehind hliteral
    rw [hcoherent.text] at hsession
    have hremoves : Removes text s attempt fault e i front raw behind := {
      covers := hcovers
      deletes := fun _ => ⟨_, deletesLine_lineRemoval hcovers.lt description, hsession⟩
      refused := fun h => absurd hfault h
      code := fun _ => by
        rw [List.append_assoc, codePortion_append_plain (plain_of_front hword)]
      balanced := fun _ => hbalanced }
    exact ⟨hremoves, fun hliteral hcalls hnot => absurd ((hbalanced hliteral).2 hcalls) hnot⟩
  · have hnone : attempt.fault ≠ none := fun h => Option.some_ne_none _ (hfault.symm.trans h)
    have hremoves : Removes text s attempt fault e i front raw behind := {
      covers := hcovers
      deletes := fun h => absurd h hnone
      refused := fun _ => ⟨hfault, hsession⟩
      code := fun h => absurd h hnone
      balanced := fun h => absurd h hnone }
    exact ⟨hremoves, fun _ _ _ => ⟨hfault, hsession⟩⟩

/-- A script with a call and a comment on one line. -/
def wrappedScript : Text := "implementation ('a:b:1') // (kept\n".toList

/-- Its dependency is removed with the line, another version notwithstanding. -/
theorem removes_wrappedScript :
    let base := start (Index.parse (.builtIn Kind.all none true) wrappedScript) {}
    let s := base.afterAll [.setDependencyVersion "a".toList "b".toList "2".toList none]
    let attempt := s.attempt (.removeDependency "a".toList "b".toList none)
    ∃ e d i, (s.selectDependency "a".toList "b".toList none).1 = .ok (e, d, i) ∧
      attempt.fault = none ∧
      let fault := Fault.lineShared "a".toList "b".toList e.region.first.line
      ∃ front raw behind, Removes wrappedScript s attempt fault e i front raw behind ∧
        (isLiteral raw = true → opensCall front = closesCall behind →
          ¬ IsBalanced (codePortion (front ++ raw ++ behind)) →
            attempt.fault = some fault ∧ attempt.session = s) := by
  intro base s attempt
  obtain ⟨e, d, i, hsel⟩ : ∃ e d i,
      (s.selectDependency "a".toList "b".toList none).1 = .ok (e, d, i) := ⟨_, _, _, rfl⟩
  have hfault : attempt.fault = none := by decide
  exact ⟨e, d, i, hsel, hfault, removes_of_selected Kind.all none true {} wrappedScript
    [.setDependencyVersion "a".toList "b".toList "2".toList none] "a".toList "b".toList none hsel⟩

/-- A script with a call on two lines. -/
def splitScript : Text := "implementation('a:b:1'\n)\n".toList

/-- The line that opens the call is removed, and the one that closes it is left. -/
theorem removes_splitScript :
    let s := start (Index.parse (.builtIn Kind.all none true) splitScript) {}
    let attempt := s.attempt (.removeDependency "a".toList "b".toList none)
    let line := "implementation('a:b:1'".toList
    attempt.fault = none ∧ attempt.session.edits.map (·.oldText) = [line ++ ['\n']] ∧
      codePortion line = "implementation(".toList ∧ ¬ IsBalanced (codePortion line) ∧
      attempt.session.render.result = .ok ")\n".toList :=
  ⟨rfl, rfl, rfl, by decide, rfl⟩

end Session

end BuildScript
