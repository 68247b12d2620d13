import BuildScript.Session.Insert
import BuildScript.Proofs.Text.Search
import BuildScript.Proofs.Declaration.Assignment
import BuildScript.Proofs.Declaration.Coordinate
/-!
# Written declarations

A declaration that is added to a script stands indented on a line of its own, its arguments behind
a blank or in the parentheses of a call. Such a line is found to declare what was written, and
nothing that would be looked for before it: it assigns nothing, and unless it is a dependency it
has no coordinate and no reference to another project.

Results:
* `Property.find?_eq_none_of_word`: a line that goes on otherwise behind its first word assigns
  nothing.
* `Coordinate.find?_eq_none_of_address`: an address is no coordinate.
* `Dependency.find?_written`, `Plugin.find?_written`, `Repository.find?_written`: what is written is
  found.
-/
namespace BuildScript

open Text

/-! ## Styles -/

/-- How an argument is written behind a word: what opens it, its marks, and what closes it. -/
structure Style where
  opening : Char
  mark : Char
  closing : Text

namespace Style

/-- The style of a script that declares things by calls, and the one of any other script. -/
def ofCalls (calls : Bool) : Style :=
  if calls then ⟨'(', '"', [')']⟩ else ⟨' ', '\'', []⟩

/-- A body in the marks of a style. -/
def quote (style : Style) (body : Text) : Text := style.mark :: (body ++ [style.mark])

variable {body : Text}

theorem isQuote_mark (calls : Bool) : isQuote (ofCalls calls).mark = true := by
  cases calls <;> rfl

theorem opening_cases (calls : Bool) :
    (ofCalls calls).opening = ' ' ∨ (ofCalls calls).opening = '(' := by
  cases calls
  · exact Or.inl rfl
  · exact Or.inr rfl

theorem readArgument?_quote (calls : Bool) {c : Char} (hc : c = ' ' ∨ c = '(')
    (hbody : ∀ x ∈ body, isQuote x = false) (rest : Text) :
    readArgument? (c :: ((ofCalls calls).quote body ++ rest)) =
      some ((ofCalls calls).mark, body, rest) := by
  have hskip : skipCallOpening (c :: ((ofCalls calls).quote body ++ rest)) =
      (ofCalls calls).quote body ++ rest := by
    rcases hc with rfl | rfl <;> cases calls <;> rfl
  rw [readArgument?, hskip, quote, List.cons_append, List.append_assoc, List.singleton_append]
  exact readQuoted?_append (isQuote_mark calls) hbody rest

end Style

/-- What the lines of added declarations begin with. -/
def indent : Text := ({} : EditorOptions).indent

theorem isBlank_of_mem_indent : ∀ c ∈ indent, isBlank c = true := List.all_eq_true.1 rfl

/-! ## Assignments -/

/-- A line that goes on otherwise than with an equals sign behind its first word assigns nothing. -/
theorem Property.find?_eq_none_of_word {b w s : Text} {c d : Char}
    (hb : ∀ x ∈ b, isBlank x = true) (hc : isIdentifierStart c = true)
    (hw : ∀ x ∈ w, isDotted x = true) (hd : isDotted d = false)
    (hs : (trimLeft (d :: s)).head? ≠ some '=') : find? (b ++ c :: (w ++ d :: s)) = none := by
  have hclause : trimLeft (b ++ c :: (w ++ d :: s)) = c :: (w ++ d :: s) := by
    rw [trimLeft_append_of_blank hb]
    exact trimLeft_cons_of_not_blank (not_isBlank_of_isIdentifierStart hc) _
  have hread : readAssignment? (c :: (w ++ d :: s)) = none := by
    rw [readAssignment?, if_pos hc, dropWhile_of_all hw hd]
    split
    · rfl
    · next e =>
      rw [e] at hs
      exact absurd rfl hs
    · rfl
  rw [find?_eq, hclause, hread]
  rfl

/-! ## Dependencies -/

namespace Coordinate

variable {mark : Char} {u body v line : Text} {c : Coordinate}

theorem findFrom?_append_plain (hu : ∀ x ∈ u, isQuote x = false) (offset : Nat) (s : Text) :
    findFrom? 0 offset (u ++ s) = findFrom? 0 (offset + u.length) s := by
  induction u generalizing offset with
  | nil => rfl
  | cons x u ih =>
    have hread : readBody? (x :: (u ++ s)) = none := by
      rw [readBody?, hu x List.mem_cons_self]
      rfl
    rw [List.cons_append, findFrom?, hread]
    dsimp only
    rw [ih (fun y hy => hu y (List.mem_cons_of_mem x hy)), List.length_cons, Nat.add_assoc,
      Nat.add_comm 1]

theorem Quotes.find? (h : Quotes mark body c) (hu : ∀ x ∈ u, isQuote x = false) (v : Text) :
    find? (u ++ mark :: (body ++ mark :: v)) =
      some ⟨u.length, u.length + (body.length + 2), c⟩ := by
  rw [Coordinate.find?, findFrom?_append_plain hu, Nat.zero_add]
  exact h.findFrom? u.length v

theorem find?_eq_none_of_not_mem (h : ':' ∉ line) : find? line = none := by
  refine Option.eq_none_iff_forall_ne_some.2 fun found hfound => ?_
  obtain ⟨w, mark, body, v, rfl, hquotes, -⟩ := findFrom?_spec hfound
  obtain ⟨parts, hbody, -⟩ := hquotes.fields_eq
  have hcolon : ':' ∈ body := by
    rw [hbody, intercalate_cons_cons]
    simp
  exact h (by simp [hcolon])

/-- A line whose only quoted part is an address has no coordinate. -/
theorem find?_eq_none_of_address (hmark : isQuote mark = true) (hu : ∀ x ∈ u, isQuote x = false)
    (hbody : ∀ x ∈ body, isQuote x = false) (hv : ∀ x ∈ v, isQuote x = false)
    (haddress : contains "://".toList body = true) :
    find? (u ++ mark :: (body ++ mark :: v)) = none := by
  rw [find?, findFrom?_append_plain hu]
  refine Option.eq_none_iff_forall_ne_some.2 fun found hfound => ?_
  obtain ⟨w, mark', body', v', hline, hquotes, -⟩ := findFrom?_spec hfound
  cases w with
  | nil =>
    obtain ⟨rfl, hrest⟩ := List.cons.inj hline
    have hmem : mark ∉ body := fun hx => by
      rw [hbody mark hx] at hmark
      cases hmark
    have hmem' : mark ∉ v := fun hx => by
      rw [hv mark hx] at hmark
      cases hmark
    obtain ⟨rfl, -⟩ := (List.append_cons_inj_of_notMem hmem hmem').1 hrest
    have hnames := hquotes.names
    rw [ofBody?, if_pos haddress] at hnames
    cases hnames
  | cons d w =>
    -- behind the first mark there is only one more
    have hcount := congrArg (List.countP isQuote) (List.cons.inj hline).2
    have hbody₀ : body.countP isQuote = 0 := List.countP_eq_zero.2 (by simpa using hbody)
    have hv₀ : v.countP isQuote = 0 := List.countP_eq_zero.2 (by simpa using hv)
    simp only [List.append_eq, List.countP_append, List.countP_cons, hmark, hquotes.quote, hbody₀,
      hv₀, if_true] at hcount
    omega

end Coordinate

namespace Dependency

/-- An identifier that a dependency may be declared under. -/
def isScope : Text → Bool
  | [] => false
  | c :: w => isIdentifierStart c && w.all isWord && !nonScopes.contains (c :: w)

theorem scopeOf_append {b scope s : Text} {c : Char} (hb : ∀ x ∈ b, isBlank x = true)
    (hscope : isScope scope = true) (hc : isWord c = false) :
    scopeOf (b ++ (scope ++ c :: s)) = scope := by
  cases scope with
  | nil => cases hscope
  | cons a w =>
    simp only [isScope, Bool.and_eq_true, Bool.not_eq_true', List.all_eq_true] at hscope
    obtain ⟨⟨hstart, hword⟩, hscope⟩ := hscope
    have hmem : a :: w ∉ nonScopes := fun h => by
      rw [List.contains_iff_mem.2 h] at hscope
      cases hscope
    rw [scopeOf, trimLeft_append_of_blank hb, List.cons_append,
      trimLeft_cons_of_not_blank (not_isBlank_of_isIdentifierStart hstart)]
    dsimp only
    rw [if_pos hstart, takeWhile_of_all hword hc, if_neg hmem]

theorem isWord_of_mem_scope {scope : Text} (hscope : isScope scope = true) {c : Char}
    (hc : c ∈ scope) : isWord c = true := by
  cases scope with
  | nil => cases hc
  | cons a w =>
    simp only [isScope, Bool.and_eq_true, List.all_eq_true] at hscope
    rcases List.mem_cons.1 hc with rfl | hc
    · exact isWord_of_isIdentifierStart hscope.1.1
    · exact hscope.1.2 c hc

theorem colon_mem_of_readReference? {s : Text} {a : Text × Text} (h : readReference? s = some a) :
    ':' ∈ s := by
  obtain ⟨r, hr, h⟩ := Option.bind_eq_some_iff.1 h
  rw [eq_append_of_after? hr]
  split at h
  · next mark t e =>
    have hsuffix : mark :: ':' :: t <:+ r := by
      rw [← e]
      exact (skipPathLabel_suffix _).trans (List.dropWhile_suffix isBlank)
    exact List.mem_append_right _ (hsuffix.subset (by simp))
  · cases h

theorem find?_eq_none_of_not_mem {line : Text} (h : ':' ∉ line) : find? line = none := by
  have hreference : searchIn (fun _ s => readReference? s) line = none := by
    refine search_eq_none (fun t ht b => ?_) none 0
    refine Option.eq_none_iff_forall_ne_some.2 fun a ha => ?_
    exact h (ht.subset (colon_mem_of_readReference? ha))
  rw [find?, Coordinate.find?_eq_none_of_not_mem h, hreference]

/-- A line without a coordinate and without the word for another project declares no dependency. -/
theorem find?_eq_none_of_contains {line : Text} (hc : Coordinate.find? line = none)
    (h : contains "project(".toList line = false) : find? line = none := by
  have hreference : searchIn (fun _ s => readReference? s) line = none := by
    refine search_eq_none_of_contains ["project(".toList] (fun _ s a ha => ?_) ?_ none 0
    · obtain ⟨r, hr, -⟩ := Option.bind_eq_some_iff.1 ha
      exact ⟨_, List.mem_singleton_self _, Option.isSome_of_mem hr⟩
    · exact List.forall_mem_singleton.2 h
  rw [find?, hc, hreference]

/-- A line that begins with a scope and goes on with an argument assigns nothing. -/
theorem property?_written (calls : Bool) {b scope : Text} (hb : ∀ x ∈ b, isBlank x = true)
    (hscope : isScope scope = true) (body : Text) : let style := Style.ofCalls calls
    Property.find? (b ++ scope ++ [style.opening] ++ style.quote body ++ style.closing) = none := by
  intro style
  cases scope with
  | nil => cases hscope
  | cons c w =>
    simp only [isScope, Bool.and_eq_true, List.all_eq_true] at hscope
    have hline : b ++ c :: w ++ [style.opening] ++ style.quote body ++ style.closing =
        b ++ c :: (w ++ style.opening :: (style.quote body ++ style.closing)) := by
      simp
    rw [hline]
    refine Property.find?_eq_none_of_word hb hscope.1.1 (fun x hx => ?_) ?_ ?_
    · rw [isDotted, hscope.1.2 x hx, Bool.true_or]
    · cases calls <;> rfl
    · cases calls
      · exact show some '\'' ≠ some '=' by decide
      · exact show some '(' ≠ some '=' by decide

theorem find?_written (calls : Bool) {b scope body : Text} {c : Coordinate}
    (hb : ∀ x ∈ b, isBlank x = true) (hscope : isScope scope = true)
    (h : Coordinate.Quotes (Style.ofCalls calls).mark body c) :
    let style := Style.ofCalls calls
    let u := b ++ scope ++ [style.opening]
    find? (u ++ style.quote body ++ style.closing) =
      some ⟨u.length, (u ++ style.quote body).length,
        ⟨c.group, c.name, c.version, scope, style.quote body⟩⟩ := by
  intro style u
  have hu : ∀ x ∈ u, isQuote x = false := by
    intro x hx
    rw [List.mem_append, List.mem_append, List.mem_singleton] at hx
    rcases hx with (hx | hx) | rfl
    · exact not_isQuote_of_isBlank (hb x hx)
    · exact not_isQuote_of_isWord (isWord_of_mem_scope hscope hx)
    · cases calls <;> rfl
  have hline : u ++ style.quote body ++ style.closing =
      u ++ style.mark :: (body ++ style.mark :: style.closing) := by
    simp [Style.quote]
  have hcoordinate : Coordinate.find? (u ++ style.quote body ++ style.closing) =
      some ⟨u.length, u.length + (body.length + 2), c⟩ := by
    rw [hline]
    exact h.find? hu style.closing
  have hword : isWord style.opening = false := by cases calls <;> decide
  have hscopeOf : scopeOf (u ++ style.quote body ++ style.closing) = scope := by
    have hfront : u ++ style.quote body ++ style.closing =
        b ++ (scope ++ style.opening :: (style.quote body ++ style.closing)) := by
      simp [u]
    rw [hfront, scopeOf_append hb hscope hword]
  have hlength : (u ++ style.quote body).length = u.length + (body.length + 2) := by
    simp [Style.quote]
  have hfind : find? (u ++ style.quote body ++ style.closing) =
      some ⟨u.length, u.length + (body.length + 2), ⟨c.group, c.name, c.version,
        scopeOf (u ++ style.quote body ++ style.closing), style.quote body⟩⟩ :=
    find?_of_coordinate rfl hcoordinate
  rw [hfind, hscopeOf, hlength]

end Dependency

/-! ## Plugins -/

namespace Plugin

variable {before : Option Char} {s : Text} {a : Plugin × Text}

theorem readId?_spec {a : (Char × Text) × Text} (h : readId? before s = some a) :
    ∃ r, s = "id".toList ++ r ∧ 2 ≤ r.countP isQuote := by
  unfold readId? at h
  split at h
  · cases h
  · obtain ⟨r, hr, h⟩ := Option.bind_eq_some_iff.1 h
    obtain ⟨b, hq, -⟩ := Option.bind_eq_some_iff.1 h
    exact ⟨r, eq_append_of_after? hr, two_le_countP_of_readArgument? hq⟩

theorem readDeclaration?_spec (h : readDeclaration? before s = some a) :
    ∃ r, s = "id".toList ++ r ∧ 2 ≤ r.countP isQuote := by
  obtain ⟨b, hid, -⟩ := Option.bind_eq_some_iff.1 h
  obtain ⟨b', hid, -⟩ := Option.map_eq_some_iff.1 hid
  exact readId?_spec hid

theorem readApplication?_spec (h : readApplication? before s = some a) :
    ∃ r, s = "apply".toList ++ r ∧ 2 ≤ r.countP isQuote := by
  unfold readApplication? at h
  split at h
  · cases h
  · obtain ⟨r, hr, h⟩ := Option.bind_eq_some_iff.1 h
    refine ⟨r, eq_append_of_after? hr, ?_⟩
    cases r with
    | nil => cases h
    | cons c r =>
      dsimp only at h
      split at h
      · cases h
      · obtain ⟨t, ht, h⟩ := Option.bind_eq_some_iff.1 h
        split at h
        · next u e =>
          obtain ⟨b, hq, -⟩ := Option.bind_eq_some_iff.1 h
          have ht : t <:+ r := by
            have htrim : trimLeft r <:+ r := List.dropWhile_suffix isBlank
            rw [eq_append_of_after? ht] at htrim
            exact (List.suffix_append _ t).trans htrim
          have hu : u <:+ t := by
            have htrim : trimLeft t <:+ t := List.dropWhile_suffix isBlank
            rw [e] at htrim
            exact (List.suffix_cons ':' u).trans htrim
          have hsuffix : trimLeft u <:+ c :: r :=
            (((List.dropWhile_suffix isBlank).trans hu).trans ht).trans (List.suffix_cons c r)
          exact Nat.le_trans (two_le_countP_of_readQuoted? hq) hsuffix.sublist.countP_le
        · cases h

/-- A line with one quoted body and none of the words in front of it declares no plugin. -/
theorem find?_eq_none_of_quoted {mark : Char} {u s : Text} (hmark : isQuote mark = true)
    (hu : contains "id".toList u = false ∧ contains "apply".toList u = false)
    (hs : s.countP isQuote ≤ 1) : find? (u ++ mark :: s) = none := by
  have hstop : mark ∉ "id".toList ∧ mark ∉ "apply".toList := by
    rcases isQuote_cases hmark with rfl | rfl <;> decide
  have hdeclaration : searchIn readDeclaration? (u ++ mark :: s) = none := by
    refine search_eq_none_of_quoted ["id".toList] (fun _ s a h => ?_) ?_ ?_ hs none 0
    · exact ⟨_, List.mem_singleton_self _, readDeclaration?_spec h⟩
    · exact List.forall_mem_singleton.2 hstop.1
    · exact List.forall_mem_singleton.2 hu.1
  have happlication : searchIn readApplication? (u ++ mark :: s) = none := by
    refine search_eq_none_of_quoted ["apply".toList] (fun _ s a h => ?_) ?_ ?_ hs none 0
    · exact ⟨_, List.mem_singleton_self _, readApplication?_spec h⟩
    · exact List.forall_mem_singleton.2 hstop.2
    · exact List.forall_mem_singleton.2 hu.2
  rw [find?, hdeclaration, happlication]
  rfl

/-- What a version is declared by, if there is one. -/
def clause (style : Style) (version : Text) : Text :=
  if version = [] then [] else " version ".toList ++ style.quote version

/-- What a plugin is declared by. -/
def written (style : Style) (id version : Text) : Text :=
  "id".toList ++ style.opening :: (style.quote id ++ (style.closing ++ clause style version))

section
variable {calls : Bool} {id version : Text}

theorem skipCallClosing_clause (calls : Bool) (version : Text) :
    skipCallClosing ((Style.ofCalls calls).closing ++ clause (Style.ofCalls calls) version) =
      clause (Style.ofCalls calls) version := by
  unfold clause
  split <;> cases calls <;> rfl

theorem readVersion?_clause (calls : Bool) (hversion : ∀ c ∈ version, isQuote c = false) :
    readVersion? (clause (Style.ofCalls calls) version) =
      if version = [] then none else some (version, []) := by
  unfold clause
  split
  · rfl
  · have hread := Style.readArgument?_quote calls (Or.inl rfl) hversion []
    have hclause : readVersion? (" version ".toList ++ (Style.ofCalls calls).quote version) =
        (readArgument? (' ' :: (Style.ofCalls calls).quote version)).bind fun a =>
          some (a.2.1, skipCallClosing a.2.2) := rfl
    rw [List.append_nil] at hread
    rw [hclause, hread]
    rfl

theorem readId?_append (hbefore : startsWord before = true) (r : Text) :
    readId? before ("id".toList ++ r) = (readArgument? r).bind fun (mark, name, rest) =>
      if name = [] then none else some ((mark, name), rest) := by
  rw [readId?, hbefore]
  rfl

theorem readDeclaration?_written (hid : id ≠ []) (hplain : ∀ c ∈ id ++ version, isQuote c = false)
    (hbefore : startsWord before = true) :
    readDeclaration? before (written (Style.ofCalls calls) id version) =
      some (⟨id, version, true⟩, []) := by
  have hargument := Style.readArgument?_quote calls (Style.opening_cases calls)
    (fun c hc => hplain c (List.mem_append_left version hc))
    ((Style.ofCalls calls).closing ++ clause (Style.ofCalls calls) version)
  have hcall : readIdCall? before (written (Style.ofCalls calls) id version) =
      some (((Style.ofCalls calls).mark, id), clause (Style.ofCalls calls) version) := by
    rw [readIdCall?, written, readId?_append hbefore, hargument, Option.bind_some]
    dsimp only
    rw [if_neg hid, Option.map_some, skipCallClosing_clause]
  rw [readDeclaration?, hcall, Option.bind_eq_bind, Option.bind_some]
  dsimp only
  rw [readVersion?_clause calls fun c hc => hplain c (List.mem_append_right id hc)]
  by_cases hempty : version = []
  · rw [if_pos hempty, hempty]
    rfl
  · rw [if_neg hempty]

theorem find?_written (calls : Bool) (hid : id ≠ [])
    (hplain : ∀ c ∈ id ++ version, isQuote c = false) :
    let m := written (Style.ofCalls calls) id version
    find? (indent ++ m) = some ⟨indent.length, (indent ++ m).length, ⟨id, version, true⟩⟩ := by
  intro m
  have hsearch : searchIn readDeclaration? (indent ++ m ++ []) =
      some ⟨indent.length, (indent ++ m).length, ⟨id, version, true⟩⟩ := by
    refine searchIn_of_read ["id".toList] (fun _ s a h => ?_) ?_ ?_ ?_
    · obtain ⟨r, hr, -⟩ := readDeclaration?_spec h
      exact ⟨_, List.mem_singleton_self _, startsWith_iff.2 ⟨r, hr⟩⟩
    · decide
    · exact List.cons_ne_nil _ _
    · rw [List.append_nil]
      exact readDeclaration?_written hid hplain rfl
  rw [List.append_nil] at hsearch
  rw [find?, hsearch]
  rfl

theorem not_mem_written (calls : Bool) {c : Char} (hc : c ∉ "id version ('\")".toList)
    (h : c ∉ id ++ version) : c ∉ written (Style.ofCalls calls) id version := by
  rw [List.mem_append, not_or] at h
  unfold written clause
  split <;> cases calls <;> simp [Style.quote, Style.ofCalls] at hc ⊢ <;> simp [hc, h]

/-- Nothing else that would be looked for before is found on the line. -/
theorem others_written (calls : Bool) (hcolon : ':' ∉ id ++ version) :
    let line := indent ++ written (Style.ofCalls calls) id version
    Property.find? line = none ∧ Dependency.find? line = none := by
  intro line
  refine ⟨?_, Dependency.find?_eq_none_of_not_mem ?_⟩
  · have hfirst : line = indent ++ 'i' :: ("d".toList ++ (Style.ofCalls calls).opening ::
        ((Style.ofCalls calls).quote id ++
          ((Style.ofCalls calls).closing ++ clause (Style.ofCalls calls) version))) := by
      simp [line, written]
    rw [hfirst]
    refine Property.find?_eq_none_of_word isBlank_of_mem_indent rfl (List.all_eq_true.1 rfl) ?_ ?_
    · cases calls <;> rfl
    · cases calls
      · exact show some '\'' ≠ some '=' by decide
      · exact show some '(' ≠ some '=' by decide
  · have hindent : ':' ∉ indent := by decide
    rw [List.mem_append]
    exact not_or.2 ⟨hindent, not_mem_written calls (by decide) hcolon⟩

end

end Plugin

/-! ## Repositories -/

namespace Repository

theorem contains_of_isAddress {url : Text} (h : isAddress url = true) :
    contains "://".toList url = true := by
  obtain ⟨scheme, hscheme, h⟩ := List.any_eq_true.1 h
  split at h
  · next c r e =>
    rw [eq_append_of_after? e]
    simp only [schemes, List.mem_cons, List.not_mem_nil, or_false] at hscheme
    rcases hscheme with rfl | rfl | rfl
    · exact contains_iff.2 ⟨"http".toList, c :: r, rfl⟩
    · exact contains_iff.2 ⟨"https".toList, c :: r, rfl⟩
    · exact contains_iff.2 ⟨"file".toList, c :: r, rfl⟩
  · cases h

theorem startsWith_of_readWellKnown? {before : Option Char} {s : Text} {a : Repository × Text}
    (h : readWellKnown? before s = some a) :
    ∃ word ∈ wellKnown.map (· ++ ['(']), startsWith word s = true := by
  unfold readWellKnown? at h
  split at h
  · cases h
  · obtain ⟨⟨name, rest⟩, hname, -⟩ := Option.bind_eq_some_iff.1 h
    obtain ⟨name', hmem, h⟩ := List.exists_of_findSome?_eq_some hname
    obtain ⟨rest', h, -⟩ := Option.map_eq_some_iff.1 h
    obtain ⟨t, ht, h⟩ := Option.bind_eq_some_iff.1 h
    refine ⟨name' ++ ['('], List.mem_map_of_mem hmem, ?_⟩
    rw [eq_append_of_after? ht]
    unfold readEmptyCall? at h
    split at h
    · next r => exact startsWith_iff.2 ⟨r, by simp⟩
    · cases h

theorem startsWith_of_readUrl? {before : Option Char} {s : Text} {a : Repository × Text}
    (h : readUrl? before s = some a) : startsWith "url".toList s = true := by
  unfold readUrl? at h
  split at h
  · cases h
  · obtain ⟨r, hr, -⟩ := Option.bind_eq_some_iff.1 h
    exact Option.isSome_of_mem hr

/-- What stands between `url` and the address. -/
def addressOpening (calls : Bool) : Text := if calls then " = uri(".toList else [' ']

/-- What a repository with an address is declared by. -/
def written (calls : Bool) (url : Text) : Text :=
  "url".toList ++ addressOpening calls ++ (Style.ofCalls calls).quote url ++
    (Style.ofCalls calls).closing

/-- What stands in front of the declaration on its line. -/
def front : Text := indent ++ "maven \x7b ".toList

/-- What stands behind the declaration on its line. -/
def back : Text := " \x7d".toList

variable {calls : Bool} {url : Text}

theorem line_written (calls : Bool) (url : Text) : front ++ written calls url ++ back =
    (front ++ "url".toList ++ addressOpening calls) ++
      (Style.ofCalls calls).mark :: (url ++ (Style.ofCalls calls).mark ::
        ((Style.ofCalls calls).closing ++ back)) := by
  simp [written, Style.quote]

theorem readUrl?_append {before : Option Char} (hbefore : startsWord before = true) (r : Text) :
    readUrl? before ("url".toList ++ r) =
      (readQuoted? (skipUriOpening (skipEquals (trimLeft r)))).bind fun (_, url, rest) =>
        if isAddress url then some (⟨nameOfUrl url, "maven".toList, url⟩, skipCallClosing rest)
        else none := by
  rw [readUrl?, hbefore]
  rfl

theorem readUrl?_written {before : Option Char} (hbefore : startsWord before = true)
    (haddress : isAddress url = true) (hplain : ∀ c ∈ url, isQuote c = false) :
    readUrl? before (written calls url ++ back) =
      some (⟨nameOfUrl url, "maven".toList, url⟩, back) := by
  have hskip (s : Text) : skipUriOpening (skipEquals (trimLeft
      (addressOpening calls ++ (Style.ofCalls calls).mark :: s))) =
        (Style.ofCalls calls).mark :: s := by
    cases calls <;> rfl
  have hclosing : skipCallClosing ((Style.ofCalls calls).closing ++ back) = back := by
    cases calls <;> rfl
  have hwritten : written calls url ++ back = "url".toList ++ (addressOpening calls ++
      (Style.ofCalls calls).mark :: (url ++ (Style.ofCalls calls).mark ::
        ((Style.ofCalls calls).closing ++ back))) := by
    simp [written, Style.quote]
  rw [hwritten, readUrl?_append hbefore, hskip,
    readQuoted?_append (Style.isQuote_mark calls) hplain, Option.bind_some]
  dsimp only
  rw [if_pos haddress, hclosing]

/-- A word with an opening parenthesis stands on the line only in front of the address. -/
theorem contains_written {word : Text} (hparen : '(' ∉ url) (hword : '(' ∈ word)
    (hmark : (Style.ofCalls calls).mark ∉ word)
    (hfront : contains word (front ++ "url".toList ++ addressOpening calls) = false) :
    contains word (front ++ written calls url ++ back) = false := by
  have hrest :
      '(' ∉ url ++ (Style.ofCalls calls).mark :: ((Style.ofCalls calls).closing ++ back) := by
    have hback : '(' ∉ (Style.ofCalls calls).mark :: ((Style.ofCalls calls).closing ++ back) := by
      cases calls <;> decide
    rw [List.mem_append]
    exact not_or.2 ⟨hparen, hback⟩
  rw [line_written, contains_append_stop hmark, hfront, Bool.false_or]
  exact contains_eq_false_of_not_mem hword hrest

theorem find?_written (calls : Bool) (haddress : isAddress url = true)
    (hplain : ∀ c ∈ url, isQuote c = false) (hparen : '(' ∉ url) :
    find? (front ++ written calls url ++ back) =
      some ⟨front.length, (front ++ written calls url).length,
        ⟨nameOfUrl url, "maven".toList, url⟩⟩ := by
  have hwellKnown : searchIn readWellKnown? (front ++ written calls url ++ back) = none := by
    refine search_eq_none_of_contains _ (fun _ s a h => startsWith_of_readWellKnown? h) ?_ none 0
    intro word hword
    have hfits : ∀ word ∈ wellKnown.map (· ++ ['(']), '(' ∈ word ∧
        (Style.ofCalls calls).mark ∉ word ∧
        contains word (front ++ "url".toList ++ addressOpening calls) = false := by
      cases calls <;> decide
    obtain ⟨hopen, hmark, hfront⟩ := hfits word hword
    exact contains_written hparen hopen hmark hfront
  have haddressed : searchIn readUrl? (front ++ written calls url ++ back) =
      some ⟨front.length, (front ++ written calls url).length,
        ⟨nameOfUrl url, "maven".toList, url⟩⟩ := by
    refine searchIn_of_read ["url".toList] (fun _ s a h => ?_) ?_ ?_ ?_
    · exact ⟨_, List.mem_singleton_self _, startsWith_of_readUrl? h⟩
    · decide
    · exact List.cons_ne_nil _ _
    · exact readUrl?_written rfl haddress hplain
  rw [find?, hwellKnown, haddressed]
  rfl

theorem others_written (calls : Bool) (haddress : isAddress url = true)
    (hplain : ∀ c ∈ url, isQuote c = false) (hparen : '(' ∉ url) :
    let line := front ++ written calls url ++ back
    Property.find? line = none ∧ Dependency.find? line = none ∧ Plugin.find? line = none := by
  intro line
  have hquotes : ∀ c ∈ (Style.ofCalls calls).closing ++ back, isQuote c = false :=
    isQuote_eq_false_of_any (by cases calls <;> rfl)
  have hfront : ∀ c ∈ front ++ "url".toList ++ addressOpening calls, isQuote c = false :=
    isQuote_eq_false_of_any (by cases calls <;> rfl)
  have hmark := Style.isQuote_mark calls
  refine ⟨?_, ?_, ?_⟩
  · have hfirst : line = indent ++ 'm' :: ("aven".toList ++ ' ' :: ("\x7b ".toList ++
        written calls url ++ back)) := by
      simp [line, front]
    rw [hfirst]
    exact Property.find?_eq_none_of_word isBlank_of_mem_indent rfl (List.all_eq_true.1 rfl) rfl
      (show some '\x7b' ≠ some '=' by decide)
  · have hcoordinate : Coordinate.find? line = none := by
      rw [show line = _ from line_written calls url]
      exact Coordinate.find?_eq_none_of_address hmark hfront hplain hquotes
        (contains_of_isAddress haddress)
    refine Dependency.find?_eq_none_of_contains hcoordinate (contains_written hparen ?_ ?_ ?_)
    · decide
    · cases calls <;> decide
    · cases calls <;> decide
  · have hone : (url ++ (Style.ofCalls calls).mark ::
        ((Style.ofCalls calls).closing ++ back)).countP isQuote ≤ 1 := by
      have hurl : url.countP isQuote = 0 := List.countP_eq_zero.2 (by simpa using hplain)
      have hback : ((Style.ofCalls calls).closing ++ back).countP isQuote = 0 :=
        List.countP_eq_zero.2 (by simpa using hquotes)
      rw [List.countP_append, List.countP_cons, hurl, hback]
      split <;> omega
    rw [show line = _ from line_written calls url]
    refine Plugin.find?_eq_none_of_quoted hmark ⟨?_, ?_⟩ hone
    · cases calls <;> decide
    · cases calls <;> decide

end Repository

end BuildScript
