import BuildScript.Declaration
/-!
# Declarations have a text

A reader that succeeds has taken at least one character, since each begins with a word, a mark or a
key. What a search finds therefore covers at least one character, and so does every declaration
found on a line.

Results:
* `search_start_lt_stop`: a reader that takes something is found at a place that is not empty.
* `Declaration.bounds_of_find?`: a declaration covers a part of its line that is not empty.
-/
namespace BuildScript

namespace Text

/-! ## Pieces -/

theorem length_trimLeft_le (s : Text) : (trimLeft s).length ≤ s.length :=
  (List.dropWhile_suffix isBlank).length_le

theorem length_of_after? {word s r : Text} (h : after? word s = some r) :
    s.length = word.length + r.length := by
  rw [eq_append_of_after? h, List.length_append]

theorem skipCallOpening_suffix (s : Text) : skipCallOpening s <:+ s := by
  have hs : trimLeft s <:+ s := List.dropWhile_suffix isBlank
  unfold skipCallOpening
  split
  · next r e =>
    rw [e] at hs
    exact ((List.dropWhile_suffix isBlank).trans (List.suffix_cons '(' r)).trans hs
  · exact hs

theorem length_skipCallOpening_le (s : Text) : (skipCallOpening s).length ≤ s.length :=
  (skipCallOpening_suffix s).length_le

theorem length_skipCallClosing_le (s : Text) : (skipCallClosing s).length ≤ s.length := by
  have hs := length_trimLeft_le s
  unfold skipCallClosing
  split
  · next r e =>
    rw [e, List.length_cons] at hs
    omega
  · exact Nat.le_refl _

theorem length_of_readQuoted? {s body rest : Text} {mark : Char}
    (h : readQuoted? s = some (mark, body, rest)) : rest.length < s.length := by
  cases s with
  | nil => cases h
  | cons c s =>
    have hs : (s.dropWhile (!isQuote ·)).length ≤ s.length := (List.dropWhile_suffix _).length_le
    rw [readQuoted?] at h
    split at h
    · split at h
      · cases h
      · next d rest' e =>
        rw [e, List.length_cons] at hs
        split at h
        · cases h
          rw [List.length_cons]
          omega
        · cases h
    · cases h

theorem length_of_readArgument? {s body rest : Text} {mark : Char}
    (h : readArgument? s = some (mark, body, rest)) : rest.length < s.length :=
  Nat.lt_of_lt_of_le (length_of_readQuoted? h) (length_skipCallOpening_le s)

theorem search_spec {α : Type} {read : Option Char → Text → Option (α × Text)}
    {before : Option Char} {offset : Nat} {s : Text} {found : Found α}
    (h : search read before offset s = some found) : ∃ w t b rest, s = w ++ t ∧
      read b t = some (found.value, rest) ∧ found.start = offset + w.length ∧
      found.stop = offset + w.length + (t.length - rest.length) := by
  induction s generalizing before offset with
  | nil => cases h
  | cons c s ih =>
    rw [search] at h
    split at h
    · next value rest hr =>
      cases h
      exact ⟨[], c :: s, before, rest, rfl, hr, rfl, rfl⟩
    · obtain ⟨w, t, b, rest, rfl, hr, hstart, hstop⟩ := ih h
      refine ⟨c :: w, t, b, rest, rfl, hr, ?_, ?_⟩ <;> simp only [List.length_cons] <;> omega

/-- A reader that takes something is found at a place that is not empty. -/
theorem search_start_lt_stop {α : Type} {read : Option Char → Text → Option (α × Text)}
    (hread : ∀ before s v rest, read before s = some (v, rest) → rest.length < s.length)
    {before : Option Char} {offset : Nat} {s : Text} {found : Found α}
    (h : search read before offset s = some found) : found.start < found.stop := by
  induction s generalizing before offset with
  | nil => cases h
  | cons c s ih =>
    rw [search] at h
    split at h
    · next v rest hr =>
      have := hread _ _ _ _ hr
      cases h
      rw [List.length_cons] at this
      dsimp only
      omega
    · exact ih h

theorem searchIn_bounds {α : Type} {read : Option Char → Text → Option (α × Text)}
    (hread : ∀ before s v rest, read before s = some (v, rest) → rest.length < s.length)
    {s : Text} {found : Found α} (h : searchIn read s = some found) :
    found.start < found.stop ∧ found.stop ≤ s.length := by
  have := (search_bounds h).2.2
  exact ⟨search_start_lt_stop hread h, by omega⟩

end Text

/-! ## Plugins -/

namespace Plugin

theorem length_of_readId? {before : Option Char} {s rest : Text} {v : Char × Text}
    (h : readId? before s = some (v, rest)) : rest.length < s.length := by
  unfold readId? at h
  split at h
  · cases h
  · obtain ⟨r, hr, h⟩ := Option.bind_eq_some_iff.1 h
    obtain ⟨⟨mark, name, rest'⟩, hq, h⟩ := Option.bind_eq_some_iff.1 h
    have hr := Text.length_of_after? hr
    have hq := Text.length_of_readArgument? hq
    dsimp only at h
    split at h
    · cases h
    · cases h
      omega

theorem length_of_readIdCall? {before : Option Char} {s rest : Text} {v : Char × Text}
    (h : readIdCall? before s = some (v, rest)) : rest.length < s.length := by
  obtain ⟨⟨v', rest'⟩, hid, h⟩ := Option.map_eq_some_iff.1 h
  cases h
  exact Nat.lt_of_le_of_lt (Text.length_skipCallClosing_le rest') (length_of_readId? hid)

theorem length_of_readVersion? {s version rest : Text} (h : readVersion? s = some (version, rest)) :
    rest.length < s.length := by
  cases s with
  | nil => cases h
  | cons c s =>
    rw [readVersion?] at h
    split at h
    · obtain ⟨r, hr, h⟩ := Option.bind_eq_some_iff.1 h
      obtain ⟨⟨mark, version', rest'⟩, hq, h⟩ := Option.bind_eq_some_iff.1 h
      cases h
      have hs := Text.length_trimLeft_le s
      have hr := Text.length_of_after? hr
      have hq := Text.length_of_readArgument? hq
      have hc := Text.length_skipCallClosing_le rest'
      rw [List.length_cons]
      omega
    · cases h

theorem length_of_readDeclaration? {before : Option Char} {s rest : Text} {p : Plugin}
    (h : readDeclaration? before s = some (p, rest)) : rest.length < s.length := by
  obtain ⟨⟨⟨mark, name⟩, rest'⟩, hid, h⟩ := Option.bind_eq_some_iff.1 h
  have hid := length_of_readIdCall? hid
  dsimp only at h
  split at h
  · next version rest'' hv =>
    have hv := length_of_readVersion? hv
    cases h
    omega
  · cases h
    exact hid

theorem length_of_readApplication? {before : Option Char} {s rest : Text} {p : Plugin}
    (h : readApplication? before s = some (p, rest)) : rest.length < s.length := by
  unfold readApplication? at h
  split at h
  · cases h
  · obtain ⟨r, hr, h⟩ := Option.bind_eq_some_iff.1 h
    have hr := Text.length_of_after? hr
    cases r with
    | nil => cases h
    | cons c r =>
      dsimp only at h
      split at h
      · cases h
      · obtain ⟨t, ht, h⟩ := Option.bind_eq_some_iff.1 h
        have hs := Text.length_trimLeft_le r
        have ht := Text.length_of_after? ht
        have hl := Text.length_trimLeft_le t
        split at h
        · next u e =>
          obtain ⟨⟨mark, name, rest'⟩, hq, h⟩ := Option.bind_eq_some_iff.1 h
          have hq := Text.length_of_readQuoted? hq
          have hu := Text.length_trimLeft_le u
          rw [e, List.length_cons] at hl
          rw [List.length_cons] at hr
          dsimp only at h
          split at h
          · cases h
          · cases h
            omega
        · cases h

theorem bounds_of_find? {line : Text} {found : Found Plugin} (h : find? line = some found) :
    found.start < found.stop ∧ found.stop ≤ line.length := by
  rcases Option.or_eq_some_iff.1 h with h | ⟨-, h⟩
  · exact Text.searchIn_bounds (fun _ _ _ _ => length_of_readDeclaration?) h
  · exact Text.searchIn_bounds (fun _ _ _ _ => length_of_readApplication?) h

end Plugin

/-! ## Repositories -/

namespace Repository

theorem length_of_readEmptyCall? {s rest : Text} (h : readEmptyCall? s = some rest) :
    rest.length < s.length := by
  unfold readEmptyCall? at h
  split at h
  · next r =>
    have hr := Text.length_trimLeft_le r
    split at h
    · next rest' e =>
      cases h
      rw [e, List.length_cons] at hr
      rw [List.length_cons]
      omega
    · cases h
  · cases h

theorem length_of_readWellKnown? {before : Option Char} {s rest : Text} {r : Repository}
    (h : readWellKnown? before s = some (r, rest)) : rest.length < s.length := by
  unfold readWellKnown? at h
  split at h
  · cases h
  · obtain ⟨⟨name, rest'⟩, hname, h⟩ := Option.bind_eq_some_iff.1 h
    cases h
    obtain ⟨name', -, h⟩ := List.exists_of_findSome?_eq_some hname
    obtain ⟨rest'', h, e⟩ := Option.map_eq_some_iff.1 h
    cases e
    obtain ⟨t, ht, h⟩ := Option.bind_eq_some_iff.1 h
    have ht := Text.length_of_after? ht
    have h := length_of_readEmptyCall? h
    omega

theorem length_skipEquals_le (s : Text) : (skipEquals s).length ≤ s.length := by
  unfold skipEquals
  split
  · next r =>
    have hr := Text.length_trimLeft_le r
    rw [List.length_cons]
    omega
  · exact Nat.le_refl _

theorem length_skipUriOpening_le (s : Text) : (skipUriOpening s).length ≤ s.length := by
  unfold skipUriOpening
  split
  · next r e =>
    have hr := Text.length_trimLeft_le r
    have e := Text.length_of_after? e
    omega
  · exact Nat.le_refl _

theorem length_of_readUrl? {before : Option Char} {s rest : Text} {r : Repository}
    (h : readUrl? before s = some (r, rest)) : rest.length < s.length := by
  unfold readUrl? at h
  split at h
  · cases h
  · obtain ⟨t, ht, h⟩ := Option.bind_eq_some_iff.1 h
    obtain ⟨⟨mark, url, rest'⟩, hq, h⟩ := Option.bind_eq_some_iff.1 h
    have ht := Text.length_of_after? ht
    have hl := Text.length_trimLeft_le t
    have he := length_skipEquals_le (Text.trimLeft t)
    have hu := length_skipUriOpening_le (skipEquals (Text.trimLeft t))
    have hq := Text.length_of_readQuoted? hq
    have hc := Text.length_skipCallClosing_le rest'
    dsimp only at h
    split at h
    · cases h
      omega
    · cases h

theorem bounds_of_find? {line : Text} {found : Found Repository} (h : find? line = some found) :
    found.start < found.stop ∧ found.stop ≤ line.length := by
  rcases Option.or_eq_some_iff.1 h with h | ⟨-, h⟩
  · exact Text.searchIn_bounds (fun _ _ _ _ => length_of_readWellKnown?) h
  · exact Text.searchIn_bounds (fun _ _ _ _ => length_of_readUrl?) h

end Repository

/-! ## Tasks -/

namespace Task

theorem length_of_readMark? {mark : Char} {s rest : Text} (h : readMark? mark s = some rest) :
    rest.length < s.length := by
  have hs := Text.length_trimLeft_le s
  unfold readMark? at h
  split at h
  · next c r e =>
    rw [e, List.length_cons] at hs
    split at h
    · cases h
      omega
    · cases h
  · cases h

theorem length_of_readTypeClause? {s type rest : Text} (h : readTypeClause? s = some (type, rest)) :
    rest.length < s.length := by
  obtain ⟨r₁, h₁, h⟩ := Option.bind_eq_some_iff.1 h
  obtain ⟨r₂, h₂, h⟩ := Option.bind_eq_some_iff.1 h
  obtain ⟨r₃, h₃, h⟩ := Option.bind_eq_some_iff.1 h
  obtain ⟨r₄, h₄, h⟩ := Option.bind_eq_some_iff.1 h
  have h₁ := length_of_readMark? h₁
  have hl₁ := Text.length_trimLeft_le r₁
  have h₂ := Text.length_of_after? h₂
  have h₃ := length_of_readMark? h₃
  have hl₃ := Text.length_trimLeft_le r₃
  have hd : ((Text.trimLeft r₃).dropWhile Text.isDotted).length ≤ (Text.trimLeft r₃).length :=
    (List.dropWhile_suffix _).length_le
  have h₄ := length_of_readMark? h₄
  split at h
  · cases h
  · cases h
    omega

theorem length_of_readKeyword? {before : Option Char} {s rest : Text} {t : Task}
    (h : readKeyword? before s = some (t, rest)) : rest.length < s.length := by
  unfold readKeyword? at h
  split at h
  · cases h
  · obtain ⟨r, hr, h⟩ := Option.bind_eq_some_iff.1 h
    have hr := Text.length_of_after? hr
    cases r with
    | nil => cases h
    | cons blank r =>
      have hl := Text.length_trimLeft_le r
      rw [List.length_cons] at hr
      dsimp only at h
      split at h
      · cases h
      · split at h
        · cases h
        · next c u e =>
          have hd : (u.dropWhile Text.isWord).length ≤ u.length :=
            (List.dropWhile_suffix _).length_le
          rw [e, List.length_cons] at hl
          split at h
          · cases h
          · split at h
            · next type rest' htype =>
              have htype := length_of_readTypeClause? htype
              cases h
              omega
            · cases h
              omega

theorem length_readTypeArgument_le (s : Text) : (readTypeArgument s).2.length ≤ s.length := by
  unfold readTypeArgument
  split
  · next r =>
    have hd : (r.dropWhile Text.isDotted).length ≤ r.length := (List.dropWhile_suffix _).length_le
    split
    · next c cs rest _ e =>
      rw [e, List.length_cons] at hd
      rw [List.length_cons]
      dsimp only
      omega
    · exact Nat.le_refl _
  · exact Nat.le_refl _

theorem length_skipClassSuffix_le (s : Text) : (skipClassSuffix s).length ≤ s.length := by
  unfold skipClassSuffix
  split
  · next r e =>
    have e := Text.length_of_after? e
    cases hj : Text.after? ".java".toList r with
    | none =>
      rw [Option.getD_none]
      omega
    | some r' =>
      have hj := Text.length_of_after? hj
      rw [Option.getD_some]
      omega
  · exact Nat.le_refl _

theorem length_of_readClassAndClosing? {s name rest : Text}
    (h : readClassAndClosing? s = some (name, rest)) : rest.length < s.length := by
  unfold readClassAndClosing? at h
  split at h
  · obtain ⟨rest', hc, h⟩ := Option.map_eq_some_iff.1 h
    cases h
    exact length_of_readMark? hc
  · next r hr =>
    have hr := length_of_readMark? hr
    have hl := Text.length_trimLeft_le r
    split at h
    · cases h
    · next c u e =>
      rw [e, List.length_cons] at hl
      split at h
      · obtain ⟨rest', hc, h⟩ := Option.map_eq_some_iff.1 h
        cases h
        have hd : (u.dropWhile Text.isDotted).length ≤ u.length :=
          (List.dropWhile_suffix _).length_le
        have hs := length_skipClassSuffix_le (u.dropWhile Text.isDotted)
        have hc := length_of_readMark? hc
        omega
      · cases h

theorem length_of_readCallTail? {s rest : Text} {t : Task}
    (h : readCallTail? s = some (t, rest)) : rest.length < s.length := by
  have ha := length_readTypeArgument_le s
  unfold readCallTail? at h
  generalize readTypeArgument s = argument at h ha
  obtain ⟨r₁, h₁, h⟩ := Option.bind_eq_some_iff.1 h
  obtain ⟨⟨mark, name, r₂⟩, h₂, h⟩ := Option.bind_eq_some_iff.1 h
  have h₁ := Text.length_of_after? h₁
  have hl := Text.length_trimLeft_le r₁
  have h₂ := Text.length_of_readQuoted? h₂
  dsimp only at h
  split at h
  · cases h
  · obtain ⟨⟨className, rest'⟩, hc, h⟩ := Option.bind_eq_some_iff.1 h
    have hc := length_of_readClassAndClosing? hc
    cases h
    dsimp only
    omega

theorem length_of_readCall? {before : Option Char} {s rest : Text} {t : Task}
    (h : readCall? before s = some (t, rest)) : rest.length < s.length := by
  unfold readCall? at h
  split at h
  · obtain ⟨function, -, h⟩ := List.exists_of_findSome?_eq_some h
    obtain ⟨r, hr, h⟩ := Option.bind_eq_some_iff.1 h
    have hr := Text.length_of_after? hr
    have h := length_of_readCallTail? h
    omega
  · cases h

theorem bounds_of_find? {line : Text} {found : Found Task} (h : find? line = some found) :
    found.start < found.stop ∧ found.stop ≤ line.length := by
  rcases Option.or_eq_some_iff.1 h with h | ⟨-, h⟩
  · split at h
    · exact Text.searchIn_bounds (fun _ _ _ _ => length_of_readKeyword?) h
    · cases h
  · exact Text.searchIn_bounds (fun _ _ _ _ => length_of_readCall?) h

end Task

/-! ## Dependencies -/

namespace Coordinate

theorem length_of_readBody? {s body rest : Text} (h : readBody? s = some (body, rest)) :
    rest.length < s.length := by
  cases s with
  | nil => cases h
  | cons mark s =>
    have hs : (s.dropWhile isGroupChar).length ≤ s.length := (List.dropWhile_suffix _).length_le
    rw [readBody?] at h
    split at h
    · split at h
      · next c cs t _ e =>
        have ht : (t.dropWhile isNameChar).length ≤ t.length :=
          (List.dropWhile_suffix _).length_le
        rw [e, List.length_cons] at hs
        split at h
        · next d ds c' rest' _ e' =>
          rw [e', List.length_cons] at ht
          split at h
          · cases h
            rw [List.length_cons]
            omega
          · cases h
        · cases h
      · cases h
    · cases h

theorem findFrom?_bounds {skip offset : Nat} {s : Text} {found : Found Coordinate}
    (h : findFrom? skip offset s = some found) :
    found.start < found.stop ∧ found.stop ≤ offset + s.length := by
  fun_induction findFrom? skip offset s with
  | case1 => cases h
  | case2 offset k c s ih =>
    have := ih h
    rw [List.length_cons]
    omega
  | case3 offset c s hr ih =>
    have := ih h
    rw [List.length_cons]
    omega
  | case4 offset c s body rest hr coordinate hc =>
    have hr := length_of_readBody? hr
    cases h
    rw [List.length_cons] at hr ⊢
    dsimp only
    omega
  | case5 offset c s body rest hr hc ih =>
    have := ih h
    rw [List.length_cons]
    omega

end Coordinate

namespace Dependency

theorem skipPathLabel_suffix (s : Text) : skipPathLabel s <:+ s := by
  unfold skipPathLabel
  split
  · next r e =>
    obtain ⟨t, ht, e⟩ := Option.map_eq_some_iff.1 e
    have htrim : Text.trimLeft t <:+ t := List.dropWhile_suffix Text.isBlank
    rw [e] at htrim
    rw [Text.eq_append_of_after? ht]
    exact (((List.dropWhile_suffix Text.isBlank).trans (List.suffix_cons ':' r)).trans htrim).trans
      (List.suffix_append _ t)
  · exact List.suffix_refl s

theorem length_skipPathLabel_le (s : Text) : (skipPathLabel s).length ≤ s.length :=
  (skipPathLabel_suffix s).length_le

/-- A reference to another project begins with the word for it, and more is read. -/
theorem readReference?_spec {s name rest : Text} (h : readReference? s = some (name, rest)) :
    ∃ r, Text.after? "project(".toList s = some r ∧ rest.length < r.length := by
  obtain ⟨r, hr, h⟩ := Option.bind_eq_some_iff.1 h
  refine ⟨r, hr, ?_⟩
  have hl := Text.length_trimLeft_le r
  have hp := length_skipPathLabel_le (Text.trimLeft r)
  split at h
  · next mark t e =>
    have ht : (t.dropWhile (!Text.isQuote ·)).length ≤ t.length :=
      (List.dropWhile_suffix _).length_le
    rw [e, List.length_cons, List.length_cons] at hp
    split at h
    · split at h
      · next c u e' =>
        have hu := Text.length_trimLeft_le u
        rw [e', List.length_cons] at ht
        split at h
        · next rest' e'' =>
          cases h
          rw [e'', List.length_cons] at hu
          omega
        · cases h
      · cases h
    · cases h
  · cases h

theorem length_of_readReference? {s name rest : Text} (h : readReference? s = some (name, rest)) :
    rest.length < s.length := by
  obtain ⟨r, hr, hlt⟩ := readReference?_spec h
  have hr := Text.length_of_after? hr
  omega

theorem bounds_of_find? {line : Text} {found : Found Dependency} (h : find? line = some found) :
    found.start < found.stop ∧ found.stop ≤ line.length := by
  unfold find? at h
  split at h
  · next coordinate hc =>
    cases h
    have := Coordinate.findFrom?_bounds hc
    rw [Nat.zero_add] at this
    exact this
  · split at h
    · next name hr =>
      cases h
      exact Text.searchIn_bounds (fun _ _ _ _ => length_of_readReference?) hr
    · cases h

end Dependency

/-! ## Properties -/

namespace Text

theorem prefix_trimRight (s : Text) : trimRight s <+: s := by
  rw [← List.reverse_suffix, trimRight, dropTrailing, List.reverse_reverse]
  exact List.dropWhile_suffix isBlank

theorem prefix_beforeComment (line : Text) : beforeComment line <+: line := by
  unfold beforeComment
  split
  · next i _ => exact List.take_prefix i line
  · exact List.prefix_refl line

end Text

namespace Property

theorem length_of_readAssignment? {s key rest : Text} (h : readAssignment? s = some (key, rest)) :
    rest.length < s.length := by
  cases s with
  | nil => cases h
  | cons c s =>
    have hd : (s.dropWhile Text.isDotted).length ≤ s.length := (List.dropWhile_suffix _).length_le
    have hl := Text.length_trimLeft_le (s.dropWhile Text.isDotted)
    rw [readAssignment?] at h
    split at h
    · split at h
      · cases h
      · next r _ e =>
        have hr := Text.length_trimLeft_le r
        cases h
        rw [e, List.length_cons] at hl
        rw [List.length_cons]
        omega
      · cases h
    · cases h

theorem prefix_of_valueOf? {rest value : Text} (h : valueOf? rest = some value) :
    value ≠ [] ∧ value <+: rest := by
  unfold valueOf? at h
  dsimp only at h
  split at h
  · cases h
  · split at h
    · cases h
    · next hne =>
      cases h
      refine ⟨hne, (Text.prefix_trimRight _).trans ?_⟩
      exact (Text.prefix_beforeComment _).trans (Text.prefix_trimRight rest)

theorem bounds_of_find? {line : Text} {found : Found Property} (h : find? line = some found) :
    found.start < found.stop ∧ found.stop ≤ line.length := by
  obtain ⟨⟨key, rest⟩, hkey, h⟩ := Option.bind_eq_some_iff.1 h
  obtain ⟨value, hvalue, h⟩ := Option.bind_eq_some_iff.1 h
  have hl := Text.length_trimLeft_le line
  have hkey := length_of_readAssignment? hkey
  obtain ⟨hne, hfront⟩ := prefix_of_valueOf? hvalue
  have hpos := List.length_pos_iff.2 hne
  have hlen := hfront.length_le
  split at h
  · cases h
  · cases h
    dsimp only
    omega

end Property

/-- A declaration covers a part of its line that is not empty. -/
theorem Declaration.bounds_of_find? {kind : Kind} {line : Text} {found : Found Declaration}
    (h : find? kind line = some found) : found.start < found.stop ∧ found.stop ≤ line.length := by
  cases kind with
  | property =>
    obtain ⟨f, hf, rfl⟩ := Option.map_eq_some_iff.1 h
    exact Property.bounds_of_find? hf
  | dependency =>
    obtain ⟨f, hf, rfl⟩ := Option.map_eq_some_iff.1 h
    exact Dependency.bounds_of_find? hf
  | plugin =>
    obtain ⟨f, hf, rfl⟩ := Option.map_eq_some_iff.1 h
    exact Plugin.bounds_of_find? hf
  | repository =>
    obtain ⟨f, hf, rfl⟩ := Option.map_eq_some_iff.1 h
    exact Repository.bounds_of_find? hf
  | task =>
    obtain ⟨f, hf, rfl⟩ := Option.map_eq_some_iff.1 h
    exact Task.bounds_of_find? hf

theorem Recognizer.bounds_of_firstSighting? {kinds : List Kind} {line : Text} {s : Sighting}
    (h : firstSighting? (kinds.map ofKind) line = some s) :
    ∃ i j : Nat, s.start = i ∧ s.stop = j ∧ i < j ∧ j ≤ line.length ∧
      s.text = (line.take j).drop i := by
  obtain ⟨r, hr, h⟩ := List.exists_of_findSome?_eq_some h
  obtain ⟨kind, -, rfl⟩ := List.mem_map.1 hr
  obtain ⟨found, hf, rfl⟩ := Option.map_eq_some_iff.1 h
  obtain ⟨hlt, hle⟩ := Declaration.bounds_of_find? hf
  exact ⟨found.start, found.stop, rfl, rfl, hlt, hle, rfl⟩

end BuildScript
