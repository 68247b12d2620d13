import BuildScript.Session.Update
import BuildScript.Proofs.Text.Scan
import BuildScript.Proofs.Declaration.Bounds
/-!
# Coordinates and their versions

A coordinate is found as the first quoted body of a line that reads as one. What stands behind a
quotation mark cannot change how the text in front of it is passed over, so a coordinate that is
rewritten between its marks is found at the same place, provided it still reads as one.

Results:
* `findFrom?_spec`: what is found stands between two equal marks.
* `findFrom?_append_stop`: a search that reaches a mark reaches it whatever stands behind.
* `Dependency.find?_setVersion`: a dependency whose version is set is found with that version.
-/
namespace BuildScript

namespace Coordinate

open Text

/-! ## Bodies -/

theorem intercalate_cons_eq (sep : Char) (f : Text) (fs : List Text) :
    List.intercalate [sep] (f :: fs) = f ++ fs.flatMap fun g => sep :: g := by
  induction fs generalizing f with
  | nil => simp [List.intercalate_singleton]
  | cons g gs ih =>
    rw [intercalate_cons_cons, ih]
    simp

/-- A body names a coordinate when its first two fields are not empty and it is no address. -/
theorem ofBody?_eq_some_iff {body : Text} {c : Coordinate} : ofBody? body = some c ↔
    ∃ rest, fields ':' body = c.group :: c.name :: rest ∧ c.group ≠ [] ∧ c.name ≠ [] ∧
      c.version = rest.headD [] ∧ ∀ f ∈ c.name :: rest, startsWith ['/', '/'] f = false := by
  have haddress : contains "://".toList body = true ↔
      ∃ f ∈ (fields ':' body).tail, startsWith ['/', '/'] f = true := contains_scheme body
  have hslashes : ∀ fs : List Text, (¬ ∃ f ∈ fs, startsWith ['/', '/'] f = true) ↔
      ∀ f ∈ fs, startsWith ['/', '/'] f = false := by
    intro fs
    simp
  unfold ofBody? ofText?
  constructor
  · intro h
    split at h
    · cases h
    · next hno =>
      rw [haddress] at hno
      split at h
      · next group name rest e =>
        split at h
        · cases h
        · next hne =>
          cases h
          rw [not_or] at hne
          rw [e, hslashes] at hno
          exact ⟨rest, e, hne.1, hne.2, rfl, hno⟩
      · cases h
  · rintro ⟨rest, e, hgroup, hname, hversion, hno⟩
    obtain ⟨group, name, version⟩ := c
    obtain rfl : version = rest.headD [] := hversion
    rw [if_neg, e]
    · simp [hgroup, hname]
    · rw [haddress, e, hslashes]
      exact hno

theorem isNameChar_of_isGroupChar {c : Char} (h : isGroupChar c = true) : isNameChar c = true :=
  (Bool.and_eq_true_iff.1 h).1

theorem not_isNameChar_of_isQuote {c : Char} (h : isQuote c = true) : isNameChar c = false := by
  simp [isNameChar, h]

theorem not_isGroupChar_of_isQuote {c : Char} (h : isQuote c = true) : isGroupChar c = false := by
  simp [isGroupChar, h]

/-- A body is read when a group, a colon and a name stand between two equal marks. -/
theorem readBody?_eq_some_iff {mark : Char} {s body rest : Text} :
    readBody? (mark :: s) = some (body, rest) ↔ isQuote mark = true ∧ ∃ t,
      s.dropWhile isGroupChar = ':' :: t ∧ t.dropWhile isNameChar = mark :: rest ∧
      s.takeWhile isGroupChar ≠ [] ∧ t.takeWhile isNameChar ≠ [] ∧
      body = s.takeWhile isGroupChar ++ ':' :: t.takeWhile isNameChar := by
  rw [readBody?]
  constructor
  · intro h
    split at h
    · next hmark =>
      refine ⟨hmark, ?_⟩
      split at h
      · next t hg e =>
        split at h
        · next d ds c rest' hd e' =>
          split at h
          · next hc =>
            cases h
            exact ⟨t, e, by rw [e', hc], by rw [hg]; exact List.cons_ne_nil _ _,
              by rw [hd]; exact List.cons_ne_nil _ _, by rw [hd]⟩
          · cases h
        · cases h
      · cases h
    · cases h
  · rintro ⟨hmark, t, hdrop, hrest, hg, hn, rfl⟩
    obtain ⟨a, as, ha⟩ := List.exists_cons_of_ne_nil hg
    obtain ⟨b, bs, hb⟩ := List.exists_cons_of_ne_nil hn
    simp [hmark, hdrop, hrest, ha, hb]

theorem readBody?_spec {mark : Char} {s body rest : Text}
    (h : readBody? (mark :: s) = some (body, rest)) :
    isQuote mark = true ∧ s = body ++ mark :: rest ∧ ∀ c ∈ body, isNameChar c = true := by
  obtain ⟨hmark, t, hdrop, hrest, -, -, rfl⟩ := readBody?_eq_some_iff.1 h
  have hs : s.takeWhile isGroupChar ++ s.dropWhile isGroupChar = s :=
    List.takeWhile_append_dropWhile
  have ht : t.takeWhile isNameChar ++ t.dropWhile isNameChar = t :=
    List.takeWhile_append_dropWhile
  rw [hdrop, ← ht, hrest] at hs
  refine ⟨hmark, hs.symm.trans (by simp), fun c hc => ?_⟩
  rcases List.mem_append.1 hc with hc | hc
  · exact isNameChar_of_isGroupChar (List.all_eq_true.1 List.all_takeWhile c hc)
  · rcases List.mem_cons.1 hc with rfl | hc
    · decide
    · exact List.all_eq_true.1 List.all_takeWhile c hc

/-- A text that is a coordinate between two equal marks. -/
structure Quotes (mark : Char) (body : Text) (c : Coordinate) : Prop where
  quote : isQuote mark = true
  plain : ∀ x ∈ body, isNameChar x = true
  names : ofBody? body = some c

theorem Quotes.readBody? {mark : Char} {body : Text} {c : Coordinate} (h : Quotes mark body c)
    (rest : Text) : readBody? (mark :: (body ++ mark :: rest)) = some (body, rest) := by
  obtain ⟨hmark, hbody, h⟩ := h
  obtain ⟨parts, hfields, hgroup, hname, -⟩ := ofBody?_eq_some_iff.1 h
  have hsplit : c.group ++ ':' :: List.intercalate [':'] (c.name :: parts) = body := by
    have := intercalate_fields ':' body
    rw [hfields, intercalate_cons_cons] at this
    simpa using this
  have hcolon : ':' ∉ c.group := not_mem_of_mem_fields (by rw [hfields]; exact List.mem_cons_self)
  have hne : List.intercalate [':'] (c.name :: parts) ≠ [] := by
    rw [intercalate_cons_eq]
    exact List.append_ne_nil_of_left_ne_nil hname _
  generalize List.intercalate [':'] (c.name :: parts) = t at hsplit hne
  rw [← hsplit] at hbody ⊢
  have hg : ∀ x ∈ c.group, isGroupChar x = true := by
    intro x hx
    have hx' := hbody x (List.mem_append_left _ hx)
    have : x ≠ ':' := fun e => hcolon (e ▸ hx)
    simpa [isGroupChar, isNameChar, this] using hx'
  have ht : ∀ x ∈ t, isNameChar x = true :=
    fun x hx => hbody x (List.mem_append_right _ (List.mem_cons_of_mem _ hx))
  have hstop : isNameChar mark = false := not_isNameChar_of_isQuote hmark
  refine readBody?_eq_some_iff.2 ⟨hmark, t ++ mark :: rest, ?_⟩
  rw [List.append_assoc, List.cons_append, takeWhile_of_all hg (by decide),
    dropWhile_of_all hg (by decide), takeWhile_of_all ht hstop, dropWhile_of_all ht hstop]
  exact ⟨rfl, rfl, hgroup, hne, rfl⟩

/-- A body that is read in front of a mark, or up to it, is read whatever stands behind. -/
theorem readBody?_append_stop {mark c : Char} {w s body rest : Text} (hmark : isQuote mark = true)
    (h : readBody? (c :: (w ++ mark :: s)) = some (body, rest)) :
    (rest = s ∧ ∀ s', readBody? (c :: (w ++ mark :: s')) = some (body, s')) ∨
      ∃ t, rest = t ++ mark :: s ∧
        ∀ s', readBody? (c :: (w ++ mark :: s')) = some (body, t ++ mark :: s') := by
  have hgroup := not_isGroupChar_of_isQuote hmark
  have hname := not_isNameChar_of_isQuote hmark
  obtain ⟨hc, t, hdrop, hrest, hg, hn, rfl⟩ := readBody?_eq_some_iff.1 h
  rw [takeWhile_append_stop hgroup] at hg ⊢
  rw [dropWhile_append_stop hgroup] at hdrop
  cases hr : w.dropWhile isGroupChar with
  | nil =>
    rw [hr] at hdrop
    obtain ⟨rfl, -⟩ := List.cons.inj hdrop
    exact absurd hmark (by decide)
  | cons x t₀ =>
    rw [hr] at hdrop
    obtain ⟨rfl, rfl⟩ := List.cons.inj hdrop
    have hread (s' : Text) : (w ++ mark :: s').dropWhile isGroupChar =
        ':' :: (t₀ ++ mark :: s') := by
      rw [dropWhile_append_stop hgroup, hr]
      rfl
    rw [List.append_eq, takeWhile_append_stop hname] at hn ⊢
    rw [List.append_eq, dropWhile_append_stop hname] at hrest
    cases hr' : t₀.dropWhile isNameChar with
    | nil =>
      rw [hr'] at hrest
      obtain ⟨rfl, rfl⟩ := List.cons.inj hrest
      refine Or.inl ⟨rfl, fun s' => readBody?_eq_some_iff.2 ⟨hc, _, hread s', ?_⟩⟩
      rw [takeWhile_append_stop hgroup, takeWhile_append_stop hname, dropWhile_append_stop hname,
        hr']
      exact ⟨rfl, hg, hn, rfl⟩
    | cons e r =>
      rw [hr'] at hrest
      obtain ⟨rfl, rfl⟩ := List.cons.inj hrest
      refine Or.inr ⟨r, rfl, fun s' => readBody?_eq_some_iff.2 ⟨hc, _, hread s', ?_⟩⟩
      rw [takeWhile_append_stop hgroup, takeWhile_append_stop hname, dropWhile_append_stop hname,
        hr']
      exact ⟨rfl, hg, hn, rfl⟩

/-- A body that is not read in front of a mark is not read whatever stands behind. -/
theorem readBody?_eq_none_of_stop {mark c : Char} {w s s' : Text} (hmark : isQuote mark = true)
    (h : readBody? (c :: (w ++ mark :: s)) = none) :
    readBody? (c :: (w ++ mark :: s')) = none := by
  refine Option.eq_none_iff_forall_ne_some.2 fun a ha => ?_
  rcases readBody?_append_stop hmark ha with ⟨-, hsome⟩ | ⟨t, -, hsome⟩ <;>
  · rw [hsome] at h
    cases h

/-! ## Searching -/

theorem le_start_of_findFrom? {skip offset : Nat} {s : Text} {found : Found Coordinate}
    (h : findFrom? skip offset s = some found) : offset + skip ≤ found.start := by
  fun_induction findFrom? skip offset s with
  | case1 => cases h
  | case2 offset k c s ih =>
    have := ih h
    omega
  | case3 offset c s hr ih =>
    have := ih h
    omega
  | case4 offset c s body rest hr coordinate hc =>
    cases h
    exact Nat.le_refl _
  | case5 offset c s body rest hr hc ih =>
    have := ih h
    omega

/-- What is found is a quoted coordinate. -/
theorem findFrom?_spec {skip offset : Nat} {line : Text} {found : Found Coordinate}
    (h : findFrom? skip offset line = some found) : ∃ w mark body v,
      line = w ++ mark :: (body ++ mark :: v) ∧ Quotes mark body found.value ∧
      found.start = offset + w.length ∧ found.stop = offset + w.length + (body.length + 2) := by
  fun_induction findFrom? skip offset line with
  | case1 => cases h
  | case2 offset k c s ih =>
    obtain ⟨w, mark, body, v, rfl, hquotes, hstart, hstop⟩ := ih h
    refine ⟨c :: w, mark, body, v, rfl, hquotes, ?_, ?_⟩ <;> simp only [List.length_cons] <;> omega
  | case3 offset c s hr ih =>
    obtain ⟨w, mark, body, v, rfl, hquotes, hstart, hstop⟩ := ih h
    refine ⟨c :: w, mark, body, v, rfl, hquotes, ?_, ?_⟩ <;> simp only [List.length_cons] <;> omega
  | case4 offset c s body rest hr coordinate hc =>
    obtain ⟨hmark, rfl, hbody⟩ := readBody?_spec hr
    cases h
    refine ⟨[], c, body, rest, rfl, ⟨hmark, hbody, hc⟩, rfl, ?_⟩
    simp only [List.length_append, List.length_cons, List.length_nil]
    omega
  | case5 offset c s body rest hr hc ih =>
    obtain ⟨w, mark, body, v, rfl, hquotes, hstart, hstop⟩ := ih h
    refine ⟨c :: w, mark, body, v, rfl, hquotes, ?_, ?_⟩ <;> simp only [List.length_cons] <;> omega

theorem Quotes.findFrom? {mark : Char} {body : Text} {c : Coordinate} (h : Quotes mark body c)
    (offset : Nat) (v : Text) : findFrom? 0 offset (mark :: (body ++ mark :: v)) =
      some ⟨offset, offset + (body.length + 2), c⟩ := by
  rw [Coordinate.findFrom?, h.readBody? v]
  dsimp only
  rw [h.names]
  simp only [List.length_append, List.length_cons, Option.some.injEq, Found.mk.injEq, and_true,
    true_and]
  omega

/-- A search that reaches a mark reaches it whatever stands behind. -/
theorem findFrom?_append_stop {skip offset : Nat} {mark : Char} {w s : Text}
    {found : Found Coordinate} (hmark : isQuote mark = true)
    (h : findFrom? skip offset (w ++ mark :: s) = some found)
    (hstart : found.start = offset + w.length) (s' : Text) :
    findFrom? skip offset (w ++ mark :: s') = findFrom? 0 (offset + w.length) (mark :: s') := by
  induction w generalizing skip offset with
  | nil =>
    have hle := le_start_of_findFrom? h
    rw [List.length_nil] at hstart
    obtain rfl : skip = 0 := by omega
    rfl
  | cons c w ih =>
    rw [List.length_cons] at hstart ⊢
    have hnext : offset + (w.length + 1) = offset + 1 + w.length := by omega
    rw [hnext] at hstart ⊢
    cases skip with
    | succ skip =>
      rw [List.cons_append, findFrom?] at h ⊢
      exact ih h hstart
    | zero =>
      rw [List.cons_append, findFrom?] at h ⊢
      cases hread : readBody? (c :: (w ++ mark :: s)) with
      | none =>
        rw [hread] at h
        rw [readBody?_eq_none_of_stop hmark hread]
        exact ih h hstart
      | some a =>
        obtain ⟨body, rest⟩ := a
        rw [hread] at h
        dsimp only at h
        cases hc : ofBody? body with
        | some coordinate =>
          rw [hc] at h
          cases h
          dsimp only at hstart
          omega
        | none =>
          rw [hc] at h
          dsimp only at h
          rcases readBody?_append_stop hmark hread with ⟨rfl, -⟩ | ⟨t, rfl, hsome⟩
          · -- the search would pass over the mark
            have hle := le_start_of_findFrom? h
            simp only [List.length_append, List.length_cons] at hle
            omega
          · have hskip (r : Text) : (w ++ mark :: r).length - (t ++ mark :: r).length =
                w.length - t.length := by
              simp only [List.length_append, List.length_cons]
              omega
            rw [hskip] at h
            rw [hsome]
            dsimp only
            rw [hc]
            dsimp only
            rw [hskip]
            exact ih h hstart

/-! ## Versions -/

/-- Whether a text may be written as the version of a coordinate: it is not empty, holds neither
marks nor blanks nor colons, and does not make the coordinate an address. -/
def isPlainVersion (version : Text) : Bool :=
  version != [] && version.all isGroupChar && !startsWith ['/', '/'] version

theorem Quotes.of_fields {mark : Char} {group name : Text} {parts : List Text}
    (hmark : isQuote mark = true) (hgroup : group ≠ []) (hname : name ≠ [])
    (hchars : ∀ f ∈ group :: name :: parts, ∀ x ∈ f, isGroupChar x = true)
    (hno : ∀ f ∈ name :: parts, startsWith ['/', '/'] f = false) :
    Quotes mark (List.intercalate [':'] (group :: name :: parts))
      ⟨group, name, parts.headD []⟩ := by
  refine ⟨hmark, ?_, ofBody?_eq_some_iff.2 ⟨parts, ?_, hgroup, hname, rfl, hno⟩⟩
  · intro x hx
    rw [intercalate_cons_eq, List.mem_append, List.mem_flatMap] at hx
    rcases hx with hx | ⟨f, hf, hx⟩
    · exact isNameChar_of_isGroupChar (hchars group List.mem_cons_self x hx)
    · rcases List.mem_cons.1 hx with rfl | hx
      · decide
      · exact isNameChar_of_isGroupChar (hchars f (List.mem_cons_of_mem _ hf) x hx)
  · refine fields_intercalate (List.cons_ne_nil _ _) fun f hf hcolon => ?_
    exact absurd (hchars f hf ':' hcolon) (by decide)

theorem Quotes.fields_eq {mark : Char} {body : Text} {c : Coordinate} (h : Quotes mark body c) :
    ∃ parts, body = List.intercalate [':'] (c.group :: c.name :: parts) ∧ c.group ≠ [] ∧
      c.name ≠ [] ∧ c.version = parts.headD [] ∧
      (∀ f ∈ c.group :: c.name :: parts, ∀ x ∈ f, isGroupChar x = true) ∧
      ∀ f ∈ c.name :: parts, startsWith ['/', '/'] f = false := by
  obtain ⟨parts, hfields, hgroup, hname, hversion, hno⟩ := ofBody?_eq_some_iff.1 h.names
  have hbody := intercalate_fields ':' body
  rw [hfields] at hbody
  refine ⟨parts, hbody.symm, hgroup, hname, hversion, fun f hf x hx => ?_, hno⟩
  have hcolon : ':' ∉ f := not_mem_of_mem_fields (by rw [hfields]; exact hf)
  have hmem : x ∈ body := by
    rw [← hbody, intercalate_cons_eq, List.mem_append, List.mem_flatMap]
    rcases List.mem_cons.1 hf with rfl | hf
    · exact Or.inl hx
    · exact Or.inr ⟨f, hf, List.mem_cons_of_mem _ hx⟩
  have hname := h.plain x hmem
  have hne : x ≠ ':' := fun e => hcolon (e ▸ hx)
  simpa [isGroupChar, isNameChar, hne] using hname

/-- The parts behind the name of a coordinate with its version set: the version takes the place of
the first part, unless that one is empty or absent. -/
def setPart (parts : List Text) (version : Text) : List Text :=
  version :: if parts.headD [] = [] then parts else parts.tail

theorem mem_setPart {parts : List Text} {version f : Text} (h : f ∈ setPart parts version) :
    f = version ∨ f ∈ parts := by
  rw [setPart, List.mem_cons] at h
  refine h.imp_right fun h => ?_
  split at h
  · exact h
  · exact List.mem_of_mem_tail h

end Coordinate

namespace Dependency

open Text

/-- The group and the name of a dependency with parts behind them, as a quoted coordinate. -/
def quoted (d : Dependency) (mark : Char) (parts : List Text) : Text :=
  mark :: (List.intercalate [':'] (d.group :: d.name :: parts) ++ [mark])

/-- A dependency as it is declared by a quoted coordinate with other parts behind the name. -/
def withParts (d : Dependency) (mark : Char) (parts : List Text) : Dependency :=
  { d with version := parts.headD [], raw := d.quoted mark parts }

/-- A quoted coordinate is written with its version as its parts are. -/
theorem setVersion_quoted {d : Dependency} {parts : List Text} (h : d.version = parts.headD [])
    (mark : Char) (version : Text) :
    d.setVersion (d.quoted mark parts) version =
      d.quoted mark (Coordinate.setPart parts version) := by
  have hfront : (mark :: d.group ++ ':' :: d.name).length =
      1 + d.group.length + 1 + d.name.length := by
    simp only [List.length_append, List.length_cons]
    omega
  have hquoted (parts : List Text) : d.quoted mark parts =
      (mark :: d.group ++ ':' :: d.name) ++ (parts.flatMap (':' :: ·) ++ [mark]) := by
    rw [quoted, Coordinate.intercalate_cons_eq]
    simp
  unfold setVersion Coordinate.setPart
  dsimp only
  rw [hquoted, hquoted, ← hfront, h]
  generalize mark :: d.group ++ ':' :: d.name = front
  by_cases hempty : parts.headD [] = []
  · rw [if_pos hempty, if_pos hempty, List.take_left, List.drop_left]
    simp
  · obtain ⟨old, rest, rfl⟩ : ∃ old rest, parts = old :: rest :=
      List.exists_cons_of_ne_nil fun h => hempty (h ▸ rfl)
    have hraw : front ++ ((old :: rest).flatMap (':' :: ·) ++ [mark]) =
        (front ++ [':']) ++ old ++ (rest.flatMap (':' :: ·) ++ [mark]) := by simp
    have hlength : front.length + 1 = (front ++ [':']).length := by
      rw [List.length_append, List.length_singleton]
    rw [if_neg hempty, if_neg hempty, hraw, hlength, List.headD_cons, replace_middle]
    simp

end Dependency

theorem Coordinate.Quotes.setVersion {mark : Char} {body version : Text} {c : Coordinate}
    (h : Quotes mark body c) (hversion : isPlainVersion version = true) (scope raw : Text) :
    ∃ body', Dependency.setVersion ⟨c.group, c.name, c.version, scope, raw⟩
        (mark :: (body ++ [mark])) version = mark :: (body' ++ [mark]) ∧
      Quotes mark body' { c with version } := by
  obtain ⟨parts, rfl, hgroup, hname, hold, hchars, hno⟩ := h.fields_eq
  unfold isPlainVersion at hversion
  simp only [Bool.and_eq_true, bne_iff_ne, List.all_eq_true, Bool.not_eq_true'] at hversion
  obtain ⟨⟨hne, hnew⟩, hslashes⟩ := hversion
  refine ⟨_, Dependency.setVersion_quoted (d := ⟨c.group, c.name, c.version, scope, raw⟩) hold mark
    version, Quotes.of_fields h.quote hgroup hname ?_ ?_⟩
  · intro f hf
    simp only [List.mem_cons] at hf hchars
    rcases hf with rfl | rfl | hf
    · exact hchars _ (Or.inl rfl)
    · exact hchars _ (Or.inr (Or.inl rfl))
    · rcases mem_setPart hf with rfl | hf
      · exact hnew
      · exact hchars f (Or.inr (Or.inr hf))
  · intro f hf
    simp only [List.mem_cons] at hf hno
    rcases hf with rfl | hf
    · exact hno _ (Or.inl rfl)
    · rcases mem_setPart hf with rfl | hf
      · exact hslashes
      · exact hno f (Or.inr hf)

namespace Dependency

open Text

/-! ## Dependencies in their lines -/

/-- The scope shows in front of the first quoted part of a line. -/
theorem scopeOf_append_stop {mark : Char} (hmark : isQuote mark = true) (u s : Text) :
    scopeOf (u ++ mark :: s) = scopeOf u := by
  have htrim : trimLeft (u ++ mark :: s) = trimLeft u ++ mark :: s :=
    dropWhile_append_stop (not_isBlank_of_isQuote hmark) u s
  have hword : isWord mark = false := by rcases isQuote_cases hmark with rfl | rfl <;> decide
  have hstart : isIdentifierStart mark = false := by
    rcases isQuote_cases hmark with rfl | rfl <;> decide
  unfold scopeOf
  rw [htrim]
  cases trimLeft u with
  | nil => simp [hstart]
  | cons c t => simp [takeWhile_append_stop hword]

theorem startsWith_of_readReference? {s name rest : Text}
    (h : readReference? s = some (name, rest)) :
    startsWith "project(".toList (s.take (s.length - rest.length)) = true := by
  obtain ⟨r, hr, hlt⟩ := readReference?_spec h
  obtain rfl := eq_append_of_after? hr
  have hlen : ("project(".toList ++ r).length - rest.length =
      "project(".toList.length + (r.length - rest.length) := by
    rw [List.length_append]
    omega
  rw [hlen, List.take_length_add_append, startsWith, after?_append]
  rfl

theorem find?_of_coordinate {line u body v : Text} {mark : Char} {c : Coordinate}
    (hline : line = u ++ mark :: (body ++ [mark]) ++ v)
    (h : Coordinate.find? line = some ⟨u.length, u.length + (body.length + 2), c⟩) :
    find? line = some ⟨u.length, u.length + (body.length + 2),
      ⟨c.group, c.name, c.version, scopeOf line, mark :: (body ++ [mark])⟩⟩ := by
  have hlen : (mark :: (body ++ [mark])).length = body.length + 2 := by simp
  have htext : (line.take (u.length + (body.length + 2))).drop u.length =
      mark :: (body ++ [mark]) := by
    rw [hline, ← hlen]
    exact drop_take_append u _ v
  unfold find?
  rw [h]
  simp only [Found.map, Found.text, htext]

theorem find?_spec {line : Text} {found : Found Dependency} (h : find? line = some found)
    (hown : found.value.isProjectReference = false) : ∃ u mark body v c,
      line = u ++ mark :: (body ++ [mark]) ++ v ∧ Coordinate.Quotes mark body c ∧
      Coordinate.find? line = some ⟨u.length, u.length + (body.length + 2), c⟩ ∧
      found = ⟨u.length, u.length + (body.length + 2),
        ⟨c.group, c.name, c.version, scopeOf line, mark :: (body ++ [mark])⟩⟩ := by
  cases hc : Coordinate.find? line with
  | some coordinate =>
    obtain ⟨u, mark, body, v, hline, hquotes, hstart, hstop⟩ := Coordinate.findFrom?_spec hc
    have hline : line = u ++ mark :: (body ++ [mark]) ++ v := by
      rw [hline]
      simp
    obtain ⟨start, stop, c⟩ := coordinate
    dsimp only at hstart hstop
    rw [Nat.zero_add] at hstart hstop
    subst hstart hstop
    rw [find?_of_coordinate hline hc] at h
    exact ⟨u, mark, body, v, c, hline, hquotes, rfl, (Option.some.inj h).symm⟩
  | none =>
    unfold find? at h
    rw [hc] at h
    dsimp only at h
    split at h
    · next name hr =>
      cases h
      obtain ⟨w, t, b, rest, hline, hread, hstart, hstop⟩ := search_spec hr
      have htext : name.text line = t.take (t.length - rest.length) := by
        rw [Found.text, hstart, hstop, hline, Nat.zero_add, List.take_length_add_append,
          List.drop_left]
      have hproject := startsWith_of_readReference? hread
      rw [← htext] at hproject
      unfold isProjectReference at hown
      simp only [Found.map] at hown
      rw [hproject] at hown
      cases hown
    · cases h

theorem find?_setVersion {u raw v version : Text} {found : Found Dependency}
    (h : find? (u ++ raw ++ v) = some found) (hstart : found.start = u.length)
    (hstop : found.stop = (u ++ raw).length) (hown : found.value.isProjectReference = false)
    (hversion : Coordinate.isPlainVersion version = true) : ∃ mark body body',
      isQuote mark = true ∧ raw = mark :: (body ++ [mark]) ∧
      found.value.setVersion raw version = mark :: (body' ++ [mark]) ∧ '\n' ∉ body' ∧
      find? (u ++ mark :: (body' ++ [mark]) ++ v) =
        some ⟨u.length, (u ++ mark :: (body' ++ [mark])).length,
          { found.value with version, raw := mark :: (body' ++ [mark]) }⟩ := by
  obtain ⟨u', mark, body, v', c, hline, hquotes, hfind, hfound⟩ := find?_spec h hown
  rw [hfound] at hstart hstop
  have hlen (body : Text) : (mark :: (body ++ [mark])).length = body.length + 2 := by simp
  rw [← hlen, ← List.length_append] at hstop
  obtain ⟨huraw, rfl⟩ := List.append_inj hline hstop.symm
  obtain ⟨rfl, rfl⟩ := List.append_inj huraw hstart.symm
  have hscope (t : Text) : scopeOf (u ++ mark :: (t ++ [mark]) ++ v) = scopeOf u := by
    rw [List.append_assoc, List.cons_append, scopeOf_append_stop hquotes.quote]
  obtain ⟨body', hset, hquotes'⟩ := hquotes.setVersion hversion
    (scopeOf (u ++ mark :: (body ++ [mark]) ++ v)) (mark :: (body ++ [mark]))
  have hfind' : Coordinate.find? (u ++ mark :: (body' ++ [mark]) ++ v) =
      some ⟨u.length, u.length + (body'.length + 2), { c with version }⟩ := by
    rw [List.append_assoc, List.cons_append, List.append_assoc, List.singleton_append]
    rw [List.append_assoc, List.cons_append, List.append_assoc, List.singleton_append] at hfind
    unfold Coordinate.find? at hfind ⊢
    rw [Coordinate.findFrom?_append_stop hquotes.quote hfind (Nat.zero_add _).symm,
      Nat.zero_add]
    exact hquotes'.findFrom? u.length v
  refine ⟨mark, body, body', hquotes.quote, rfl, by rw [hfound]; exact hset, ?_, ?_⟩
  · exact fun hmem => absurd (hquotes'.plain _ hmem) (by decide)
  · rw [find?_of_coordinate rfl hfind', hscope, List.length_append, hlen, hfound, hscope]

end Dependency

end BuildScript
