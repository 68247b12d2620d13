import BuildScript.Proofs.Index.Placement
import BuildScript.Proofs.Declaration.Assignment
import BuildScript.Proofs.Declaration.Coordinate
/-!
# How a line is read

What a line contributes to an index depends on the line alone. `Reads` says that a line, cut in
three, declares something in its middle part. The entry that such a line makes is known wherever
the line stands, and a line that reads as nothing makes none.

Setting a version or a value rewrites the middle part, and the line reads as the changed
declaration from the rewritten part: nothing in front of it, behind it or before it in the order of
the recognizers claims the line now.

Results:
* `reads_of_entryOn?`, `Reads.entryOn?_eq`: an entry is what its line reads as.
* `Reads.of_find?`: a line reads as what is found first on it.
* `Reads.setVersion`, `Reads.setValue`: a line with a new version or value reads as such.
-/
namespace BuildScript

namespace Recognizer

/-! ## Sightings -/

theorem kind_of_firstSighting? {kinds : List Kind} {line : Text} {s : Sighting}
    (h : firstSighting? (kinds.map ofKind) line = some s) : s.declaration.kind ∈ kinds := by
  obtain ⟨r, hr, h⟩ := List.exists_of_findSome?_eq_some h
  obtain ⟨kind, hkind, rfl⟩ := List.mem_map.1 hr
  rw [kind_of_sight? h]
  exact hkind

/-- A sighting by one of the five recognizers cuts its line in three. -/
theorem cut_of_firstSighting? {kinds : List Kind} {line : Text} {s : Sighting}
    (h : firstSighting? (kinds.map ofKind) line = some s) :
    ∃ u m v, line = u ++ m ++ v ∧ s = ⟨s.declaration, u.length, (u ++ m).length, m⟩ := by
  obtain ⟨i, j, hstart, hstop, hij, hj, htext⟩ := bounds_of_firstSighting? h
  obtain ⟨u, m, v, hcut, rfl, rfl, hm⟩ := Text.exists_cut (Nat.le_of_lt hij) hj
  refine ⟨u, m, v, hcut, ?_⟩
  rw [← hm] at htext
  cases s
  dsimp only at hstart hstop htext
  rw [hstart, hstop, htext]

/-- A line is seen as what it declares of the first kind of which it declares anything. -/
theorem firstSighting?_of_find? {kind : Kind} {before after : List Kind} {line : Text}
    {found : Found Declaration} (hall : Kind.all = before ++ kind :: after)
    (hnone : ∀ k ∈ before, Declaration.find? k line = none)
    (h : Declaration.find? kind line = some found) :
    firstSighting? default line =
      some ⟨found.value, found.start, found.stop, found.text line⟩ := by
  have hbefore : (before.map ofKind).findSome? (fun r => r.sight? line) = none := by
    refine List.findSome?_eq_none_iff.2 fun r hr => ?_
    obtain ⟨k, hk, rfl⟩ := List.mem_map.1 hr
    show (Declaration.find? k line).map _ = none
    rw [hnone k hk]
    rfl
  have hsight : (ofKind kind).sight? line =
      some ⟨found.value, found.start, found.stop, found.text line⟩ := by
    show (Declaration.find? kind line).map _ = _
    rw [h]
    rfl
  rw [firstSighting?, default, hall, List.map_append, List.findSome?_append, hbefore,
    List.map_cons, List.findSome?_cons, hsight]
  rfl

theorem firstSighting?_default (line : Text) : firstSighting? default line =
    ((ofKind .property).sight? line).or (((ofKind .dependency).sight? line).or
      (firstSighting? ([.plugin, .repository, .task].map ofKind) line)) := by
  show List.findSome? _ (ofKind .property :: ofKind .dependency :: _) = _
  rw [List.findSome?_cons, List.findSome?_cons]
  cases (ofKind .property).sight? line with
  | some s => rfl
  | none => cases (ofKind .dependency).sight? line <;> rfl

/-- A line is seen as a property when it assigns one. -/
theorem firstSighting?_eq_property_iff {line : Text} {p : Property} {i j : Int} {m : Text} :
    firstSighting? default line = some ⟨.property p, i, j, m⟩ ↔
      ∃ found, Property.find? line = some found ∧ found.value = p ∧ found.start = i ∧
        found.stop = j ∧ found.text line = m := by
  have hsight : (ofKind .property).sight? line = (Property.find? line).map fun found =>
      ⟨.property found.value, found.start, found.stop, found.text line⟩ := by
    show ((Property.find? line).map _).map _ = _
    rw [Option.map_map]
    rfl
  rw [firstSighting?_default, hsight]
  constructor
  · intro h
    rcases Option.or_eq_some_iff.1 h with h | ⟨-, h⟩
    · obtain ⟨found, hfound, e⟩ := Option.map_eq_some_iff.1 h
      cases e
      exact ⟨found, hfound, rfl, rfl, rfl, rfl⟩
    · rcases Option.or_eq_some_iff.1 h with h | ⟨-, h⟩
      · cases kind_of_sight? h
      · have hother : Kind.property ∉ [Kind.plugin, .repository, .task] := by decide
        exact absurd (kind_of_firstSighting? h) hother
  · rintro ⟨found, hfound, rfl, rfl, rfl, rfl⟩
    rw [hfound]
    rfl

/-- A line is seen as a dependency when it declares one and assigns no property. -/
theorem firstSighting?_eq_dependency_iff {line : Text} {d : Dependency} {i j : Int} {m : Text} :
    firstSighting? default line = some ⟨.dependency d, i, j, m⟩ ↔ Property.find? line = none ∧
      ∃ found, Dependency.find? line = some found ∧ found.value = d ∧ found.start = i ∧
        found.stop = j ∧ found.text line = m := by
  have hproperty : (ofKind .property).sight? line = none ↔ Property.find? line = none := by
    show ((Property.find? line).map _).map _ = none ↔ _
    rw [Option.map_eq_none_iff, Option.map_eq_none_iff]
  have hsight : (ofKind .dependency).sight? line = (Dependency.find? line).map fun found =>
      ⟨.dependency found.value, found.start, found.stop, found.text line⟩ := by
    show ((Dependency.find? line).map _).map _ = _
    rw [Option.map_map]
    rfl
  rw [firstSighting?_default, ← hproperty, hsight]
  constructor
  · intro h
    rcases Option.or_eq_some_iff.1 h with h | ⟨hnone, h⟩
    · cases kind_of_sight? h
    · refine ⟨hnone, ?_⟩
      rcases Option.or_eq_some_iff.1 h with h | ⟨-, h⟩
      · obtain ⟨found, hfound, e⟩ := Option.map_eq_some_iff.1 h
        cases e
        exact ⟨found, hfound, rfl, rfl, rfl, rfl⟩
      · have hother : Kind.dependency ∉ [Kind.plugin, .repository, .task] := by decide
        exact absurd (kind_of_firstSighting? h) hother
  · rintro ⟨hnone, found, hfound, rfl, rfl, rfl, rfl⟩
    rw [hnone, hfound]
    rfl

end Recognizer

theorem Found.text_eq {α : Type} {found : Found α} {u m v : Text} (hstart : found.start = u.length)
    (hstop : found.stop = (u ++ m).length) : found.text (u ++ m ++ v) = m := by
  rw [Found.text, hstart, hstop, List.length_append]
  exact Text.drop_take_append u m v

namespace Index

open Text

/-! ## Skipped lines -/

theorem isSkipped_append_stop {mark : Char} (hmark : isQuote mark = true) (skipComments : Bool)
    (u s s' : Text) :
    isSkipped skipComments (u ++ mark :: s) = isSkipped skipComments (u ++ mark :: s') := by
  have hblank := not_isBlank_of_isQuote hmark
  have htrim (t : Text) : trim (u ++ mark :: t) = trimLeft u ++ mark :: trimRight t := by
    unfold trim trimLeft
    rw [dropWhile_append_stop hblank, trimRight_append_stop hblank]
  have hmarks : ∀ word ∈ commentMarks, mark ∉ word := by
    rcases isQuote_cases hmark with rfl | rfl <;> decide
  have hstarts (t : Text) : (commentMarks.any fun word =>
      startsWith word (trimLeft u ++ mark :: t)) =
        commentMarks.any fun word => startsWith word (trimLeft u) := by
    rw [Bool.eq_iff_iff, List.any_eq_true, List.any_eq_true]
    refine exists_congr fun word => and_congr_right fun hword => ?_
    rw [startsWith_append_stop (hmarks word hword)]
  have hempty (t : Text) : (trimLeft u ++ mark :: t).isEmpty = false := by
    cases trimLeft u <;> rfl
  unfold isSkipped
  dsimp only
  rw [htrim, htrim, hstarts, hstarts, hempty, hempty]

theorem isSkipped_of_word {b : Text} {c : Char} (hb : ∀ x ∈ b, isBlank x = true)
    (hc : isIdentifierStart c = true) (s : Text) (skipComments : Bool) :
    isSkipped skipComments (b ++ c :: s) = false := by
  have hblank := not_isBlank_of_isIdentifierStart hc
  have htrim : trim (b ++ c :: s) = c :: trimRight s := by
    rw [trim, trimLeft_append_of_blank hb, trimLeft_cons_of_not_blank hblank]
    exact trimRight_append_stop hblank [] s
  have hslash : c ≠ '/' := by
    rintro rfl
    exact absurd hc (by decide)
  have hstar : c ≠ '*' := by
    rintro rfl
    exact absurd hc (by decide)
  unfold isSkipped
  dsimp only
  rw [htrim]
  simp [commentMarks, startsWith, after?, Ne.symm hslash, Ne.symm hstar]

theorem isSkipped_of_property {line : Text} {found : Found Property}
    (h : Property.find? line = some found) (skipComments : Bool) :
    isSkipped skipComments line = false := by
  obtain ⟨u, front, value, v, rfl, hframes, -⟩ := Property.find?_spec h
  obtain ⟨c, w, b, rfl, hc, -⟩ := hframes.opens
  rw [List.append_assoc, List.append_assoc]
  exact isSkipped_of_word hframes.blank hc (w ++ '=' :: b ++ (value ++ v)) skipComments

/-! ## Readings -/

/-- The line `u ++ m ++ v` reads as a declaration, from the part `m`. -/
structure Reads (skipComments : Bool) (u m v : Text) (d : Declaration) : Prop where
  line : '\n' ∉ u ++ m ++ v
  read : isSkipped skipComments (u ++ m ++ v) = false
  sighting : Recognizer.firstSighting? Recognizer.default (u ++ m ++ v) =
    some ⟨d, u.length, (u ++ m).length, m⟩

variable {skipComments : Bool} {text u m v : Text} {k : Nat} {d : Declaration}

/-- A line reads as what it declares of the first kind of which it declares anything. -/
theorem Reads.of_find? {kind : Kind} {before after : List Kind}
    (hall : Kind.all = before ++ kind :: after) (hline : '\n' ∉ u ++ m ++ v)
    (hread : isSkipped skipComments (u ++ m ++ v) = false)
    (hnone : ∀ k ∈ before, Declaration.find? k (u ++ m ++ v) = none)
    (h : Declaration.find? kind (u ++ m ++ v) = some ⟨u.length, (u ++ m).length, d⟩) :
    Reads skipComments u m v d := by
  refine ⟨hline, hread, ?_⟩
  rw [Recognizer.firstSighting?_of_find? hall hnone h, Found.text_eq rfl rfl]

/-- An entry is what its line reads as. -/
theorem reads_of_entryOn? {e : Entry} (h : entryOn? { skipComments } text k = some e) :
    ∃ u v, e.region.Covers text k u e.rawText v ∧
      Reads skipComments u e.rawText v e.declaration := by
  obtain ⟨line, s, hline, hread, hs, hb⟩ := sighting_of_entryOn? h
  obtain ⟨u, m, v, rfl, hsight⟩ := Recognizer.cut_of_firstSighting? hs
  obtain ⟨i, j, -, -, hi, hj, hd, hregion, -, hraw⟩ := bindSighting_eq_ok hb
  have hlf := not_mem_of_mem_lines (List.mem_of_getElem? hline)
  rw [hsight] at hi hj hraw
  dsimp only at hi hj hraw
  refine ⟨u, v, ?_, ?_⟩
  · rw [hraw]
    refine ⟨hline, ?_⟩
    rw [hregion, ← hi, ← hj]
    rfl
  · rw [hraw, hd]
    refine ⟨hlf, hread, ?_⟩
    rw [← hsight]
    exact hs

/-- Wherever a line stands that reads as a declaration, it makes an entry of it. -/
theorem Reads.entryOn?_eq (h : Reads skipComments u m v d)
    (hline : (Text.lines text)[k]? = some (u ++ m ++ v)) : entryOn? { skipComments } text k =
      some ⟨d, Region.onLine (k + 1) (lineStart text k) u.length (u ++ m).length, m⟩ := by
  unfold entryOn?
  rw [hline, Option.bind_some, readLine, h.read, if_neg Bool.false_ne_true, h.sighting,
    Option.map_some, Option.bind_some, bindSighting_eq hline]
  rfl

/-- A line either reads as a declaration or makes no entry, wherever it stands. -/
theorem reads_or_none (skipComments : Bool) {line : Text} (hlf : '\n' ∉ line) :
    (∃ u m v d, line = u ++ m ++ v ∧ Reads skipComments u m v d) ∨
      ∀ (text : Text) (k : Nat), (Text.lines text)[k]? = some line →
        entryOn? { skipComments } text k = none := by
  cases hread : isSkipped skipComments line with
  | true =>
    right
    intro text k hline
    rw [entryOn?, hline, Option.bind_some, readLine, hread, if_pos rfl]
    rfl
  | false =>
    cases hsight : Recognizer.firstSighting? Recognizer.default line with
    | none =>
      right
      intro text k hline
      rw [entryOn?, hline, Option.bind_some, readLine, hread, if_neg Bool.false_ne_true, hsight]
      rfl
    | some s =>
      left
      obtain ⟨u, m, v, rfl, hs⟩ := Recognizer.cut_of_firstSighting? hsight
      exact ⟨u, m, v, s.declaration, rfl, hlf, hread, by rw [hsight, ← hs]⟩

/-! ## Changed declarations -/

/-- A line whose dependency is given another version reads as the dependency with that version. -/
theorem Reads.setVersion {dependency : Dependency} {version : Text}
    (h : Reads skipComments u m v (.dependency dependency))
    (hown : dependency.isProjectReference = false)
    (hversion : Coordinate.isPlainVersion version = true) :
    Reads skipComments u (dependency.setVersion m version) v
      (.dependency { dependency with version, raw := dependency.setVersion m version }) := by
  obtain ⟨hproperty, found, hfound, rfl, hstart, hstop, -⟩ :=
    Recognizer.firstSighting?_eq_dependency_iff.1 h.sighting
  obtain ⟨mark, body, body', hmark, rfl, hset, hlf, hfind⟩ :=
    Dependency.find?_setVersion hfound (Int.ofNat_inj.1 hstart) (Int.ofNat_inj.1 hstop) hown
      hversion
  have hline := h.line
  have hread := h.read
  have hquoted (t : Text) : u ++ mark :: (t ++ [mark]) ++ v = u ++ mark :: (t ++ mark :: v) := by
    simp
  have hline' : '\n' ∉ u ++ mark :: (body' ++ [mark]) ++ v := by
    simp only [List.mem_append, List.mem_cons, not_or] at hline ⊢
    exact ⟨⟨hline.1.1, hline.1.2.1, hlf, hline.1.2.2.2⟩, hline.2⟩
  rw [hset]
  refine ⟨hline', ?_, ?_⟩
  · rw [hquoted] at hread ⊢
    rw [← hread]
    exact isSkipped_append_stop hmark skipComments u _ _
  · refine Recognizer.firstSighting?_eq_dependency_iff.2 ⟨?_, _, hfind, rfl, rfl, rfl, ?_⟩
    · rw [hquoted] at hproperty hline hline' ⊢
      exact Property.find?_eq_none_of_stop hmark hproperty hline hline'
    · exact Found.text_eq rfl rfl

/-- A line whose property is given another value reads as the property with that value. -/
theorem Reads.setValue {property : Property} {value : Text}
    (h : Reads skipComments u m v (.property property))
    (hvalue : Property.isPlainValue m value = true) :
    Reads skipComments u (Property.setValue m value) v (.property { property with value }) := by
  obtain ⟨found, hfound, rfl, hstart, hstop, -⟩ :=
    Recognizer.firstSighting?_eq_property_iff.1 h.sighting
  obtain ⟨hline, hfind⟩ := Property.find?_setValue hfound (Int.ofNat_inj.1 hstart)
    (Int.ofNat_inj.1 hstop) h.line hvalue
  refine ⟨hline, isSkipped_of_property hfind skipComments, ?_⟩
  exact Recognizer.firstSighting?_eq_property_iff.2
    ⟨_, hfind, rfl, rfl, rfl, Found.text_eq rfl rfl⟩

end Index

end BuildScript
