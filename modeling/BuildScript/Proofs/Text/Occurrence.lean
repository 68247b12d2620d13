import BuildScript.Proofs.Text.Layout
import BuildScript.Proofs.Text.Scan
/-!
# Where a text occurs

`occurrences` lists every place of a text in another, overlapping places included. A search from
the left and a count of the places that do not overlap see less than that, but they agree with it
where there is one place only, and that is the case in which a text may be looked for instead of
being read at its place.

Results:
* `mem_occurrences_iff`, `contains_iff`: a part has its places where the text can be cut around it.
* `find?_of_occurrences`, `disjointCount_of_occurrences`: a part with one place is found there and
  counted once.
* `exists_find?_le`, `find?_append_of_head`: which of several places is found.
* `exists_lineAt`: the line around an offset is cut out of the text at its bounds.
-/
namespace BuildScript.Text

/-- The places at which a text occurs in another, overlapping ones included. -/
def occurrences (part s : Text) : List Nat :=
  (List.range (s.length + 1)).filter fun i => startsWith part (s.drop i)

section
variable {part s : Text} {i : Nat}

theorem startsWith_iff : startsWith part s = true ↔ ∃ r, s = part ++ r := by
  constructor
  · intro h
    obtain ⟨r, hr⟩ := Option.isSome_iff_exists.1 h
    exact ⟨r, eq_append_of_after? hr⟩
  · rintro ⟨r, rfl⟩
    simp [startsWith, after?_append]

/-- The places listed are those that cut the text around the part. -/
theorem mem_occurrences_iff :
    i ∈ occurrences part s ↔ ∃ u v, s = u ++ part ++ v ∧ u.length = i := by
  rw [occurrences, List.mem_filter, List.mem_range, startsWith_iff]
  constructor
  · rintro ⟨hi, r, hr⟩
    refine ⟨s.take i, r, ?_, ?_⟩
    · rw [List.append_assoc, ← hr, List.take_append_drop]
    · rw [List.length_take]
      omega
  · rintro ⟨u, v, rfl, rfl⟩
    refine ⟨?_, v, ?_⟩
    · simp only [List.length_append]
      omega
    · rw [List.append_assoc, List.drop_left]

theorem occurrences_cons (part : Text) (c : Char) (s : Text) :
    occurrences part (c :: s) = (if startsWith part (c :: s) then [0] else []) ++
      (occurrences part s).map (· + 1) := by
  unfold occurrences
  rw [List.length_cons, List.range_succ_eq_map, List.filter_cons, List.filter_map]
  by_cases h : startsWith part (c :: s) = true <;> simp [h, Function.comp_def]

theorem occurrences_nil (hpart : part ≠ []) : occurrences part [] = [] := by
  cases part with
  | nil => exact absurd rfl hpart
  | cons c part => rfl

theorem find?_spec (h : find? part s = some i) : ∃ u v, s = u ++ part ++ v ∧ u.length = i := by
  induction s generalizing i with
  | nil =>
    rw [find?] at h
    split at h
    · next hpart =>
      cases h
      exact ⟨[], [], by simp [hpart], rfl⟩
    · cases h
  | cons c s ih =>
    rw [find?] at h
    split at h
    · next hstarts =>
      cases h
      obtain ⟨r, hr⟩ := startsWith_iff.1 hstarts
      exact ⟨[], r, hr, rfl⟩
    · obtain ⟨j, hj, rfl⟩ := Option.map_eq_some_iff.1 h
      obtain ⟨u, v, rfl, rfl⟩ := ih hj
      exact ⟨c :: u, v, rfl, rfl⟩

/-- A part occurs in a text that can be cut around it. -/
theorem contains_iff : contains part s = true ↔ ∃ u v, s = u ++ part ++ v := by
  constructor
  · intro h
    obtain ⟨i, hi⟩ := Option.isSome_iff_exists.1 h
    obtain ⟨u, v, hs, -⟩ := find?_spec hi
    exact ⟨u, v, hs⟩
  · rintro ⟨u, v, rfl⟩
    induction u with
    | nil =>
      have hstarts : startsWith part (part ++ v) = true := startsWith_iff.2 ⟨v, rfl⟩
      rw [List.nil_append]
      generalize part ++ v = s at hstarts
      cases s with
      | nil =>
        cases part with
        | nil => rfl
        | cons c part => cases hstarts
      | cons c s => rw [contains_cons, hstarts, Bool.true_or]
    | cons c u ih =>
      rw [List.cons_append, List.cons_append, contains_cons, ih, Bool.or_true]

theorem contains_eq_false_of_not_mem {c : Char} (hc : c ∈ part) (hs : c ∉ s) :
    contains part s = false := by
  refine Bool.eq_false_iff.2 fun h => hs ?_
  obtain ⟨u, v, rfl⟩ := contains_iff.1 h
  exact List.mem_append_left v (List.mem_append_right u hc)

/-- A part is found at or in front of every place where it occurs. -/
theorem exists_find?_le (part u v : Text) :
    ∃ i, find? part (u ++ part ++ v) = some i ∧ i ≤ u.length := by
  obtain ⟨i, hi⟩ := Option.isSome_iff_exists.1
    (contains_iff.2 ⟨u, v, rfl⟩ : (find? part (u ++ part ++ v)).isSome = true)
  refine ⟨i, hi, ?_⟩
  induction u generalizing i with
  | nil =>
    have hstarts : startsWith part (part ++ v) = true := startsWith_iff.2 ⟨v, rfl⟩
    rw [List.nil_append] at hi
    generalize part ++ v = s at hi hstarts
    cases s with
    | nil =>
      rw [find?] at hi
      split at hi <;> cases hi
      exact Nat.le_refl 0
    | cons c s =>
      rw [find?, if_pos hstarts] at hi
      cases hi
      exact Nat.le_refl 0
  | cons c u ih =>
    rw [List.cons_append, List.cons_append, find?] at hi
    split at hi
    · cases hi
      exact Nat.zero_le _
    · obtain ⟨j, hj, rfl⟩ := Option.map_eq_some_iff.1 hi
      exact Nat.succ_le_succ (ih j hj)

/-- A part that begins with a character of its own is found where that character is first. -/
theorem find?_append_of_head {c : Char} {u : Text} (hc : c ∉ u) (part v : Text) :
    find? (c :: part) (u ++ c :: part ++ v) = some u.length := by
  obtain ⟨i, hi, hle⟩ := exists_find?_le (c :: part) u v
  obtain ⟨u', v', hcut, rfl⟩ := find?_spec hi
  rw [hi, Option.some.injEq]
  refine Nat.le_antisymm hle (Nat.le_of_not_lt fun hlt => hc ?_)
  -- an earlier place would be in front of the character
  have hearly : u' ++ [c] <+: u ++ c :: part ++ v := ⟨part ++ v', by simp [hcut]⟩
  have hfront : u <+: u ++ c :: part ++ v := ⟨c :: part ++ v, by simp⟩
  have hprefix : u' ++ [c] <+: u :=
    List.prefix_of_prefix_length_le hearly hfront (by simpa using Nat.succ_le_of_lt hlt)
  exact hprefix.subset (List.mem_append_right _ List.mem_cons_self)

/-- A part with one place is found there. -/
theorem find?_of_occurrences (hpart : part ≠ []) (h : occurrences part s = [i]) :
    find? part s = some i := by
  induction s generalizing i with
  | nil =>
    rw [occurrences_nil hpart] at h
    cases h
  | cons c s ih =>
    rw [occurrences_cons] at h
    rw [find?]
    split at h
    · next hstarts =>
      obtain ⟨rfl, -⟩ := List.cons.inj h
      rw [if_pos hstarts]
    · next hstarts =>
      obtain ⟨j, hj, rfl⟩ := List.map_eq_singleton_iff.1 h
      rw [if_neg hstarts, ih hj]
      rfl

theorem disjointCountFrom_of_occurrences (h : occurrences part s = []) (skip : Nat) :
    disjointCountFrom part skip s = 0 := by
  induction s generalizing skip with
  | nil => cases skip <;> rfl
  | cons c s ih =>
    rw [occurrences_cons, List.append_eq_nil_iff, List.map_eq_nil_iff] at h
    cases skip with
    | zero =>
      rw [disjointCountFrom, if_neg fun hstarts => by simp [hstarts] at h, ih h.2]
    | succ skip => exact ih h.2 skip

/-- A part with one place is counted once. -/
theorem disjointCount_of_occurrences (hpart : part ≠ []) (h : occurrences part s = [i]) :
    disjointCount part s = 1 := by
  rw [disjointCount]
  induction s generalizing i with
  | nil =>
    rw [occurrences_nil hpart] at h
    cases h
  | cons c s ih =>
    rw [occurrences_cons] at h
    rw [disjointCountFrom]
    split at h
    · next hstarts =>
      obtain ⟨-, hrest⟩ := List.cons.inj h
      rw [if_pos hstarts, disjointCountFrom_of_occurrences (List.map_eq_nil_iff.1 hrest)]
    · next hstarts =>
      obtain ⟨j, hj, rfl⟩ := List.map_eq_singleton_iff.1 h
      rw [if_neg hstarts, ih hj]

end

/-! ## Lines around an offset -/

theorem lineBounds_bounds (s : Text) (offset : Int) :
    (lineBounds s offset).1 ≤ (lineBounds s offset).2 ∧ (lineBounds s offset).2 ≤ s.length := by
  have hclamp : clamp s offset ≤ s.length := Nat.min_le_right _ _
  have hline := (List.takeWhile_prefix (· != '\n') (l := s.drop (clamp s offset))).length_le
  rw [List.length_drop] at hline
  unfold lineBounds
  dsimp only
  omega

/-- The line around an offset is cut out of the text at its bounds. -/
theorem exists_lineAt (s : Text) (offset : Int) :
    ∃ u v, s = u ++ lineAt s offset ++ v ∧ u.length = (lineBounds s offset).1 := by
  obtain ⟨hle, hlength⟩ := lineBounds_bounds s offset
  obtain ⟨u, m, v, hs, hu, -, hm⟩ := exists_cut hle hlength
  exact ⟨u, v, by rw [lineAt, ← hm]; exact hs, hu⟩

theorem lineBounds_append_stop {u : Text} {offset : Int} (h : offset ≤ u.length) (v : Text) :
    lineBounds (u ++ '\n' :: v) offset = lineBounds u offset := by
  have hle : offset.toNat ≤ u.length := by omega
  have hclamp : clamp (u ++ '\n' :: v) offset = offset.toNat :=
    Nat.min_eq_left (by rw [List.length_append]; omega)
  have hclamp' : clamp u offset = offset.toNat := Nat.min_eq_left hle
  unfold lineBounds
  dsimp only
  rw [hclamp, hclamp', List.take_append_of_le_length hle, List.drop_append_of_le_length hle,
    takeWhile_append_stop rfl]

theorem lineAt_append_stop {u : Text} {offset : Int} (h : offset ≤ u.length) (v : Text) :
    lineAt (u ++ '\n' :: v) offset = lineAt u offset := by
  unfold lineAt
  rw [lineBounds_append_stop h]
  dsimp only
  rw [List.take_append_of_le_length (lineBounds_bounds u offset).2]

end BuildScript.Text
