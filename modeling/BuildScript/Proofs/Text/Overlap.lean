import BuildScript.Proofs.Text.Occurrence
/-!
# Places that overlap

A count from the left goes on behind each place it has counted. Places that begin within one that
is counted are passed over, so the count tells whether a text occurs at all but not whether it
occurs once: it is one for every text whose places all begin within the first.

Only a text that ends as it begins can occur so, `1.1` in `1.1.1` for instance.

Results:
* `find?_eq_head?`: a search finds the first of the places.
* `disjointCount_eq_one_iff`: the count is one where all places begin within the first.
* `exists_border`: two places overlap only by a text that the part begins and ends with.
-/
namespace BuildScript.Text

section
variable {part s : Text} {i j : Nat}

theorem succ_mem_occurrences_cons {c : Char} :
    i + 1 ∈ occurrences part (c :: s) ↔ i ∈ occurrences part s := by
  rw [occurrences_cons]
  split <;> simp

theorem mem_occurrences_drop (hpart : part ≠ []) {k : Nat} :
    i ∈ occurrences part (s.drop k) ↔ i + k ∈ occurrences part s := by
  induction k generalizing s with
  | zero => rfl
  | succ k ih =>
    cases s with
    | nil => simp [occurrences_nil hpart]
    | cons c s => rw [List.drop_succ_cons, ih, ← Nat.add_assoc, succ_mem_occurrences_cons]

/-- A search finds the first of the places. -/
theorem find?_eq_head? (hpart : part ≠ []) : find? part s = (occurrences part s).head? := by
  induction s with
  | nil => rw [occurrences_nil hpart, find?, if_neg hpart, List.head?_nil]
  | cons c s ih =>
    rw [find?, occurrences_cons, ih]
    split
    · rfl
    · rw [List.nil_append, List.head?_map]

/-! ## The count from the left -/

theorem disjointCountFrom_eq_drop (part : Text) (skip : Nat) (s : Text) :
    disjointCountFrom part skip s = disjointCount part (s.drop skip) := by
  induction s generalizing skip with
  | nil => cases skip <;> rfl
  | cons c s ih =>
    cases skip with
    | zero => rfl
    | succ skip => exact ih skip

theorem disjointCount_cons (part : Text) (c : Char) (s : Text) : disjointCount part (c :: s) =
    if startsWith part (c :: s) then disjointCount part (s.drop (part.length - 1)) + 1
    else disjointCount part s := by
  rw [disjointCount, disjointCountFrom, disjointCountFrom_eq_drop]
  rfl

/-- Nothing is counted only where there is no place. -/
theorem disjointCount_eq_zero_iff (hpart : part ≠ []) :
    disjointCount part s = 0 ↔ occurrences part s = [] := by
  induction s with
  | nil => exact iff_of_true rfl (occurrences_nil hpart)
  | cons c s ih =>
    rw [disjointCount_cons, occurrences_cons]
    split
    · simp
    · rw [ih, List.nil_append, List.map_eq_nil_iff]

/-- A text is counted once where it has a first place and all others begin within that. -/
theorem disjointCount_eq_one_iff (hpart : part ≠ []) : disjointCount part s = 1 ↔
    ∃ i rest, occurrences part s = i :: rest ∧ ∀ j ∈ rest, j < i + part.length := by
  induction s with
  | nil =>
    refine iff_of_false (fun h => by cases h) fun ⟨i, rest, h, _⟩ => ?_
    rw [occurrences_nil hpart] at h
    cases h
  | cons c s ih =>
    rw [disjointCount_cons, occurrences_cons]
    split
    · have hlength := List.length_pos_iff.2 hpart
      rw [Nat.add_eq_right, disjointCount_eq_zero_iff hpart, List.eq_nil_iff_forall_not_mem]
      simp only [mem_occurrences_drop hpart]
      constructor
      · intro hnone
        refine ⟨0, _, rfl, fun j hj => ?_⟩
        obtain ⟨k, hk, rfl⟩ := List.mem_map.1 hj
        refine Nat.lt_of_not_le fun hle => hnone (k - (part.length - 1)) ?_
        rwa [Nat.sub_add_cancel (by omega)]
      · rintro ⟨i, rest, hplaces, hwithin⟩ k hk
        obtain ⟨rfl, rfl⟩ := List.cons.inj hplaces
        have := hwithin _ (List.mem_map_of_mem hk)
        omega
    · rw [ih, List.nil_append]
      constructor
      · rintro ⟨i, rest, hplaces, hwithin⟩
        refine ⟨i + 1, rest.map (· + 1), by rw [hplaces, List.map_cons], fun j hj => ?_⟩
        obtain ⟨k, hk, rfl⟩ := List.mem_map.1 hj
        have := hwithin k hk
        omega
      · rintro ⟨_, _, hplaces, hwithin⟩
        obtain ⟨i, rest, hs, rfl, rfl⟩ := List.map_eq_cons_iff.1 hplaces
        refine ⟨i, rest, hs, fun j hj => ?_⟩
        have := hwithin _ (List.mem_map_of_mem hj)
        omega

/-- Two places overlap only where the part ends as it begins. -/
theorem exists_border (hi : i ∈ occurrences part s) (hj : j ∈ occurrences part s) (hlt : i < j)
    (hwithin : j < i + part.length) :
    ∃ w, w ≠ [] ∧ w.length < part.length ∧ w <+: part ∧ w <:+ part := by
  obtain ⟨u, v, hs, rfl⟩ := mem_occurrences_iff.1 hi
  obtain ⟨u', v', hs', rfl⟩ := mem_occurrences_iff.1 hj
  obtain ⟨d, hd⟩ := Nat.exists_eq_add_of_lt hlt
  have hfirst : s.drop u'.length = part.drop (d + 1) ++ v := by
    rw [hs, hd, List.append_assoc, Nat.add_assoc, ← List.drop_drop, List.drop_left,
      List.drop_append_of_le_length (by omega)]
  have hsecond : s.drop u'.length = part ++ v' := by
    rw [hs', List.append_assoc, List.drop_left]
  refine ⟨part.drop (d + 1), ?_, ?_, ?_, List.drop_suffix _ part⟩
  · rw [ne_eq, List.drop_eq_nil_iff]
    omega
  · rw [List.length_drop]
    omega
  · refine List.prefix_of_prefix_length_le ⟨v, hfirst.symm⟩ ⟨v', hsecond.symm⟩ ?_
    rw [List.length_drop]
    omega

end

end BuildScript.Text
