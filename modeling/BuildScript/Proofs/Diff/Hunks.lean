import BuildScript.Diff.Unified
import BuildScript.Proofs.Diff.Alignment
/-!
# Hunks cover both sequences

The hunks of a diff are cut out of the stretches of two sequences: what stayed the same is shortened
at both ends, and taken apart where it is long. Whatever falls out is the same in both sequences, so
the hunks with what lies between them still cover both from end to end.

Results:
* `covers_hunksFrom`: distributing stretches over hunks leaves out what is the same and no more.
* `covers_hunks`: the hunks of two sequences cover both of them.
-/
namespace BuildScript.Diff

variable {α : Type} {a b : List α}

/-! ## Items that are the same -/

theorem level_zero {i j : Nat} : Level a b i j 0 := fun _ hp => absurd hp (Nat.not_lt_zero _)

theorem Level.append {i j m n : Nat} (hm : Level a b i j m) (hn : Level a b (i + m) (j + m) n) :
    Level a b i j (m + n) := by
  intro p hp
  by_cases h : p < m
  · exact hm p h
  · have := hn (p - m) (by omega)
    rwa [show i + m + (p - m) = i + p by omega, show j + m + (p - m) = j + p by omega] at this

/-- The items of a part are the same if all are. -/
theorem Level.part {i j n : Nat} (h : Level a b i j n) (k m : Nat) (hle : k + m ≤ n) :
    Level a b (i + k) (j + k) m := by
  intro p hp
  rw [Nat.add_assoc, Nat.add_assoc]
  exact h (k + p) (by omega)

theorem Level.slice_eq {i j n : Nat} (h : Level a b i j n) :
    (a.take (i + n)).drop i = (b.take (j + n)).drop j := by
  apply List.ext_getElem?
  intro p
  rw [List.getElem?_drop, List.getElem?_drop]
  by_cases hp : p < n
  · rw [List.getElem?_take_of_lt (by omega), List.getElem?_take_of_lt (by omega)]
    exact h p hp
  · rw [List.getElem?_take_eq_none (by omega), List.getElem?_take_eq_none (by omega)]

theorem Tiles.le {i j i' j' : Nat} {stretches : List Stretch} (h : Tiles a b i j stretches i' j') :
    i ≤ i' ∧ j ≤ j' := by
  induction h with
  | nil => exact ⟨Nat.le_refl _, Nat.le_refl _⟩
  | same _ _ ih => omega
  | changed _ _ _ ih => omega

theorem Tiles.head {i j i' j' : Nat} {s : Stretch} {rest : List Stretch}
    (h : Tiles a b i j (s :: rest) i' j') : s.oldStart = i ∧ s.newStart = j := by
  cases h <;> exact ⟨rfl, rfl⟩

theorem Tiles.getLast {i j i' j' : Nat} {stretches : List Stretch} {s : Stretch}
    (h : Tiles a b i j stretches i' j') (hs : stretches.getLast? = some s) :
    s.oldStop = i' ∧ s.newStop = j' := by
  induction h with
  | nil => cases hs
  | @same i j n i' j' rest hn hrest ih =>
    cases rest with
    | nil => cases hrest; cases hs; exact ⟨rfl, rfl⟩
    | cons t rest => exact ih (by rwa [List.getLast?_cons_cons] at hs)
  | @changed i j k l i' j' rest hi hj hrest ih =>
    cases rest with
    | nil => cases hrest; cases hs; exact ⟨rfl, rfl⟩
    | cons t rest => exact ih (by rwa [List.getLast?_cons_cons] at hs)

/-! ## Stretches made shorter -/

theorem last_level (context i j n : Nat) :
    (Stretch.level i j n).last context =
      Stretch.level (i + (n - context)) (j + (n - context)) (n - (n - context)) := by
  simp only [Stretch.last, Stretch.level, Stretch.mk.injEq, true_and]
  omega

theorem first_level (context i j n : Nat) :
    (Stretch.level i j n).first context = Stretch.level i j (min n context) := by
  simp only [Stretch.first, Stretch.level, Stretch.mk.injEq, true_and]
  omega

theorem tiles_level {i j n : Nat} (h : Level a b i j n) :
    Tiles a b i j [Stretch.level i j n] (i + n) (j + n) := .same h .nil

theorem tiles_trimFront (context : Nat) {i j i' j' : Nat} {stretches : List Stretch}
    (h : Tiles a b i j stretches i' j') :
    ∃ n, Level a b i j n ∧ Tiles a b (i + n) (j + n) (trimFront context stretches) i' j' := by
  cases h with
  | nil => exact ⟨0, level_zero, .nil⟩
  | changed hi hj hrest => exact ⟨0, level_zero, .changed hi hj hrest⟩
  | @same _ _ n _ _ rest hn hrest =>
    refine ⟨n - context, hn.part 0 _ (by omega), ?_⟩
    rw [trimFront, if_pos (same_level i j n), last_level]
    refine .same (hn.part _ _ (by omega)) ?_
    rwa [show i + (n - context) + (n - (n - context)) = i + n by omega,
      show j + (n - context) + (n - (n - context)) = j + n by omega]

theorem tiles_trimBack (context : Nat) {i j i' j' : Nat} {stretches : List Stretch}
    (h : Tiles a b i j stretches i' j') :
    ∃ k l n, Tiles a b i j (trimBack context stretches) k l ∧ Level a b k l n ∧
      i' = k + n ∧ j' = l + n := by
  induction h with
  | nil => exact ⟨_, _, 0, .nil, level_zero, rfl, rfl⟩
  | @changed i j k l i' j' rest hi hj hrest ih =>
    obtain ⟨k', l', n, htiles, hn, hold, hnew⟩ := ih
    refine ⟨k', l', n, ?_, hn, hold, hnew⟩
    cases rest with
    | nil => exact .changed hi hj htiles
    | cons s rest => exact .changed hi hj htiles
  | @same i j n i' j' rest hn hrest ih =>
    cases rest with
    | cons s rest =>
      obtain ⟨k', l', m, htiles, hm, hold, hnew⟩ := ih
      exact ⟨k', l', m, .same hn htiles, hm, hold, hnew⟩
    | nil =>
      cases hrest
      refine ⟨i + min n context, j + min n context, n - min n context, ?_,
        hn.part _ _ (by omega), by omega, by omega⟩
      rw [trimBack, if_pos (same_level i j n), first_level]
      exact tiles_level (hn.part 0 _ (by omega))

/-! ## Hunks -/

/-- Hunks of stretches from the places `i` and `j` to the places `i'` and `j'`. What lies between
two hunks, in front of the first and behind the last is the same in both sequences. -/
inductive Covers (a b : List α) : (i j : Nat) → List (List Stretch) → (i' j' : Nat) → Prop
  | nil {i j n : Nat} (hn : Level a b i j n) : Covers a b i j [] (i + n) (j + n)
  | hunk {i j n k l i' j' : Nat} {hunk : List Stretch} {rest : List (List Stretch)}
      (hn : Level a b i j n) (hne : hunk ≠ []) (htiles : Tiles a b (i + n) (j + n) hunk k l)
      (hrest : Covers a b k l rest i' j') : Covers a b i j (hunk :: rest) i' j'

theorem Covers.le {i j i' j' : Nat} {hunks : List (List Stretch)}
    (h : Covers a b i j hunks i' j') :
    i ≤ i' ∧ j ≤ j' := by
  induction h with
  | nil _ => omega
  | hunk hn hne htiles hrest ih =>
    have := htiles.le
    omega

theorem Covers.append {i j k l n : Nat} {hunks : List (List Stretch)}
    (h : Covers a b i j hunks k l) (hn : Level a b k l n) :
    Covers a b i j hunks (k + n) (l + n) := by
  induction h with
  | nil hm =>
    rw [Nat.add_assoc, Nat.add_assoc]
    exact .nil (hm.append hn)
  | hunk hm hne htiles _ ih => exact .hunk hm hne htiles (ih hn)

/-- Distributing stretches over hunks leaves out what is the same and no more: not what stands in
front of the hunk that has begun, and not what is cut out of the middle of a long stretch. -/
theorem covers_hunksFrom (context : Nat) {i j n k l i' j' : Nat} {hunk rest : List Stretch}
    (hn : Level a b i j n) (hhunk : Tiles a b (i + n) (j + n) hunk k l)
    (hrest : Tiles a b k l rest i' j') : Covers a b i j (hunksFrom context hunk rest) i' j' := by
  induction rest generalizing i j n k l hunk with
  | nil =>
    cases hrest
    rw [hunksFrom.eq_def]
    dsimp only
    split
    · cases hhunk
      exact .nil hn
    · next s =>
      cases hhunk with
      | same hm htail =>
        cases htail
        rw [if_pos (same_level _ _ _), Nat.add_assoc, Nat.add_assoc]
        exact .nil (hn.append hm)
      | changed hi hj htail =>
        cases htail
        exact .hunk hn (List.cons_ne_nil _ _) (.changed hi hj .nil) (.nil (n := 0) level_zero)
    · next hne _ => exact .hunk hn hne hhunk (.nil (n := 0) level_zero)
  | cons s rest ih =>
    rw [hunksFrom]
    cases hrest with
    | changed hi hj hrest =>
      rw [if_neg (fun h => Bool.false_ne_true h.1)]
      exact ih hn (hhunk.append (.changed hi hj .nil)) hrest
    | @same _ _ m _ _ _ hm hrest =>
      split
      · next hlong =>
        have hlong : context + context < m := by
          have := hlong.2
          dsimp only [Stretch.level] at this
          omega
        rw [first_level, last_level, Nat.min_eq_right (by omega)]
        refine .hunk hn (by simp) (hhunk.append (tiles_level (hm.part 0 _ (by omega)))) ?_
        have hlast := tiles_level (hm.part (m - context) (m - (m - context)) (by omega))
        refine ih (n := m - context - context) (hm.part _ _ (by omega)) ?_ hrest
        rwa [show k + context + (m - context - context) = k + (m - context) by omega,
          show l + context + (m - context - context) = l + (m - context) by omega,
          show k + m = k + (m - context) + (m - (m - context)) by omega,
          show l + m = l + (m - context) + (m - (m - context)) by omega]
      · exact ih hn (hhunk.append (.same hm .nil)) hrest

theorem hunks_nil (context : Nat) : hunks context [] = [] := by
  simp [hunks, trimFront, trimBack, hunksFrom, Stretch.last, Stretch.first]
  omega

/-- The hunks of two sequences cover both of them. -/
theorem covers_hunks [DecidableEq α] (context : Nat) (a b : List α) :
    Covers a b 0 0 (hunks context (stretches a b)) a.length b.length := by
  have htiles := tiles_stretches a b
  by_cases hnil : stretches a b = []
  · rw [hnil] at htiles ⊢
    rw [hunks_nil]
    generalize hm : a.length = m at htiles
    generalize hn : b.length = n at htiles
    cases htiles
    exact .nil level_zero
  · obtain ⟨n, hfront, htiles⟩ := tiles_trimFront context htiles
    obtain ⟨k, l, m, htiles, hback, hold, hnew⟩ := tiles_trimBack context htiles
    unfold hunks
    rw [if_neg hnil, hold, hnew]
    exact (covers_hunksFrom context hfront .nil htiles).append hback

end BuildScript.Diff
