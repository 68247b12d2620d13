import BuildScript.Diff.Alignment
/-!
# Alignments are true of both sequences

Every run of an alignment holds the same in both sequences, and runs ascend, so an alignment cuts
both sequences into stretches that follow one another without a gap. How the longest run is found
has no part in this: all that is used is that the numbers in a row are lengths of common runs that
end there, and that a run may be lengthened over items that are equal.

Results:
* `common_longestRun`: what is taken for the longest run is common to both sequences.
* `ascends_align`: the runs of an alignment are common and ascend.
* `tiles_stretches`: the stretches of two sequences tile both of them.
-/
namespace BuildScript.Diff

variable {α : Type} {a b : List α} {r s : Run}

/-! ## Common runs -/

/-- Two sequences hold the same over a run. -/
structure Run.Common (a b : List α) (r : Run) : Prop where
  old_le : r.old + r.length ≤ a.length
  new_le : r.new + r.length ≤ b.length
  getElem?_eq {n : Nat} : n < r.length → a[r.old + n]? = b[r.new + n]?

theorem Run.Common.append (hr : r.Common a b) (hs : s.Common a b) (hold : r.old + r.length = s.old)
    (hnew : r.new + r.length = s.new) :
    Run.Common a b ⟨r.old, r.new, r.length + s.length⟩ where
  old_le := by
    have := hs.old_le
    dsimp only
    omega
  new_le := by
    have := hs.new_le
    dsimp only
    omega
  getElem?_eq := by
    intro n hn
    dsimp only at hn ⊢
    by_cases h : n < r.length
    · exact hr.getElem?_eq h
    · have heq := hs.getElem?_eq (n := n - r.length) (by omega)
      rwa [← hold, ← hnew, show r.old + r.length + (n - r.length) = r.old + n by omega,
        show r.new + r.length + (n - r.length) = r.new + n by omega] at heq

theorem Run.Common.of_take {i j : Nat} (h : r.Common (a.take i) (b.take j)) : r.Common a b := by
  have hold := h.old_le
  have hnew := h.new_le
  rw [List.length_take] at hold hnew
  refine ⟨by omega, by omega, fun hn => ?_⟩
  have heq := h.getElem?_eq hn
  rwa [List.getElem?_take_of_lt (by omega), List.getElem?_take_of_lt (by omega)] at heq

theorem Run.Common.of_drop {i j : Nat} (hi : i ≤ a.length) (hj : j ≤ b.length)
    (h : r.Common (a.drop i) (b.drop j)) : Run.Common a b ⟨i + r.old, j + r.new, r.length⟩ := by
  have hold := h.old_le
  have hnew := h.new_le
  rw [List.length_drop] at hold hnew
  refine ⟨?_, ?_, fun hn => ?_⟩
  · dsimp only
    omega
  · dsimp only
    omega
  · have heq := h.getElem?_eq hn
    rwa [List.getElem?_drop, List.getElem?_drop, ← Nat.add_assoc, ← Nat.add_assoc] at heq

theorem Run.Common.of_reverse (h : r.Common a.reverse b.reverse) :
    Run.Common a b
      ⟨a.length - (r.old + r.length), b.length - (r.new + r.length), r.length⟩ := by
  have hold := h.old_le
  have hnew := h.new_le
  rw [List.length_reverse] at hold hnew
  refine ⟨?_, ?_, fun {n} hn => ?_⟩
  · dsimp only
    omega
  · dsimp only
    omega
  · dsimp only at hn ⊢
    have heq := h.getElem?_eq (n := r.length - 1 - n) (by omega)
    rw [List.getElem?_reverse (by omega), List.getElem?_reverse (by omega)] at heq
    rwa [show a.length - 1 - (r.old + (r.length - 1 - n)) = a.length - (r.old + r.length) + n by
        omega,
      show b.length - 1 - (r.new + (r.length - 1 - n)) = b.length - (r.new + r.length) + n by
        omega] at heq

section
variable [DecidableEq α]

theorem common_commonPrefix (a b : List α) : Run.Common a b ⟨0, 0, commonPrefix a b⟩ := by
  fun_induction commonPrefix a b with
  | case1 x a b ih =>
    have hold := ih.old_le
    have hnew := ih.new_le
    refine ⟨?_, ?_, fun {n} hn => ?_⟩
    · simp only [List.length_cons] at hold ⊢
      omega
    · simp only [List.length_cons] at hnew ⊢
      omega
    · cases n with
      | zero => rfl
      | succ n =>
        have heq := ih.getElem?_eq (Nat.lt_of_succ_lt_succ hn)
        simpa using heq
  | case2 => exact ⟨Nat.zero_le _, Nat.zero_le _, fun hn => absurd hn (Nat.not_lt_zero _)⟩
  | case3 => exact ⟨Nat.zero_le _, Nat.zero_le _, fun hn => absurd hn (Nat.not_lt_zero _)⟩

/-! ## The longest run -/

/-- A common run of length `k` ends in front of the items `i` and `j`. -/
def EndsAt (a b : List α) (i j k : Nat) : Prop :=
  k ≤ i ∧ k ≤ j ∧ Run.Common a b ⟨i - k, j - k, k⟩

omit [DecidableEq α] in
theorem endsAt_zero {i j : Nat} (hi : i ≤ a.length) (hj : j ≤ b.length) : EndsAt a b i j 0 :=
  ⟨Nat.zero_le i, Nat.zero_le j, hi, hj, fun hn => absurd hn (Nat.not_lt_zero _)⟩

omit [DecidableEq α] in
theorem EndsAt.succ {i j k : Nat} {x : α} (h : EndsAt a b i j k) (ha : a[i]? = some x)
    (hb : b[j]? = some x) : EndsAt a b (i + 1) (j + 1) (k + 1) := by
  obtain ⟨hi, hj, hrun⟩ := h
  have hone : Run.Common a b ⟨i, j, 1⟩ := by
    refine ⟨(List.getElem?_eq_some_iff.1 ha).1, (List.getElem?_eq_some_iff.1 hb).1,
      fun {n} hn => ?_⟩
    obtain rfl : n = 0 := Nat.lt_one_iff.1 hn
    exact ha.trans hb.symm
  have hrun := hrun.append hone (Nat.sub_add_cancel hi) (Nat.sub_add_cancel hj)
  refine ⟨Nat.succ_le_succ hi, Nat.succ_le_succ hj, ?_⟩
  rwa [Nat.add_sub_add_right, Nat.add_sub_add_right]

/-- The numbers in the next row are lengths of runs that end at the next item of the old sequence if
those in the row before are lengths of runs that end at this one. -/
theorem endsAt_nextRow {x : α} {i j diagonal : Nat} {row : List Nat} {rest : List (α × Bool)}
    (hx : a[i]? = some x) (hrest : rest.map (·.1) = b.drop j) (hdiagonal : EndsAt a b i j diagonal)
    (hrow : ∀ m k, row[m]? = some k → EndsAt a b i (j + m + 1) k) :
    ∀ m k, (nextRow x diagonal row rest)[m]? = some k → EndsAt a b (i + 1) (j + m + 1) k := by
  induction rest generalizing j diagonal row with
  | nil =>
    intro m k h
    cases row <;> simp [nextRow] at h
  | cons y rest ih =>
    intro m k h
    cases row with
    | nil => simp [nextRow] at h
    | cons above row =>
      have hj : b[j]? = some y.1 := by
        have := congrArg List.head? hrest
        rwa [List.map_cons, List.head?_cons, List.head?_drop, eq_comm] at this
      have htail : rest.map (·.1) = b.drop (j + 1) := by
        have := congrArg List.tail hrest
        rwa [List.map_cons, List.tail_cons, List.tail_drop] at this
      rw [nextRow] at h
      cases m with
      | zero =>
        rw [List.getElem?_cons_zero, Option.some.injEq] at h
        subst h
        split
        · next hxy =>
          have hxy : x = y.1 := beq_iff_eq.1 (Bool.and_eq_true_iff.1 hxy).2
          exact hdiagonal.succ hx (hxy ▸ hj)
        · exact endsAt_zero (List.getElem?_eq_some_iff.1 hx).1 (List.getElem?_eq_some_iff.1 hj).1
      | succ m =>
        rw [List.getElem?_cons_succ] at h
        rw [show j + (m + 1) + 1 = j + 1 + m + 1 by omega]
        refine ih htail (hrow 0 above rfl) (fun m' k' h' => ?_) m k h
        rw [show j + 1 + m' + 1 = j + (m' + 1) + 1 by omega]
        exact hrow (m' + 1) k' h'

omit [DecidableEq α] in
theorem common_bestInRow {i j : Nat} {best : Run} {row : List Nat} (hbest : best.Common a b)
    (hrow : ∀ m k, row[m]? = some k → EndsAt a b (i + 1) (j + m + 1) k) :
    (bestInRow i j best row).Common a b := by
  induction row generalizing j best with
  | nil => exact hbest
  | cons k row ih =>
    rw [bestInRow]
    refine ih ?_ fun m k' h => ?_
    · split
      · exact (hrow 0 k rfl).2.2
      · exact hbest
    · rw [show j + 1 + m + 1 = j + (m + 1) + 1 by omega]
      exact hrow (m + 1) k' h

theorem common_bestRun {b : List (α × Bool)} {i : Nat} {row : List Nat} {best : Run} {rest : List α}
    (hrest : rest = a.drop i) (hbest : best.Common a (b.map (·.1)))
    (hrow : ∀ m k, row[m]? = some k → EndsAt a (b.map (·.1)) i (m + 1) k) :
    (bestRun b i row best rest).Common a (b.map (·.1)) := by
  induction rest generalizing i row best with
  | nil => exact hbest
  | cons x rest ih =>
    have hx : a[i]? = some x := by
      have := congrArg List.head? hrest
      rwa [List.head?_cons, List.head?_drop, eq_comm] at this
    have htail : rest = a.drop (i + 1) := by
      have := congrArg List.tail hrest
      rwa [List.tail_cons, List.tail_drop] at this
    have hi : i ≤ a.length := Nat.le_of_lt (List.getElem?_eq_some_iff.1 hx).1
    have hnext : ∀ m k, (nextRow x 0 row b)[m]? = some k →
        EndsAt a (b.map (·.1)) (i + 1) (0 + m + 1) k :=
      endsAt_nextRow hx rfl (endsAt_zero hi (Nat.zero_le _)) fun m k h => by
        rw [Nat.zero_add]
        exact hrow m k h
    rw [bestRun]
    refine ih htail (common_bestInRow hbest hnext) fun m k h => ?_
    have := hnext m k h
    rwa [Nat.zero_add] at this

/-- What is taken for the longest run is common to both sequences. -/
theorem common_longestRun (a : List α) (b : List (α × Bool)) :
    (longestRun a b).Common a (b.map (·.1)) := by
  have hempty : Run.Common a (b.map (·.1)) ⟨0, 0, 0⟩ :=
    ⟨Nat.zero_le _, Nat.zero_le _, fun hn => absurd hn (Nat.not_lt_zero _)⟩
  have hrun : (bestRun b 0 (b.map fun _ => 0) ⟨0, 0, 0⟩ a).Common a (b.map (·.1)) := by
    refine common_bestRun rfl hempty fun m k h => ?_
    rw [List.getElem?_map] at h
    obtain ⟨y, hy, rfl⟩ := Option.map_eq_some_iff.1 h
    refine endsAt_zero (Nat.zero_le _) ?_
    rw [List.length_map]
    exact (List.getElem?_eq_some_iff.1 hy).1
  unfold longestRun
  dsimp only
  generalize bestRun b 0 (b.map fun _ => 0) ⟨0, 0, 0⟩ a = run at hrun
  generalize b.map (·.1) = items at hrun
  have hold := hrun.old_le
  have hnew := hrun.new_le
  -- lengthened backwards and ahead, as far as the items are equal
  have hback := common_commonPrefix (a.take run.old).reverse (items.take run.new).reverse
  have hahead := common_commonPrefix (a.drop (run.old + run.length))
    (items.drop (run.new + run.length))
  generalize commonPrefix (a.take run.old).reverse (items.take run.new).reverse = back at hback
  generalize commonPrefix (a.drop (run.old + run.length)) (items.drop (run.new + run.length)) =
    ahead at hahead
  have hbackOld := hback.old_le
  have hbackNew := hback.new_le
  have hback := hback.of_reverse.of_take
  have hahead := hahead.of_drop hold hnew
  simp only [List.length_reverse, List.length_take, Nat.zero_add] at hbackOld hbackNew hback
  have hboth := (hback.append hrun (by dsimp only; omega) (by dsimp only; omega)).append hahead
    (by dsimp only; omega) (by dsimp only; omega)
  dsimp only at hboth
  rwa [Nat.min_eq_left (by omega), Nat.min_eq_left (by omega), Nat.add_comm back] at hboth

/-! ## Ascending runs -/

/-- Runs that two sequences have in common, one behind the other in both, between the places `i` and
`j` and the places `i'` and `j'`. -/
def Ascends (a b : List α) (i j : Nat) (runs : List Run) (i' j' : Nat) : Prop :=
  match runs with
  | [] => i ≤ i' ∧ j ≤ j'
  | r :: rest => i ≤ r.old ∧ j ≤ r.new ∧ r.Common a b ∧
      Ascends a b (r.old + r.length) (r.new + r.length) rest i' j'

omit [DecidableEq α] in
theorem Ascends.append {i j i' j' : Nat} {runs rest : List Run}
    (h : Ascends a b i j runs r.old r.new) (hr : r.Common a b)
    (hrest : Ascends a b (r.old + r.length) (r.new + r.length) rest i' j') :
    Ascends a b i j (runs ++ r :: rest) i' j' := by
  induction runs generalizing i j with
  | nil => exact ⟨h.1, h.2, hr, hrest⟩
  | cons s runs ih => exact ⟨h.1, h.2.1, h.2.2.1, ih h.2.2.2⟩

theorem ascends_runsFrom {A B : List α} {depth i j : Nat} {a : List α} {b : List (α × Bool)}
    (hpart : ∀ r : Run, r.Common a (b.map (·.1)) →
      Run.Common A B ⟨i + r.old, j + r.new, r.length⟩) :
    Ascends A B i j (runsFrom depth i j a b) (i + a.length) (j + b.length) := by
  induction depth generalizing i j a b with
  | zero => exact ⟨Nat.le_add_right _ _, Nat.le_add_right _ _⟩
  | succ depth ih =>
    have hrun := common_longestRun a b
    rw [runsFrom]
    generalize longestRun a b = run at hrun
    have hold := hrun.old_le
    have hnew := hrun.new_le
    rw [List.length_map] at hnew
    split
    · exact ⟨Nat.le_add_right _ _, Nat.le_add_right _ _⟩
    · have hfront := ih (i := i) (j := j) (a := a.take run.old) (b := b.take run.new) fun r hr => by
        rw [List.map_take] at hr
        exact hpart r hr.of_take
      have hback := ih (i := i + run.old + run.length) (j := j + run.new + run.length)
        (a := a.drop (run.old + run.length)) (b := b.drop (run.new + run.length)) fun r hr => by
          rw [List.map_drop] at hr
          have := hpart _ (hr.of_drop hold (by rw [List.length_map]; exact hnew))
          simpa [Nat.add_assoc] using this
      rw [List.length_take_of_le (by omega), List.length_take_of_le (by omega)] at hfront
      rw [List.length_drop, List.length_drop,
        show i + run.old + run.length + (a.length - (run.old + run.length)) = i + a.length by omega,
        show j + run.new + run.length + (b.length - (run.new + run.length)) = j + b.length by
          omega] at hback
      exact hfront.append (hpart run hrun) hback

end

theorem ascends_joinRuns {i j i' j' : Nat} {rest : List Run}
    (h : Ascends a b i j (r :: rest) i' j') : Ascends a b i j (joinRuns r rest) i' j' := by
  induction rest generalizing r i j with
  | nil => exact h
  | cons s rest ih =>
    obtain ⟨hi, hj, hr, hle, hle', hs, hrest⟩ := h
    rw [joinRuns]
    split
    · next hmeets =>
      refine ih ⟨hi, hj, hr.append hs hmeets.1 hmeets.2, ?_⟩
      dsimp only
      rwa [← Nat.add_assoc, ← Nat.add_assoc, hmeets.1, hmeets.2]
    · exact ⟨hi, hj, hr, ih ⟨hle, hle', hs, hrest⟩⟩

section
variable [DecidableEq α]

/-- The runs of an alignment are common and ascend. -/
theorem ascends_align (a b : List α) : Ascends a b 0 0 (align a b) a.length b.length := by
  have hitems : (b.map fun y => (y, isAnchor b y)).map (·.1) = b := by
    rw [List.map_map]
    exact List.map_id b
  have hruns : Ascends a b 0 0 (runsFrom a.length 0 0 a (b.map fun y => (y, isAnchor b y)))
      (0 + a.length) (0 + (b.map fun y => (y, isAnchor b y)).length) := by
    refine ascends_runsFrom fun r hr => ?_
    rw [hitems] at hr
    rwa [Nat.zero_add, Nat.zero_add]
  rw [Nat.zero_add, Nat.zero_add, List.length_map] at hruns
  unfold align
  split
  · next hnil => rwa [hnil] at hruns
  · next r rest hcons =>
    rw [hcons] at hruns
    exact ascends_joinRuns hruns

end

/-! ## Stretches -/

/-- Two sequences hold the same `n` items from the places `i` and `j` on. -/
def Level (a b : List α) (i j n : Nat) : Prop := ∀ p < n, a[i + p]? = b[j + p]?

theorem Run.Common.level (h : r.Common a b) : Level a b r.old r.new r.length :=
  fun _ hp => h.getElem?_eq hp

/-- The stretch of `n` items from the places `i` and `j` on that are the same. -/
def Stretch.level (i j n : Nat) : Stretch := ⟨true, i, (i + n : Nat), j, (j + n : Nat)⟩

theorem same_level (i j n : Nat) : (Stretch.level i j n).same = true := rfl

/-- Stretches that follow one another without a gap from the places `i` and `j` to the places `i'`
and `j'`, and of which those called the same are. -/
inductive Tiles (a b : List α) : (i j : Nat) → List Stretch → (i' j' : Nat) → Prop
  | nil {i j : Nat} : Tiles a b i j [] i j
  | same {i j n i' j' : Nat} {rest : List Stretch} (hn : Level a b i j n)
      (hrest : Tiles a b (i + n) (j + n) rest i' j') :
      Tiles a b i j (.level i j n :: rest) i' j'
  | changed {i j k l i' j' : Nat} {rest : List Stretch} (hi : i ≤ k) (hj : j ≤ l)
      (hrest : Tiles a b k l rest i' j') :
      Tiles a b i j (⟨false, i, k, j, l⟩ :: rest) i' j'

theorem Tiles.append {i j k l i' j' : Nat} {front rest : List Stretch}
    (h : Tiles a b i j front k l) (hrest : Tiles a b k l rest i' j') :
    Tiles a b i j (front ++ rest) i' j' := by
  induction h with
  | nil => exact hrest
  | same hn _ ih => exact .same hn (ih hrest)
  | changed hi hj _ ih => exact .changed hi hj (ih hrest)

theorem tiles_gap {i i' j j' : Nat} (hi : i ≤ i') (hj : j ≤ j') :
    Tiles a b i j (gap i i' j j') i' j' := by
  unfold gap
  split
  · exact .changed hi hj .nil
  · next h =>
    rw [not_or] at h
    obtain rfl : i = i' := by omega
    obtain rfl : j = j' := by omega
    exact .nil

theorem tiles_stretchesFrom {i j : Nat} {runs : List Run}
    (h : Ascends a b i j runs a.length b.length) :
    Tiles a b i j (stretchesFrom a.length b.length i j runs) a.length b.length := by
  induction runs generalizing i j with
  | nil => exact tiles_gap h.1 h.2
  | cons r runs ih =>
    obtain ⟨hi, hj, hr, hrest⟩ := h
    exact (tiles_gap hi hj).append (.same hr.level (ih hrest))

/-- The stretches of two sequences tile both of them. -/
theorem tiles_stretches [DecidableEq α] (a b : List α) :
    Tiles a b 0 0 (stretches a b) a.length b.length :=
  tiles_stretchesFrom (ascends_align a b)

end BuildScript.Diff
