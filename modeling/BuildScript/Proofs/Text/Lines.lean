import BuildScript.Text.Lines
/-!
# Texts cut at line feeds

Whoever reads a text line by line cuts it behind every line feed. Texts that stand one behind the
other are read again as they were put there if each is a line that is closed by a line feed; only
the last may be left open. A line that is open and has a neighbour behind it is glued to it.

Results:
* `flatten_feedLines`: the lines of a text are the text.
* `feedLines_flatten_append`: closed lines in front are read again.
* `length_feedLines_flatten_iff`: as many lines are read as were put there exactly if no line but
  the last is open.
* `isLine_displayLines`: a display line holds no line feed but at its end.
-/
namespace BuildScript.Text

/-- A text cut behind every line feed. -/
def feedLines : Text → List Text
  | [] => []
  | c :: s =>
    if c = '\n' then [c] :: feedLines s
    else
      match feedLines s with
      | [] => [[c]]
      | l :: ls => (c :: l) :: ls

/-- A piece of a text that holds no line feed but at its end. -/
structure IsLine (l : Text) : Prop where
  ne_nil : l ≠ []
  not_mem_dropLast : '\n' ∉ l.dropLast

/-- A line that ends in a line feed. -/
def Closed (l : Text) : Prop := l.getLast? = some '\n'

instance (l : Text) : Decidable (Closed l) := inferInstanceAs (Decidable (_ = _))

theorem closed_append_feed (w : Text) : Closed (w ++ ['\n']) := by simp [Closed]

theorem closed_cons {l : Text} (h : Closed l) (c : Char) : Closed (c :: l) := by
  rw [Closed, List.getLast?_cons, h, Option.getD_some]

theorem isLine_append_feed {w : Text} (hw : '\n' ∉ w) : IsLine (w ++ ['\n']) :=
  ⟨by simp, by simpa using hw⟩

theorem isLine_cons {c : Char} {l : Text} (hc : c ≠ '\n') (h : IsLine l) : IsLine (c :: l) := by
  refine ⟨List.cons_ne_nil c l, ?_⟩
  rw [List.dropLast_cons_of_ne_nil h.ne_nil, List.mem_cons, not_or]
  exact ⟨hc.symm, h.not_mem_dropLast⟩

theorem IsLine.eq_append_of_closed {l : Text} (h : IsLine l) (hclosed : Closed l) :
    ∃ w, '\n' ∉ w ∧ l = w ++ ['\n'] := by
  obtain ⟨w, rfl⟩ := List.getLast?_eq_some_iff.1 hclosed
  exact ⟨w, by simpa using h.not_mem_dropLast, rfl⟩

theorem IsLine.not_mem_of_open {l : Text} (h : IsLine l) (hopen : ¬ Closed l) : '\n' ∉ l := by
  intro hmem
  rw [← List.dropLast_concat_getLast h.ne_nil, List.mem_append, List.mem_singleton] at hmem
  rcases hmem with hmem | hlast
  · exact h.not_mem_dropLast hmem
  · exact hopen (by rw [Closed, List.getLast?_eq_some_getLast h.ne_nil, ← hlast])

/-! ## Lines that are read -/

/-- The lines of a text are the text. -/
theorem flatten_feedLines (s : Text) : (feedLines s).flatten = s := by
  fun_induction feedLines s with
  | case1 => rfl
  | case2 s ih => simp [ih]
  | case3 c s hc hs ih => simpa [hs] using ih
  | case4 c s hc l ls hs ih => simpa [hs] using ih

theorem feedLines_append_feed {w : Text} (hw : '\n' ∉ w) (s : Text) :
    feedLines (w ++ '\n' :: s) = (w ++ ['\n']) :: feedLines s := by
  induction w with
  | nil => simp [feedLines]
  | cons c w ih =>
    rw [List.mem_cons, not_or] at hw
    rw [List.cons_append, feedLines, if_neg (Ne.symm hw.1), ih hw.2]
    rfl

/-- What holds no line feed is part of the first line behind it. -/
theorem feedLines_append_open {w s l : Text} {ls : List Text} (hw : '\n' ∉ w)
    (hs : feedLines s = l :: ls) : feedLines (w ++ s) = (w ++ l) :: ls := by
  induction w with
  | nil => exact hs
  | cons c w ih =>
    rw [List.mem_cons, not_or] at hw
    rw [List.cons_append, feedLines, if_neg (Ne.symm hw.1), ih hw.2]
    rfl

theorem feedLines_open {w : Text} (hw : '\n' ∉ w) (hne : w ≠ []) : feedLines w = [w] := by
  induction w with
  | nil => exact absurd rfl hne
  | cons c w ih =>
    rw [List.mem_cons, not_or] at hw
    rw [feedLines, if_neg (Ne.symm hw.1)]
    cases w with
    | nil => rfl
    | cons d w => rw [ih hw.2 (List.cons_ne_nil d w)]

/-! ## Lines that stand one behind the other -/

/-- Closed lines in front are read again. -/
theorem feedLines_flatten_append {ls : List Text} (hls : ∀ l ∈ ls, IsLine l)
    (hclosed : ∀ l ∈ ls, Closed l) (s : Text) :
    feedLines (ls.flatten ++ s) = ls ++ feedLines s := by
  induction ls with
  | nil => rfl
  | cons l ls ih =>
    rw [List.forall_mem_cons] at hls hclosed
    obtain ⟨w, hw, rfl⟩ := hls.1.eq_append_of_closed hclosed.1
    have hrest := ih hls.2 hclosed.2
    rw [List.flatten_cons, List.append_assoc, List.append_assoc, List.singleton_append,
      feedLines_append_feed hw, hrest]
    rfl

theorem feedLines_flatten {ls : List Text} (hls : ∀ l ∈ ls, IsLine l)
    (hclosed : ∀ l ∈ ls.dropLast, Closed l) : feedLines ls.flatten = ls := by
  rcases List.eq_nil_or_concat ls with rfl | ⟨front, last, rfl⟩
  · rfl
  · rw [List.concat_eq_append] at hls hclosed ⊢
    rw [List.dropLast_concat] at hclosed
    rw [List.forall_mem_append, List.forall_mem_singleton] at hls
    rw [List.flatten_append, List.flatten_singleton, feedLines_flatten_append hls.1 hclosed]
    congr 1
    by_cases hlast : Closed last
    · obtain ⟨w, hw, rfl⟩ := hls.2.eq_append_of_closed hlast
      exact feedLines_append_feed hw []
    · exact feedLines_open (hls.2.not_mem_of_open hlast) hls.2.ne_nil

theorem eq_nil_of_feedLines {ls : List Text} (hls : ∀ l ∈ ls, IsLine l)
    (h : feedLines ls.flatten = []) : ls = [] := by
  cases ls with
  | nil => rfl
  | cons l ls =>
    have hflat := flatten_feedLines (l :: ls).flatten
    rw [h, List.flatten_nil, eq_comm, List.flatten_cons, List.append_eq_nil_iff] at hflat
    exact absurd hflat.1 (hls l List.mem_cons_self).ne_nil

/-- No more lines are read than were put there, and fewer if a line in front of the last is open. -/
theorem length_feedLines_flatten {ls : List Text} (hls : ∀ l ∈ ls, IsLine l) :
    (feedLines ls.flatten).length ≤ ls.length ∧
      ((feedLines ls.flatten).length = ls.length → ∀ l ∈ ls.dropLast, Closed l) := by
  induction ls with
  | nil => exact ⟨Nat.le_refl _, fun _ l hl => absurd hl (by simp)⟩
  | cons l ls ih =>
    rw [List.forall_mem_cons] at hls
    obtain ⟨hle, hall⟩ := ih hls.2
    rw [List.flatten_cons]
    by_cases hl : Closed l
    · obtain ⟨w, hw, rfl⟩ := hls.1.eq_append_of_closed hl
      rw [List.append_assoc, List.singleton_append, feedLines_append_feed hw, List.length_cons,
        List.length_cons]
      refine ⟨Nat.succ_le_succ hle, fun h => ?_⟩
      have hrest := hall (Nat.succ.inj h)
      cases ls with
      | nil => exact fun l hl => absurd hl (by simp)
      | cons m ls =>
        rw [List.dropLast_cons_of_ne_nil (List.cons_ne_nil m ls), List.forall_mem_cons]
        exact ⟨hl, hrest⟩
    · have hopen := hls.1.not_mem_of_open hl
      cases hread : feedLines ls.flatten with
      | nil =>
        -- nothing is behind the open line, so it is the last
        obtain rfl := eq_nil_of_feedLines hls.2 hread
        rw [List.flatten_nil, List.append_nil, feedLines_open hopen hls.1.ne_nil]
        exact ⟨Nat.le_refl _, fun _ l hl => absurd hl (by simp)⟩
      | cons m ms =>
        rw [hread] at hle
        rw [feedLines_append_open hopen hread]
        simp only [List.length_cons] at hle ⊢
        exact ⟨by omega, fun h => by omega⟩

/-- As many lines are read as were put there exactly if no line but the last is open. -/
theorem length_feedLines_flatten_iff {ls : List Text} (hls : ∀ l ∈ ls, IsLine l) :
    (feedLines ls.flatten).length = ls.length ↔ ∀ l ∈ ls.dropLast, Closed l :=
  ⟨(length_feedLines_flatten hls).2, fun h => by rw [feedLines_flatten hls h]⟩

/-! ## Display lines -/

/-- A display line holds no line feed but at its end. -/
theorem isLine_displayLines (s : Text) : ∀ line ∈ displayLines s, IsLine line := by
  fun_induction displayLines s with
  | case1 => exact fun _ h => absurd h List.not_mem_nil
  | case2 s ih =>
    rw [List.forall_mem_cons]
    exact ⟨⟨by simp, by decide⟩, ih⟩
  | case3 c s _ hc ih =>
    rw [List.forall_mem_cons]
    exact ⟨⟨by simp, by simp⟩, ih⟩
  | case4 c s _ hc hs ih =>
    rw [List.forall_mem_singleton]
    exact ⟨by simp, by simp⟩
  | case5 c s _ hc l ls hs ih =>
    have hfeed : c ≠ '\n' := by
      rintro rfl
      exact hc (by decide)
    rw [hs, List.forall_mem_cons] at ih
    rw [List.forall_mem_cons]
    exact ⟨isLine_cons hfeed ih.1, ih.2⟩

end BuildScript.Text
