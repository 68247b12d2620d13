import BuildScript.Proofs.Text.Layout
import BuildScript.Proofs.Text.Scan
/-!
# The line that an offset falls on

A line can be found in four ways: by cutting the text at its line feeds, by listing the offsets
behind them, by looking an offset up among these, and by searching from an offset to both sides.
They come to the same line for every offset. One on a line feed falls on the line that it ends, one
at the end of the text on the last line, which may be empty, and one outside the text on the line at
the nearer end.

Results:
* `lt_countP_iff`: what is looked up among starts in order is the last one not beyond the offset.
* `lineIndexAt_spec`: the line that is looked up is there, and the offset is on it.
* `lineBounds_of_cut`: a search to both sides stops at the ends of the line.
* `exists_lineFound`: all four ways come to one line.
-/
namespace BuildScript.Text

variable {s l u v : Text} {offset : Int} {k : Nat}

/-! ## Looking up an offset -/

/-- If what satisfies `p` comes first in a list, an item satisfies `p` just when its index is less
than the number of those that do. -/
theorem lt_countP_iff {α : Type} {p : α → Bool} {xs : List α}
    (h : xs.Pairwise fun a b => p b = true → p a = true) (hk : k < xs.length) :
    k < xs.countP p ↔ p xs[k] = true := by
  induction xs generalizing k with
  | nil => exact absurd hk (Nat.not_lt_zero k)
  | cons x xs ih =>
    obtain ⟨hfirst, hrest⟩ := List.pairwise_cons.1 h
    by_cases hx : p x = true
    · rw [List.countP_cons_of_pos hx]
      cases k with
      | zero => exact iff_of_true (Nat.succ_pos _) hx
      | succ k =>
        rw [Nat.succ_lt_succ_iff, List.getElem_cons_succ]
        exact ih hrest (Nat.lt_of_succ_lt_succ hk)
    · have hnone : xs.countP p = 0 :=
        List.countP_eq_zero.2 fun y hy hpy => hx (hfirst y hy hpy)
      rw [List.countP_cons_of_neg hx, hnone]
      refine iff_of_false (Nat.not_lt_zero k) ?_
      cases k with
      | zero => exact hx
      | succ k => exact fun hpk => hx (hfirst _ (List.getElem_mem _) hpk)

theorem getElem_lineStarts (hk : k < (lineStarts s).length) :
    (lineStarts s)[k] = lineStart s k := by
  have hline : k < (lines s).length := by rwa [← length_lineStarts]
  exact (List.getElem_eq_iff hk).2 (getElem?_lineStarts hline).1

theorem lt_countP_lineStarts_iff (hk : k < (lines s).length) (offset : Int) :
    k < (lineStarts s).countP (fun (start : Nat) => decide ((start : Int) ≤ offset)) ↔
      (lineStart s k : Int) ≤ offset := by
  have hk' : k < (lineStarts s).length := by rwa [length_lineStarts]
  have hsorted : (lineStarts s).Pairwise fun (a b : Nat) =>
      decide ((b : Int) ≤ offset) = true → decide ((a : Int) ≤ offset) = true := by
    refine List.pairwise_iff_getElem.2 fun i j hi hj hij => ?_
    have hlt := lineStart_lt hij (by rwa [← length_lineStarts])
    rw [getElem_lineStarts, getElem_lineStarts, decide_eq_true_iff, decide_eq_true_iff]
    omega
  rw [lt_countP_iff hsorted hk', getElem_lineStarts, decide_eq_true_iff]

/-- The line that is looked up is a line of the text, and the offset is on it when it is moved to
the nearer end of the text. -/
theorem lineIndexAt_spec (s : Text) (offset : Int) :
    ∃ l, (lines s)[lineIndexAt (lineStarts s) offset]? = some l ∧
      lineStart s (lineIndexAt (lineStarts s) offset) ≤ clamp s offset ∧
      clamp s offset ≤ lineStart s (lineIndexAt (lineStarts s) offset) + l.length := by
  have hcounted (k : Nat) (hk : k < (lines s).length) := lt_countP_lineStarts_iff hk offset
  have hcount := List.countP_le_length (l := lineStarts s)
    (p := fun (start : Nat) => decide ((start : Int) ≤ offset))
  have hpos := length_lines_pos s
  rw [length_lineStarts] at hcount
  unfold lineIndexAt
  generalize (lineStarts s).countP (fun (start : Nat) => decide ((start : Int) ≤ offset)) = n
    at hcount hcounted
  obtain ⟨l, hline⟩ : ∃ l, (lines s)[n - 1]? = some l :=
    ⟨_, List.getElem?_eq_getElem (by omega)⟩
  refine ⟨l, hline, ?_, ?_⟩
  · cases n with
    | zero => exact Nat.zero_le _
    | succ n =>
      -- the last of the starts that are counted
      have hstart := (hcounted n (by omega)).1 (Nat.lt_succ_self n)
      have hend := lineStart_add_length_le hline
      rw [Nat.add_sub_cancel] at hend ⊢
      unfold clamp
      omega
  · by_cases hlast : n - 1 + 1 = (lines s).length
    · rw [lineStart_add_length_last hline hlast]
      exact Nat.min_le_right _ _
    · -- the first of the starts that are not
      have hnext := lineStart_succ hline (by omega)
      have hbeyond := (hcounted (n - 1 + 1) (by omega)).not.1 (by omega)
      unfold clamp
      omega

/-! ## Searching to both sides -/

theorem takeWhile_line (hl : '\n' ∉ l) (hv : v = [] ∨ ∃ w, v = '\n' :: w) :
    (l ++ v).takeWhile (· != '\n') = l := by
  have hall : ∀ c ∈ l, (c != '\n') = true := by
    intro c hc
    rw [bne_iff_ne]
    rintro rfl
    exact hl hc
  rcases hv with rfl | ⟨w, rfl⟩
  · rw [List.append_nil, List.takeWhile_eq_self_iff.2 hall]
  · exact takeWhile_of_all hall rfl w

/-- A search from an offset on a line to both sides stops at the ends of the line. -/
theorem lineBounds_of_cut (hs : s = u ++ l ++ v) (hu : u = [] ∨ ∃ w, u = w ++ ['\n'])
    (hv : v = [] ∨ ∃ w, v = '\n' :: w) (hl : '\n' ∉ l) (hfirst : u.length ≤ clamp s offset)
    (hlast : clamp s offset ≤ u.length + l.length) :
    lineBounds s offset = (u.length, u.length + l.length) := by
  obtain ⟨i, hi⟩ := Nat.exists_eq_add_of_le hfirst
  have hil : i ≤ l.length := by omega
  have hfront : s.take (u.length + i) = u ++ l.take i := by
    rw [hs, List.append_assoc, List.take_length_add_append, List.take_append_of_le_length hil]
  have hbehind : s.drop (u.length + i) = l.drop i ++ v := by
    rw [hs, List.append_assoc, List.drop_length_add_append, List.drop_append_of_le_length hil]
  have hback : (u ++ l.take i).reverse.takeWhile (· != '\n') = (l.take i).reverse := by
    rw [List.reverse_append]
    refine takeWhile_line (fun h => hl (List.mem_of_mem_take (List.mem_reverse.1 h))) ?_
    rcases hu with rfl | ⟨w, rfl⟩
    · exact Or.inl rfl
    · exact Or.inr ⟨w.reverse, List.reverse_concat⟩
  have hon : (l.drop i ++ v).takeWhile (· != '\n') = l.drop i :=
    takeWhile_line (fun h => hl (List.mem_of_mem_drop h)) hv
  unfold lineBounds
  dsimp only
  rw [hi, hfront, hbehind, hback, hon, List.length_reverse, List.length_take, List.length_drop,
    Prod.mk.injEq]
  omega

theorem terminated_eq_nil_or_feed (ls : List Text) :
    terminated ls = [] ∨ ∃ w, terminated ls = w ++ ['\n'] := by
  by_cases h : ls = []
  · exact Or.inl (terminated_eq_nil_iff.2 h)
  · exact Or.inr ⟨_, terminated_eq_joinWith h⟩

/-- From every offset on a line the same bounds are found, and between them the line. -/
theorem lineBounds_of_line (h : (lines s)[k]? = some l) (hfirst : lineStart s k ≤ clamp s offset)
    (hlast : clamp s offset ≤ lineStart s k + l.length) :
    lineBounds s offset = (lineStart s k, lineStart s k + l.length) ∧ lineAt s offset = l := by
  have hlf := not_mem_of_mem_lines (List.mem_of_getElem? h)
  obtain ⟨v, hs, hv⟩ : ∃ v, s = terminated ((lines s).take k) ++ l ++ v ∧
      (v = [] ∨ ∃ w, v = '\n' :: w) := by
    rcases text_split h with ⟨-, hs⟩ | ⟨-, hs⟩
    · exact ⟨_, hs, Or.inr ⟨_, rfl⟩⟩
    · exact ⟨[], by rwa [List.append_nil], Or.inl rfl⟩
  have hu := terminated_eq_nil_or_feed ((lines s).take k)
  rw [lineStart_eq (List.getElem?_eq_some_iff.1 h).1] at hfirst hlast ⊢
  generalize terminated ((lines s).take k) = u at hs hu hfirst hlast
  have hbounds := lineBounds_of_cut hs hu hv hlf hfirst hlast
  refine ⟨hbounds, ?_⟩
  rw [lineAt, hbounds, hs]
  exact drop_take_append u l v

theorem lineAt_mem_lines (s : Text) (offset : Int) : lineAt s offset ∈ lines s := by
  obtain ⟨l, hline, hfirst, hlast⟩ := lineIndexAt_spec s offset
  rw [(lineBounds_of_line hline hfirst hlast).2]
  exact List.mem_of_getElem? hline

/-! ## One line -/

/-- The line that an offset falls on, by its start and its text: the one that is looked up among
the starts, and the one that is searched for from the offset. -/
structure LineFound (s : Text) (offset : Int) (start : Nat) (line : Text) : Prop where
  start_eq : (lineStarts s)[lineIndexAt (lineStarts s) offset]? = some start
  line_eq : (lines s)[lineIndexAt (lineStarts s) offset]? = some line
  bounds : lineBounds s offset = (start, start + line.length)
  text : lineAt s offset = line
  first : (start : Int) ≤ max 0 (min offset s.length)
  last : max 0 (min offset s.length) ≤ start + line.length

/-- Every offset, in the text or not, falls on one line, however it is looked for. -/
theorem exists_lineFound (s : Text) (offset : Int) :
    (lineStarts s).length = (lines s).length ∧ ∃ start line, LineFound s offset start line := by
  obtain ⟨line, hline, hfirst, hlast⟩ := lineIndexAt_spec s offset
  have hindex := (List.getElem?_eq_some_iff.1 hline).1
  obtain ⟨hbounds, htext⟩ := lineBounds_of_line hline hfirst hlast
  have hclamp : max 0 (min offset (s.length : Int)) = clamp s offset := by
    unfold clamp
    omega
  refine
    ⟨length_lineStarts s, _, line, (getElem?_lineStarts hindex).1, hline, hbounds, htext, ?_, ?_⟩
  · rw [hclamp]
    exact Int.ofNat_le.2 hfirst
  · rw [hclamp]
    exact Int.ofNat_le.2 hlast

-- A line feed is on the line that it ends, and what is behind the text on the empty line there.
example : lineBounds "a\n".toList 1 = (0, 1) ∧ lineBounds "a\n".toList 9 = (2, 2) := by decide

end BuildScript.Text
