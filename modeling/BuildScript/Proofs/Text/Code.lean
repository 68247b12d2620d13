import BuildScript.Text.Literal
import BuildScript.Proofs.Text.Layout
/-!
# Code in its place

The code of a text is what is left of its lines without their comments and string literals. Here it
is taken with the offset of each character, so that braces of different lines can be counted
together and compared with offsets of the text. The places of the code increase, and so the code
between two offsets can be cut out at either.

Results:
* `map_snd_codeOfLine`: the code of a line, without its places.
* `code_cut`: the code in front of a line, on the line and behind it.
* `codeAfter_cons`: what comes behind a piece of code.
* `codeBetween_append`: the code between two offsets is cut at any offset between them.
-/
namespace BuildScript.Text

/-- A character with the offset that it stands at. -/
abbrev Placed := Nat × Char

/-- What is left of a text that begins at `offset` without its first `skip` characters and all
string literals behind them. -/
def keptFrom : (offset skip : Nat) → Text → List Placed
  | _, _, [] => []
  | offset, k + 1, _ :: s => keptFrom (offset + 1) k s
  | offset, 0, c :: s =>
    match if isQuote c then closeLiteral? c s else none with
    | some rest => keptFrom (offset + 1) (s.length - rest.length) s
    | none => (offset, c) :: keptFrom (offset + 1) 0 s

def codeOfLine (offset : Nat) (line : Text) : List Placed := keptFrom offset 0 (beforeComment line)

/-- The code of consecutive lines, the first of which begins at `offset`. -/
def codeFrom : (offset : Nat) → List Text → List Placed
  | _, [] => []
  | offset, l :: ls => codeOfLine offset l ++ codeFrom (offset + l.length + 1) ls

def code (s : Text) : List Placed := codeFrom 0 (lines s)

def codeAfter (s : Text) (i : Nat) : List Placed := (code s).filter fun x => i ≤ x.1

def codeBetween (s : Text) (i j : Nat) : List Placed :=
  (codeAfter s i).filter fun x => x.1 < j

/-- The line that an offset falls on, lines counting from zero. -/
def lineNumber (s : Text) (i : Nat) : Nat := (s.take i).count '\n'

/-! ## One line -/

theorem map_snd_keptFrom (offset skip : Nat) (s : Text) :
    (keptFrom offset skip s).map Prod.snd = outsideLiteralsFrom skip s := by
  induction s generalizing offset skip with
  | nil => cases skip <;> rfl
  | cons c s ih =>
    cases skip with
    | succ skip => exact ih (offset + 1) skip
    | zero =>
      rw [keptFrom, outsideLiteralsFrom]
      cases if isQuote c then closeLiteral? c s else none with
      | some rest => exact ih _ _
      | none => exact congrArg (c :: ·) (ih _ _)

/-- The code of a line, without its places. -/
theorem map_snd_codeOfLine (offset : Nat) (line : Text) :
    (codeOfLine offset line).map Prod.snd = codePortion line :=
  map_snd_keptFrom offset 0 (beforeComment line)

theorem exists_of_mem_keptFrom {offset skip : Nat} {s : Text} {x : Placed}
    (h : x ∈ keptFrom offset skip s) : ∃ i, x.1 = offset + i ∧ s[i]? = some x.2 := by
  induction s generalizing offset skip with
  | nil => cases skip <;> cases h
  | cons c s ih =>
    have hrest {skip : Nat} (h : x ∈ keptFrom (offset + 1) skip s) :
        ∃ i, x.1 = offset + i ∧ (c :: s)[i]? = some x.2 := by
      obtain ⟨i, hi, hx⟩ := ih h
      exact ⟨i + 1, by omega, by rwa [List.getElem?_cons_succ]⟩
    cases skip with
    | succ skip => exact hrest h
    | zero =>
      rw [keptFrom] at h
      split at h
      · exact hrest h
      · rcases List.mem_cons.1 h with rfl | h
        · exact ⟨0, rfl, rfl⟩
        · exact hrest h

theorem pairwise_keptFrom (offset skip : Nat) (s : Text) :
    (keptFrom offset skip s).Pairwise fun x y => x.1 < y.1 := by
  induction s generalizing offset skip with
  | nil => cases skip <;> exact List.Pairwise.nil
  | cons c s ih =>
    cases skip with
    | succ skip => exact ih (offset + 1) skip
    | zero =>
      rw [keptFrom]
      split
      · exact ih _ _
      · refine List.pairwise_cons.2 ⟨fun y hy => ?_, ih _ _⟩
        obtain ⟨i, hi, -⟩ := exists_of_mem_keptFrom hy
        omega

theorem exists_of_mem_codeOfLine {offset : Nat} {l : Text} {x : Placed}
    (h : x ∈ codeOfLine offset l) : ∃ i, x.1 = offset + i ∧ l[i]? = some x.2 := by
  obtain ⟨i, hi, hx⟩ := exists_of_mem_keptFrom h
  refine ⟨i, hi, ?_⟩
  unfold beforeComment at hx
  split at hx
  · rw [List.getElem?_take] at hx
    split at hx
    · exact hx
    · cases hx
  · exact hx

theorem bounds_of_mem_codeOfLine {offset : Nat} {l : Text} {x : Placed}
    (h : x ∈ codeOfLine offset l) : offset ≤ x.1 ∧ x.1 < offset + l.length := by
  obtain ⟨i, hi, hx⟩ := exists_of_mem_codeOfLine h
  obtain ⟨hlt, -⟩ := List.getElem?_eq_some_iff.1 hx
  omega

/-! ## Lines -/

theorem codeFrom_append (offset : Nat) (ls ms : List Text) : codeFrom offset (ls ++ ms) =
    codeFrom offset ls ++ codeFrom (offset + (terminated ls).length) ms := by
  induction ls generalizing offset with
  | nil => rfl
  | cons l ls ih =>
    have hlength : offset + (terminated (l :: ls)).length =
        offset + l.length + 1 + (terminated ls).length := by
      simp only [terminated_cons, List.length_append, List.length_cons]
      omega
    rw [List.cons_append, codeFrom, codeFrom, ih, hlength, List.append_assoc]

theorem bounds_of_mem_codeFrom {offset : Nat} {ls : List Text} {x : Placed}
    (h : x ∈ codeFrom offset ls) : offset ≤ x.1 ∧ x.1 < offset + (terminated ls).length := by
  induction ls generalizing offset with
  | nil => cases h
  | cons l ls ih =>
    simp only [terminated_cons, List.length_append, List.length_cons]
    rcases List.mem_append.1 h with h | h
    · have := bounds_of_mem_codeOfLine h
      omega
    · have := ih h
      omega

theorem pairwise_codeFrom (offset : Nat) (ls : List Text) :
    (codeFrom offset ls).Pairwise fun x y => x.1 < y.1 := by
  induction ls generalizing offset with
  | nil => exact List.Pairwise.nil
  | cons l ls ih =>
    refine List.pairwise_append.2 ⟨pairwise_keptFrom _ _ _, ih _, fun x hx y hy => ?_⟩
    have := bounds_of_mem_codeOfLine hx
    have := bounds_of_mem_codeFrom hy
    omega

/-! ## The code of a text -/

section
variable {s l : Text} {k i j m : Nat} {x : Placed}

theorem pairwise_code (s : Text) : (code s).Pairwise fun x y => x.1 < y.1 :=
  pairwise_codeFrom 0 (lines s)

theorem codeFrom_drop (h : (lines s)[k]? = some l) :
    codeFrom (lineStart s k) ((lines s).drop k) = codeOfLine (lineStart s k) l ++
      codeFrom (lineStart s (k + 1)) ((lines s).drop (k + 1)) := by
  obtain ⟨hk, rfl⟩ := List.getElem?_eq_some_iff.1 h
  rw [List.drop_eq_getElem_cons hk, codeFrom]
  by_cases hlast : k + 1 < (lines s).length
  · rw [lineStart_succ h hlast]
  · rw [List.drop_eq_nil_of_le (Nat.le_of_not_lt hlast)]
    rfl

theorem codeFrom_take_succ (h : (lines s)[k]? = some l) : codeFrom 0 ((lines s).take (k + 1)) =
    codeFrom 0 ((lines s).take k) ++ codeOfLine (lineStart s k) l := by
  obtain ⟨hk, rfl⟩ := List.getElem?_eq_some_iff.1 h
  rw [List.take_succ_eq_append_getElem hk, codeFrom_append, Nat.zero_add, ← lineStart_eq hk,
    codeFrom, codeFrom, List.append_nil]

/-- The code in front of a line, on the line and behind it. -/
theorem code_cut (h : (lines s)[k]? = some l) : code s = codeFrom 0 ((lines s).take k) ++
    (codeOfLine (lineStart s k) l ++
      codeFrom (lineStart s (k + 1)) ((lines s).drop (k + 1))) := by
  obtain ⟨hk, -⟩ := List.getElem?_eq_some_iff.1 h
  have hcode := codeFrom_append 0 ((lines s).take k) ((lines s).drop k)
  rwa [List.take_append_drop, Nat.zero_add, ← lineStart_eq hk, codeFrom_drop h] at hcode

theorem exists_append_of_line (h : (lines s)[k]? = some l) :
    ∃ t, s = terminated ((lines s).take k) ++ (l ++ t) := by
  rcases text_split h with ⟨-, e⟩ | ⟨-, e⟩
  · exact ⟨_, by rw [← List.append_assoc]; exact e⟩
  · exact ⟨[], by rw [List.append_nil]; exact e⟩

/-- The code of a text is that of its lines. -/
theorem exists_line_of_mem_code (h : x ∈ code s) :
    ∃ k l, (lines s)[k]? = some l ∧ x ∈ codeOfLine (lineStart s k) l := by
  have hall : ∀ k, x ∈ codeFrom (lineStart s k) ((lines s).drop k) →
      ∃ k l, (lines s)[k]? = some l ∧ x ∈ codeOfLine (lineStart s k) l := by
    intro k hmem
    induction hn : (lines s).length - k generalizing k with
    | zero =>
      rw [List.drop_eq_nil_of_le (by omega)] at hmem
      cases hmem
    | succ n ih =>
      have hline := List.getElem?_eq_getElem (l := lines s) (i := k) (by omega)
      rw [codeFrom_drop hline] at hmem
      rcases List.mem_append.1 hmem with hmem | hmem
      · exact ⟨k, _, hline, hmem⟩
      · exact ih (k + 1) hmem (by omega)
  exact hall 0 h

theorem count_terminated {ls : List Text} (h : ∀ l ∈ ls, '\n' ∉ l) :
    (terminated ls).count '\n' = ls.length := by
  induction ls with
  | nil => rfl
  | cons l ls ih =>
    have hl := List.count_eq_zero.2 (h l List.mem_cons_self)
    have ih := ih fun m hm => h m (List.mem_cons_of_mem l hm)
    simp only [terminated_cons, List.count_append, List.count_cons_self, hl, ih, List.length_cons]
    omega

theorem lineNumber_lineStart_add (h : (lines s)[k]? = some l) (hi : i ≤ l.length) :
    lineNumber s (lineStart s k + i) = k := by
  have hk : k < (lines s).length := (List.getElem?_eq_some_iff.1 h).1
  obtain ⟨t, ht⟩ := exists_append_of_line h
  have hlf : '\n' ∉ l.take i := fun hmem =>
    not_mem_of_mem_lines (List.mem_of_getElem? h) (List.mem_of_mem_take hmem)
  have hfront : s.take (lineStart s k + i) = terminated ((lines s).take k) ++ l.take i := by
    have htake := congrArg (List.take (lineStart s k + i)) ht
    rwa [lineStart_eq hk, List.take_length_add_append, List.take_append_of_le_length hi,
      ← lineStart_eq hk] at htake
  rw [lineNumber, hfront, List.count_append, List.count_eq_zero.2 hlf, Nat.add_zero,
    count_terminated fun m hm => not_mem_of_mem_lines (List.mem_of_mem_take hm),
    List.length_take]
  omega

theorem lineNumber_of_mem_codeOfLine (h : (lines s)[k]? = some l)
    (hx : x ∈ codeOfLine (lineStart s k) l) : lineNumber s x.1 = k := by
  obtain ⟨i, hi, hchar⟩ := exists_of_mem_codeOfLine hx
  obtain ⟨hlt, -⟩ := List.getElem?_eq_some_iff.1 hchar
  rw [hi]
  exact lineNumber_lineStart_add h (Nat.le_of_lt hlt)

theorem lineNumber_le (s : Text) (h : i ≤ j) : lineNumber s i ≤ lineNumber s j :=
  (List.take_sublist_take_left h).count_le '\n'

/-- The line that a piece of code is on starts in front of it. -/
theorem lineStart_lineNumber_le (h : x ∈ code s) :
    lineNumber s x.1 < (lines s).length ∧ lineStart s (lineNumber s x.1) ≤ x.1 := by
  obtain ⟨k, l, hline, hmem⟩ := exists_line_of_mem_code h
  rw [lineNumber_of_mem_codeOfLine hline hmem]
  exact ⟨(List.getElem?_eq_some_iff.1 hline).1, (bounds_of_mem_codeOfLine hmem).1⟩

/-- What is on an earlier line stands in front of the start of a line. -/
theorem lt_lineStart_of_lineNumber_lt (hk : k < (lines s).length) (h : lineNumber s i < k) :
    i < lineStart s k := by
  refine Nat.lt_of_not_le fun hle => ?_
  have hmono := lineNumber_le s hle
  have hstart := lineNumber_lineStart_add (List.getElem?_eq_getElem hk) (Nat.zero_le _)
  rw [Nat.add_zero] at hstart
  omega

/-! ## Cuts -/

theorem filter_append_left {p : Placed → Bool} {u v : List Placed} (hu : ∀ x ∈ u, p x = true)
    (hv : ∀ x ∈ v, p x = false) : (u ++ v).filter p = u := by
  have hnone : v.filter p = [] := List.filter_eq_nil_iff.2 fun x hx => by rw [hv x hx]; decide
  rw [List.filter_append, List.filter_eq_self.2 hu, hnone, List.append_nil]

theorem filter_append_right {p : Placed → Bool} {u v : List Placed} (hu : ∀ x ∈ u, p x = false)
    (hv : ∀ x ∈ v, p x = true) : (u ++ v).filter p = v := by
  have hnone : u.filter p = [] := List.filter_eq_nil_iff.2 fun x hx => by rw [hu x hx]; decide
  rw [List.filter_append, List.filter_eq_self.2 hv, hnone, List.nil_append]

theorem filter_append_filter {l : List Placed} (h : l.Pairwise fun x y => x.1 < y.1) (m : Nat) :
    (l.filter fun x => x.1 < m) ++ (l.filter fun x => m ≤ x.1) = l := by
  induction l with
  | nil => rfl
  | cons x l ih =>
    obtain ⟨hx, hl⟩ := List.pairwise_cons.1 h
    by_cases hm : x.1 < m
    · rw [List.filter_cons_of_pos (by simpa using hm), List.filter_cons_of_neg (by simpa using hm),
        List.cons_append, ih hl]
    · have hnone : (x :: l).filter (fun y => decide (y.1 < m)) = [] := by
        refine List.filter_eq_nil_iff.2 fun y hy => ?_
        rw [decide_eq_true_eq]
        rcases List.mem_cons.1 hy with rfl | hy
        · exact hm
        · have := hx y hy
          omega
      have hall : (x :: l).filter (fun y => decide (m ≤ y.1)) = x :: l := by
        refine List.filter_eq_self.2 fun y hy => decide_eq_true ?_
        rcases List.mem_cons.1 hy with rfl | hy
        · omega
        · have := hx y hy
          omega
      rw [hnone, hall, List.nil_append]

theorem codeAfter_zero (s : Text) : codeAfter s 0 = code s :=
  List.filter_eq_self.2 fun _ _ => decide_eq_true (Nat.zero_le _)

theorem pairwise_codeAfter (s : Text) (i : Nat) :
    (codeAfter s i).Pairwise fun x y => x.1 < y.1 :=
  (pairwise_code s).sublist List.filter_sublist

theorem codeAfter_of_cut {u v : List Placed} (h : code s = u ++ v) (hu : ∀ x ∈ u, x.1 < i)
    (hv : ∀ x ∈ v, i ≤ x.1) : codeAfter s i = v := by
  rw [codeAfter, h]
  refine filter_append_right (fun x hx => ?_) fun x hx => decide_eq_true (hv x hx)
  have := hu x hx
  exact decide_eq_false (by omega)

theorem codeAfter_filter (hij : i ≤ j) :
    (codeAfter s i).filter (fun x => j ≤ x.1) = codeAfter s j := by
  rw [codeAfter, codeAfter, List.filter_filter]
  refine List.filter_congr fun x _ => ?_
  rw [← Bool.decide_and, decide_eq_decide]
  omega

/-- What stands in front of a piece of code, and the code from it on. -/
theorem codeBetween_of_codeAfter {u v : List Placed} (hij : i ≤ x.1)
    (h : codeAfter s i = u ++ x :: v) : codeBetween s i x.1 = u ∧ codeAfter s x.1 = x :: v := by
  have hpair := pairwise_codeAfter s i
  rw [h] at hpair
  obtain ⟨-, hrest, hcross⟩ := List.pairwise_append.1 hpair
  have hu : ∀ y ∈ u, y.1 < x.1 := fun y hy => hcross y hy x List.mem_cons_self
  have hv : ∀ y ∈ x :: v, x.1 ≤ y.1 := by
    intro y hy
    rcases List.mem_cons.1 hy with rfl | hy
    · exact Nat.le_refl _
    · exact Nat.le_of_lt ((List.pairwise_cons.1 hrest).1 y hy)
  constructor
  · rw [codeBetween, h]
    refine filter_append_left (fun y hy => decide_eq_true (hu y hy)) fun y hy => ?_
    have := hv y hy
    exact decide_eq_false (by omega)
  · rw [← codeAfter_filter hij, h]
    refine filter_append_right (fun y hy => ?_) fun y hy => decide_eq_true (hv y hy)
    have := hu y hy
    exact decide_eq_false (by omega)

/-- Behind a piece of code comes the code from the next offset on. -/
theorem codeAfter_cons (h : x ∈ code s) : codeAfter s x.1 = x :: codeAfter s (x.1 + 1) := by
  obtain ⟨u, v, hcut⟩ := List.append_of_mem h
  have hfront := codeAfter_zero s
  rw [hcut] at hfront
  obtain ⟨-, hrest⟩ := codeBetween_of_codeAfter (Nat.zero_le _) hfront
  have hpair := pairwise_codeAfter s x.1
  rw [hrest] at hpair
  have hbehind := (List.pairwise_cons.1 hpair).1
  rw [hrest, ← codeAfter_filter (Nat.le_succ x.1), hrest,
    List.filter_cons_of_neg (by simp), List.filter_eq_self.2]
  exact fun y hy => decide_eq_true (hbehind y hy)

theorem codeBetween_cons (h : x ∈ code s) (hj : x.1 < j) :
    codeBetween s x.1 j = x :: codeBetween s (x.1 + 1) j := by
  rw [codeBetween, codeAfter_cons h, List.filter_cons_of_pos (by simpa using hj), codeBetween]

/-- The code from an offset on is cut at any later offset. -/
theorem codeBetween_append_codeAfter (hij : i ≤ j) :
    codeBetween s i j ++ codeAfter s j = codeAfter s i := by
  rw [← codeAfter_filter hij]
  exact filter_append_filter (pairwise_codeAfter s i) j

/-- The code between two offsets is cut at any offset between them. -/
theorem codeBetween_append (him : i ≤ m) (hmj : m ≤ j) :
    codeBetween s i m ++ codeBetween s m j = codeBetween s i j := by
  have hpair : (codeBetween s i j).Pairwise fun x y => x.1 < y.1 :=
    (pairwise_codeAfter s i).sublist List.filter_sublist
  have hfront : (codeBetween s i j).filter (fun x => x.1 < m) = codeBetween s i m := by
    rw [codeBetween, codeBetween, List.filter_filter]
    refine List.filter_congr fun x _ => ?_
    rw [← Bool.decide_and, decide_eq_decide]
    omega
  have hback : (codeBetween s i j).filter (fun x => m ≤ x.1) = codeBetween s m j := by
    rw [codeBetween, codeBetween, ← codeAfter_filter him, List.filter_filter, List.filter_filter]
    refine List.filter_congr fun x _ => ?_
    rw [← Bool.decide_and, ← Bool.decide_and, decide_eq_decide]
    omega
  rw [← hfront, ← hback]
  exact filter_append_filter hpair m

end

end BuildScript.Text
