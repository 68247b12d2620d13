import BuildScript.Text.Lines
/-!
# The layout of a text in lines

Offsets and lines are two views of one text. `terminated` writes lines each with a line feed behind
it, which is what stands in front of a line that is not the first; `lineStart` is the length of
that part.

Results:
* `fields_intercalate`: fields without separators are read back from their join.
* `lineStart_eq`: a line starts behind the lines in front of it.
* `text_split`: a text is the lines in front of a line, the line, and what follows it.
-/
namespace BuildScript.Text

/-! ## Fields -/

theorem fields_of_not_mem {sep : Char} {f : Text} (h : sep ∉ f) : fields sep f = [f] := by
  induction f with
  | nil => rfl
  | cons c f ih =>
    rw [List.mem_cons, not_or] at h
    rw [fields, ih h.2]
    exact if_neg (Ne.symm h.1)

theorem fields_append {sep : Char} {f s : Text} (h : sep ∉ f) :
    fields sep (f ++ sep :: s) = f :: fields sep s := by
  induction f with
  | nil =>
    obtain ⟨g, gs, hg, hc⟩ := fields_cons sep sep s
    rw [List.nil_append, hc, if_pos rfl, hg]
  | cons c f ih =>
    rw [List.mem_cons, not_or] at h
    rw [List.cons_append, fields, ih h.2]
    exact if_neg (Ne.symm h.1)

theorem fields_append_sep (sep : Char) (s t : Text) :
    fields sep (s ++ sep :: t) = fields sep s ++ fields sep t := by
  induction s with
  | nil =>
    obtain ⟨f, fs, hf, hc⟩ := fields_cons sep sep t
    rw [List.nil_append, hc, if_pos rfl, hf]
    rfl
  | cons c s ih =>
    obtain ⟨f, fs, hf, hc⟩ := fields_cons sep c s
    rw [hf] at ih
    rw [List.cons_append, fields, ih, hc]
    dsimp only [List.cons_append]
    split <;> rfl

theorem not_mem_of_mem_fields {sep : Char} {f s : Text} (h : f ∈ fields sep s) : sep ∉ f := by
  induction s generalizing f with
  | nil => simp [fields] at h; simp [h]
  | cons c s ih =>
    obtain ⟨g, gs, hg, hc⟩ := fields_cons sep c s
    rw [hc] at h
    rw [hg] at ih
    split at h
    · rcases List.mem_cons.1 h with rfl | h
      · exact List.not_mem_nil
      · exact ih h
    · next hne =>
      rcases List.mem_cons.1 h with rfl | h
      · rw [List.mem_cons, not_or]
        exact ⟨Ne.symm hne, ih List.mem_cons_self⟩
      · exact ih (List.mem_cons_of_mem _ h)

/-- Fields without separators are read back from their join. -/
theorem fields_intercalate {sep : Char} {parts : List Text} (hne : parts ≠ [])
    (h : ∀ f ∈ parts, sep ∉ f) : fields sep (List.intercalate [sep] parts) = parts := by
  induction parts with
  | nil => exact absurd rfl hne
  | cons f parts ih =>
    have hf := h f List.mem_cons_self
    cases parts with
    | nil => rw [List.intercalate_singleton, fields_of_not_mem hf]
    | cons g gs =>
      rw [intercalate_cons_cons, List.append_assoc, List.singleton_append, fields_append hf,
        ih (List.cons_ne_nil g gs) fun x hx => h x (List.mem_cons_of_mem f hx)]

theorem mem_joinWith {c : Char} {sep : Text} {parts : List Text} (h : c ∈ joinWith sep parts) :
    c ∈ sep ∨ ∃ part ∈ parts, c ∈ part := by
  unfold joinWith at h
  induction parts with
  | nil => cases h
  | cons part parts ih =>
    cases parts with
    | nil =>
      rw [List.intercalate_singleton] at h
      exact Or.inr ⟨part, List.mem_cons_self, h⟩
    | cons next parts =>
      rw [intercalate_cons_cons, List.append_assoc, List.mem_append, List.mem_append] at h
      rcases h with h | h | h
      · exact Or.inr ⟨part, List.mem_cons_self, h⟩
      · exact Or.inl h
      · exact (ih h).imp_right fun ⟨p, hp, hc⟩ => ⟨p, List.mem_cons_of_mem _ hp, hc⟩

theorem drop_take_append (u m v : Text) :
    ((u ++ m ++ v).take (u.length + m.length)).drop u.length = m := by
  rw [← List.length_append, List.take_left, List.drop_left]

theorem slice_front (u w : Text) : slice (u ++ w) 0 u.length = u := by
  have h := slice_of_le (u ++ w) 0 u.length
  rwa [List.take_left] at h

theorem replace_middle (u m v new : Text) : (u ++ m ++ v).take u.length ++ new ++
    (u ++ m ++ v).drop (u.length + m.length) = u ++ new ++ v := by
  rw [← List.length_append, List.drop_left, List.append_assoc u m, List.take_left]

theorem exists_cut {s : Text} {i j : Nat} (hij : i ≤ j) (hj : j ≤ s.length) :
    ∃ u m v, s = u ++ m ++ v ∧ u.length = i ∧ (u ++ m).length = j ∧ m = (s.take j).drop i := by
  refine ⟨s.take i, (s.take j).drop i, s.drop j, ?_, ?_, ?_, rfl⟩
  · have : s.take i = (s.take j).take i := by rw [List.take_take, Nat.min_eq_left hij]
    rw [this, List.take_append_drop, List.take_append_drop]
  · rw [List.length_take]
    omega
  · rw [List.length_append, List.length_take, List.length_drop, List.length_take]
    omega

/-! ## Lines -/

/-- Lines, each with a line feed behind it. -/
def terminated (parts : List Text) : Text := parts.flatMap fun l => l ++ ['\n']

@[simp] theorem terminated_nil : terminated [] = [] := rfl

@[simp] theorem terminated_cons (l : Text) (ls : List Text) :
    terminated (l :: ls) = l ++ '\n' :: terminated ls := by simp [terminated]

@[simp] theorem terminated_append (ls ms : List Text) :
    terminated (ls ++ ms) = terminated ls ++ terminated ms := List.flatMap_append

theorem terminated_eq_nil_iff {ls : List Text} : terminated ls = [] ↔ ls = [] := by
  cases ls <;> simp

theorem joinWith_append (ls : List Text) {ms : List Text} (h : ms ≠ []) :
    joinWith ['\n'] (ls ++ ms) = terminated ls ++ joinWith ['\n'] ms := by
  induction ls with
  | nil => rfl
  | cons l ls ih =>
    obtain ⟨m, rest, hm⟩ := List.exists_cons_of_ne_nil (List.append_ne_nil_of_right_ne_nil ls h)
    rw [hm] at ih
    rw [List.cons_append, hm, terminated_cons, List.append_assoc, List.cons_append, ← ih]
    exact (intercalate_cons_cons _ _ _ _).trans (by simp [joinWith])

theorem joinWith_singleton (l : Text) : joinWith ['\n'] [l] = l := List.intercalate_singleton

theorem joinWith_concat (ls : List Text) (l : Text) :
    joinWith ['\n'] (ls ++ [l]) = terminated ls ++ l := by
  rw [joinWith_append ls (List.cons_ne_nil l []), joinWith_singleton]

theorem terminated_eq_joinWith {ls : List Text} (h : ls ≠ []) :
    terminated ls = joinWith ['\n'] ls ++ ['\n'] := by
  rcases List.eq_nil_or_concat ls with hnil | ⟨init, l, hconcat⟩
  · exact absurd hnil h
  · rw [hconcat, List.concat_eq_append, joinWith_concat]
    simp

theorem joinWith_lines (s : Text) : joinWith ['\n'] (lines s) = s := intercalate_fields '\n' s

theorem lines_joinWith {ls : List Text} (hne : ls ≠ []) (h : ∀ l ∈ ls, '\n' ∉ l) :
    lines (joinWith ['\n'] ls) = ls := fields_intercalate hne h

theorem lines_ne_nil (s : Text) : lines s ≠ [] := fields_ne_nil '\n' s

theorem length_lines_pos (s : Text) : 0 < (lines s).length :=
  List.length_pos_iff.2 (lines_ne_nil s)

theorem lines_append (s t : Text) : lines (s ++ '\n' :: t) = lines s ++ lines t :=
  fields_append_sep '\n' s t

theorem not_mem_of_mem_lines {l s : Text} (h : l ∈ lines s) : '\n' ∉ l := not_mem_of_mem_fields h

/-- A text of whole lines that may change places with a line is a repetition of that line. -/
theorem eq_replicate_of_commute {l x : Text} (hl : '\n' ∉ l)
    (hx : x = [] ∨ ∃ y, x = y ++ ['\n']) (h : l ++ '\n' :: x = x ++ l ++ ['\n']) :
    ∃ m, x = terminated (List.replicate m l) := by
  -- each turn takes one copy of the line off the front
  induction hn : x.length using Nat.strongRecOn generalizing x with
  | ind n ih =>
    subst hn
    rcases hx with rfl | ⟨y, rfl⟩
    · exact ⟨0, rfl⟩
    · have hsplit : (l ++ ['\n']) ++ (y ++ ['\n']) = (y ++ ['\n']) ++ (l ++ ['\n']) := by
        simpa using h
      have hle : (l ++ ['\n']).length ≤ (y ++ ['\n']).length := by
        refine Nat.le_of_not_lt fun hlt => ?_
        have hpre : y ++ ['\n'] <+: l ++ ['\n'] :=
          List.prefix_of_prefix_length_le ⟨_, rfl⟩ ⟨_, hsplit⟩ (Nat.le_of_lt hlt)
        have hpre : y ++ ['\n'] <+: l :=
          (List.prefix_concat_iff.1 hpre).resolve_left fun e => by
            rw [e] at hlt
            exact Nat.lt_irrefl _ hlt
        exact hl (hpre.subset (List.mem_append_right y List.mem_cons_self))
      obtain ⟨z, hz⟩ := List.prefix_of_prefix_length_le ⟨_, hsplit⟩ ⟨_, rfl⟩ hle
      have hz' : z = [] ∨ ∃ w, z = w ++ ['\n'] := by
        rcases List.eq_nil_or_concat z with hnil | ⟨w, c, hw⟩
        · exact Or.inl hnil
        · right
          rw [List.concat_eq_append] at hw
          rw [hw, ← List.append_assoc] at hz
          rw [hw, (List.append_inj' hz rfl).2]
          exact ⟨w, rfl⟩
      have hcomm : l ++ '\n' :: z = z ++ l ++ ['\n'] := by
        rw [← hz, List.append_assoc (l ++ ['\n']) z] at hsplit
        have := List.append_cancel_left hsplit
        simpa using this
      have hlen : z.length < (y ++ ['\n']).length := by
        have := congrArg List.length hz
        simp only [List.length_append, List.length_singleton] at this ⊢
        omega
      obtain ⟨m, hm⟩ := ih z.length hlen hz' hcomm rfl
      refine ⟨m + 1, ?_⟩
      rw [List.replicate_succ, terminated_cons, ← hm, ← hz]
      simp

theorem replicate_commute (l : Text) (m : Nat) :
    l ++ '\n' :: terminated (List.replicate m l) =
      terminated (List.replicate m l) ++ l ++ ['\n'] := by
  have h : terminated (List.replicate (m + 1) l) =
      terminated (List.replicate m l) ++ terminated [l] := by
    rw [List.replicate_succ', terminated_append]
  rw [List.replicate_succ, terminated_cons] at h
  simpa using h

/-! ## Starts -/

/-- The offset of the first character of a line, lines counting from zero. -/
def lineStart (s : Text) (k : Nat) : Nat := (lineStarts s).getD k 0

/-- The starts of consecutive lines, the first of which starts at `offset`. -/
def startsOf (offset : Nat) : List Text → List Nat
  | [] => []
  | l :: ls => offset :: startsOf (offset + l.length + 1) ls

theorem lineStartsFrom_eq (offset : Nat) (s : Text) :
    offset :: lineStartsFrom offset s = startsOf offset (lines s) := by
  induction s generalizing offset with
  | nil => rfl
  | cons c s ih =>
    obtain ⟨f, fs, hf, hc⟩ := fields_cons '\n' c s
    have ih := ih (offset + 1)
    rw [lines, hf, startsOf, List.cons.injEq] at ih
    rw [lines, hc, lineStartsFrom]
    split
    · rw [startsOf, startsOf, List.length_nil, ih.2]
    · rw [startsOf, ih.2, List.length_cons,
        show offset + 1 + f.length = offset + (f.length + 1) by omega]

theorem lineStarts_eq (s : Text) : lineStarts s = startsOf 0 (lines s) := lineStartsFrom_eq 0 s

theorem getElem?_startsOf (offset : Nat) {ls : List Text} {k : Nat} (h : k < ls.length) :
    (startsOf offset ls)[k]? = some (offset + (terminated (ls.take k)).length) := by
  induction ls generalizing offset k with
  | nil => exact absurd h (Nat.not_lt_zero k)
  | cons l ls ih =>
    cases k with
    | zero => rfl
    | succ k =>
      rw [startsOf, List.getElem?_cons_succ, ih _ (Nat.lt_of_succ_lt_succ h), List.take_succ_cons,
        terminated_cons, List.length_append, List.length_cons]
      congr 1
      omega

theorem getElem?_lineStarts {s : Text} {k : Nat} (h : k < (lines s).length) :
    (lineStarts s)[k]? = some (lineStart s k) ∧
      lineStart s k = (terminated ((lines s).take k)).length := by
  have := getElem?_startsOf 0 h
  rw [← lineStarts_eq, Nat.zero_add] at this
  have hs : lineStart s k = (terminated ((lines s).take k)).length := by
    rw [lineStart, List.getD_eq_getElem?_getD, this]
    rfl
  exact ⟨this.trans (congrArg some hs.symm), hs⟩

/-- A line starts behind the lines in front of it. -/
theorem lineStart_eq {s : Text} {k : Nat} (h : k < (lines s).length) :
    lineStart s k = (terminated ((lines s).take k)).length := (getElem?_lineStarts h).2

@[simp] theorem lineStart_zero (s : Text) : lineStart s 0 = 0 := rfl

theorem terminated_take_succ {ls : List Text} {k : Nat} {l : Text} (h : ls[k]? = some l) :
    terminated (ls.take (k + 1)) = terminated (ls.take k) ++ l ++ ['\n'] := by
  obtain ⟨hk, rfl⟩ := List.getElem?_eq_some_iff.1 h
  rw [List.take_succ_eq_append_getElem hk, terminated_append]
  simp

theorem terminated_take_feed {ls : List Text} {k : Nat} {l : Text} (h : ls[k]? = some l)
    (tail : Text) : terminated (ls.take k) ++ (l ++ '\n' :: tail) =
      terminated (ls.take (k + 1)) ++ tail := by
  rw [terminated_take_succ h]
  simp

theorem lineStart_succ {s : Text} {k : Nat} {l : Text} (h : (lines s)[k]? = some l)
    (hk : k + 1 < (lines s).length) : lineStart s (k + 1) = lineStart s k + l.length + 1 := by
  rw [lineStart_eq hk, terminated_take_succ h, lineStart_eq (by omega), List.length_append,
    List.length_append, List.length_singleton]

theorem lineStart_add_length_lt {s : Text} {j k : Nat} {l : Text} (h : (lines s)[j]? = some l)
    (hjk : j < k) (hk : k < (lines s).length) : lineStart s j + l.length < lineStart s k := by
  induction k with
  | zero => omega
  | succ k ih =>
    rcases Nat.lt_succ_iff_lt_or_eq.1 hjk with hlt | rfl
    · have ih := ih hlt (by omega)
      have := lineStart_succ (List.getElem?_eq_getElem (by omega : k < (lines s).length)) hk
      omega
    · have := lineStart_succ h hk
      omega

theorem lineStart_lt {s : Text} {j k : Nat} (hjk : j < k) (hk : k < (lines s).length) :
    lineStart s j < lineStart s k := by
  have := lineStart_add_length_lt
    (List.getElem?_eq_getElem (by omega : j < (lines s).length)) hjk hk
  omega

/-- A text is the lines in front of a line, and the others. -/
theorem terminated_take_append {s : Text} {k : Nat} (hk : k < (lines s).length) :
    terminated ((lines s).take k) ++ joinWith ['\n'] ((lines s).drop k) = s := by
  have hdrop : (lines s).drop k ≠ [] := mt List.drop_eq_nil_iff.1 (Nat.not_le_of_lt hk)
  rw [← joinWith_append _ hdrop, List.take_append_drop, joinWith_lines]

/-- A text is the lines in front of a line, the line, and what follows it. -/
theorem text_split {s : Text} {k : Nat} {l : Text} (h : (lines s)[k]? = some l) :
    (k + 1 < (lines s).length ∧ s = terminated ((lines s).take k) ++ l ++
      '\n' :: joinWith ['\n'] ((lines s).drop (k + 1))) ∨
    (k + 1 = (lines s).length ∧ s = terminated ((lines s).take k) ++ l) := by
  obtain ⟨hk, hl⟩ := List.getElem?_eq_some_iff.1 h
  have hdrop : (lines s).drop k = l :: (lines s).drop (k + 1) := by
    rw [List.drop_eq_getElem_cons hk, hl]
  have hs := (terminated_take_append hk).symm
  by_cases hlast : k + 1 < (lines s).length
  · left
    refine ⟨hlast, ?_⟩
    have hrest : (lines s).drop (k + 1) ≠ [] := by
      intro e
      have := congrArg List.length e
      rw [List.length_drop, List.length_nil] at this
      omega
    have hjoin := joinWith_append [l] hrest
    rw [List.singleton_append, ← hdrop, terminated_cons, terminated_nil] at hjoin
    rw [hjoin] at hs
    simpa using hs
  · right
    have hrest : (lines s).drop (k + 1) = [] := List.drop_eq_nil_of_le (by omega)
    rw [hdrop, hrest, joinWith_singleton] at hs
    exact ⟨by omega, hs⟩

theorem lineStart_add_length_le {s : Text} {k : Nat} {l : Text} (h : (lines s)[k]? = some l) :
    lineStart s k + l.length ≤ s.length := by
  rw [lineStart_eq (List.getElem?_eq_some_iff.1 h).1]
  rcases text_split h with ⟨-, e⟩ | ⟨-, e⟩ <;>
  · have := congrArg List.length e
    simp only [List.length_append] at this
    omega

theorem lineStart_add_length_last {s : Text} {k : Nat} {l : Text} (h : (lines s)[k]? = some l)
    (hk : k + 1 = (lines s).length) : lineStart s k + l.length = s.length := by
  rw [lineStart_eq (by omega)]
  rcases text_split h with ⟨hlt, -⟩ | ⟨-, e⟩
  · omega
  · rw [← List.length_append, ← e]

end BuildScript.Text
