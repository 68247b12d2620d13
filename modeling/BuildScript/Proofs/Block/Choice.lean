import BuildScript.Proofs.Block.Nesting
import Mathlib.Data.List.Forall2
/-!
# The block that is meant

Where a script opens a block several times, the opener at depth zero is meant, or else the first.
Depth here is a matter of the whole text: the braces opened in front of a place less those closed.
The search goes by lines. It sees the first opener of each line only, and counts the braces closed
in front of it on its own line as if they were open.

Results:
* `openers_forall₂`: the openers that the search sees, and the depths that it gives them.
* `target?_eq`: the opener that is chosen, told by offsets and depths in the text.
* `target?_eq_meant?`: when it is the one that is meant.
* `closingLine_eq`: the closing line is that of the brace that matches the chosen opener's.
-/
namespace BuildScript.Block

open Text

/-! ## Openers in a text -/

/-- The places in a piece of code that open a block, the piece being behind the character
`before`. -/
def openersIn (block : Text) : (before : Option Char) → List Placed → List Nat
  | _, [] => []
  | before, x :: s =>
    if (readOpener? block before ((x :: s).map Prod.snd)).isSome then
      x.1 :: openersIn block (some x.2) s
    else openersIn block (some x.2) s

/-- The places that open a block on consecutive lines, the first of which begins at `offset`. -/
def openersByLine (block : Text) : (offset : Nat) → List Text → List (List Nat)
  | _, [] => []
  | offset, l :: ls =>
    openersIn block none (codeOfLine offset l) :: openersByLine block (offset + l.length + 1) ls

/-- All places in a text that open a block. -/
def places (block text : Text) : List Nat := (openersByLine block 0 (lines text)).flatten

/-- The places that open a block as the first on their line. -/
def firsts (block text : Text) : List Nat :=
  (openersByLine block 0 (lines text)).filterMap List.head?

/-- The number of braces opened in front of a place less those closed. -/
def depthAt (text : Text) (p : Nat) : Int :=
  opened (codeBetween text 0 p) - closed (codeBetween text 0 p)

/-- The number of braces closed in front of a place on its own line. -/
def closedInLine (text : Text) (p : Nat) : Nat :=
  closed (codeBetween text (lineStart text (lineNumber text p)) p)

/-- The opener that is meant: the first at depth zero, or else the first of all. -/
def meant? (block text : Text) : Option Nat :=
  ((places block text).find? fun p => depthAt text p = 0).or (places block text).head?

/-- The place of an opener in a text. -/
def Opener.place (text : Text) (opener : Opener) : Nat :=
  ((codeOfLine (lineStart text opener.line) ((lines text).getD opener.line []))[opener.column]?.map
    Prod.fst).getD 0

/-- The place of the opener that is chosen. -/
def target? (block text : Text) : Option Nat :=
  (choose? (openers block (lines text))).map (Opener.place text)

/-- The place at which the block opened at `p` is closed. -/
def closes? (text : Text) (p : Nat) : Option Nat := closeFrom? [] (codeAfter text p)

/-! ## One line -/

section
variable {block : Text} {before : Option Char} {s : List Placed}

theorem openersIn_of_search_none {offset : Nat}
    (h : search (readOpener? block) before offset (s.map Prod.snd) = none) :
    openersIn block before s = [] := by
  induction s generalizing before offset with
  | nil => rfl
  | cons x s ih =>
    rw [List.map_cons, search] at h
    rw [openersIn, List.map_cons]
    split at h
    · cases h
    · next hnone =>
      rw [hnone]
      exact ih h

theorem openersIn_of_search {offset : Nat} {found : Found Unit}
    (h : search (readOpener? block) before offset (s.map Prod.snd) = some found) :
    ∃ u x v b, s = u ++ x :: v ∧ found.start = offset + u.length ∧
      (openersIn block before s).head? = some x.1 ∧
      (readOpener? block b ((x :: v).map Prod.snd)).isSome := by
  induction s generalizing before offset with
  | nil => cases h
  | cons x s ih =>
    rw [List.map_cons, search] at h
    rw [openersIn, List.map_cons]
    split at h
    · next hread =>
      cases h
      refine ⟨[], x, s, before, rfl, rfl, ?_, ?_⟩
      · rw [hread]
        rfl
      · rw [List.map_cons, hread]
        rfl
    · next hnone =>
      obtain ⟨u, y, v, b, rfl, hstart, hhead, hread⟩ := ih h
      refine ⟨x :: u, y, v, b, rfl, ?_, ?_, hread⟩
      · rw [hstart, List.length_cons]
        omega
      · rw [hnone]
        exact hhead

end

/-! ## Places and depths -/

/-- An opener that the search sees, its place in the text, and the depth that it is given. -/
def Opener.StandsAt (block text : Text) (opener : Opener) (p : Nat) : Prop :=
  ∃ l u x v b, (lines text)[opener.line]? = some l ∧
    codeOfLine (lineStart text opener.line) l = u ++ x :: v ∧ u.length = opener.column ∧
    x.1 = p ∧ (readOpener? block b ((x :: v).map Prod.snd)).isSome ∧
    opener.depth = depthAt text p + closedInLine text p

section
variable {block text l : Text} {k p : Nat} {u v : List Placed} {x : Placed}

theorem codeBetween_of_line (hline : (lines text)[k]? = some l)
    (h : codeOfLine (lineStart text k) l = u ++ x :: v) :
    codeBetween text 0 x.1 = codeFrom 0 ((lines text).take k) ++ u ∧
    codeBetween text (lineStart text k) x.1 = u ∧
    codeAfter text x.1 = (x :: v) ++ codeFrom (lineStart text (k + 1)) ((lines text).drop (k + 1)) ∧
    lineNumber text x.1 = k := by
  have hk : k < (lines text).length := (List.getElem?_eq_some_iff.1 hline).1
  have hx : x ∈ codeOfLine (lineStart text k) l := by
    rw [h]
    exact List.mem_append_right u List.mem_cons_self
  have hcode := code_cut hline
  rw [h, List.append_assoc] at hcode
  have hfront : ∀ y ∈ codeFrom 0 ((lines text).take k), y.1 < lineStart text k := by
    intro y hy
    have := bounds_of_mem_codeFrom hy
    rw [lineStart_eq hk]
    omega
  have hback : ∀ y ∈ u ++ (x :: v ++ codeFrom (lineStart text (k + 1)) ((lines text).drop (k + 1))),
      lineStart text k ≤ y.1 := by
    intro y hy
    rw [← List.append_assoc, ← h, ← codeFrom_drop hline] at hy
    exact (bounds_of_mem_codeFrom hy).1
  have hafter := codeAfter_of_cut hcode hfront hback
  have hzero : codeAfter text 0 = (codeFrom 0 ((lines text).take k) ++ u) ++ x ::
      (v ++ codeFrom (lineStart text (k + 1)) ((lines text).drop (k + 1))) := by
    rw [codeAfter_zero, hcode]
    simp
  obtain ⟨hbetween, hrest⟩ := codeBetween_of_codeAfter (bounds_of_mem_codeOfLine hx).1 hafter
  exact ⟨(codeBetween_of_codeAfter (Nat.zero_le _) hzero).1, hbetween, hrest,
    lineNumber_of_mem_codeOfLine hline hx⟩

theorem openersByLine_drop (hline : (lines text)[k]? = some l) :
    openersByLine block (lineStart text k) ((lines text).drop k) =
      openersIn block none (codeOfLine (lineStart text k) l) ::
        openersByLine block (lineStart text (k + 1)) ((lines text).drop (k + 1)) := by
  obtain ⟨hk, rfl⟩ := List.getElem?_eq_some_iff.1 hline
  rw [List.drop_eq_getElem_cons hk, openersByLine]
  by_cases hlast : k + 1 < (lines text).length
  · rw [lineStart_succ hline hlast]
  · rw [List.drop_eq_nil_of_le (Nat.le_of_not_lt hlast)]
    rfl

/-- The openers that the search sees are those that come first on their lines. -/
theorem openersFrom_forall₂ (block text : Text) (k : Nat) (depth : Int)
    (hdepth : depth = opened (codeFrom 0 ((lines text).take k)) -
      closed (codeFrom 0 ((lines text).take k))) :
    List.Forall₂ (Opener.StandsAt block text) (openersFrom block k depth ((lines text).drop k))
      ((openersByLine block (lineStart text k) ((lines text).drop k)).filterMap List.head?) := by
  induction hn : (lines text).length - k generalizing k depth with
  | zero =>
    rw [List.drop_eq_nil_of_le (by omega)]
    exact List.Forall₂.nil
  | succ n ih =>
    have hk : k < (lines text).length := by omega
    have hline : (lines text)[k]? = some (lines text)[k] := List.getElem?_eq_getElem hk
    have hcount (c : Char) : (codePortion (lines text)[k]).count c =
        ((codeOfLine (lineStart text k) (lines text)[k]).map Prod.snd).count c := by
      rw [map_snd_codeOfLine]
    have hlater := ih (k + 1) (depth + (codePortion (lines text)[k]).count '\x7b' -
      (codePortion (lines text)[k]).count '\x7d') (by
        rw [codeFrom_take_succ hline, opened_append, closed_append, hdepth, hcount, hcount]
        simp only [opened, closed]
        omega) (by omega)
    rw [openersByLine_drop hline, List.drop_eq_getElem_cons hk, openersFrom]
    cases hfound : searchIn (readOpener? block) (codePortion (lines text)[k]) with
    | none =>
      rw [searchIn, ← map_snd_codeOfLine (lineStart text k)] at hfound
      rw [openersIn_of_search_none hfound]
      exact hlater
    | some found =>
      rw [searchIn, ← map_snd_codeOfLine (lineStart text k)] at hfound
      obtain ⟨u, x, v, b, hcut, hstart, hhead, hread⟩ := openersIn_of_search hfound
      rw [Nat.zero_add] at hstart
      rw [List.filterMap_cons_some hhead]
      refine List.Forall₂.cons ⟨_, u, x, v, b, hline, hcut, hstart.symm, rfl, hread, ?_⟩ hlater
      obtain ⟨hfront, hbetween, -, hnumber⟩ := codeBetween_of_line hline hcut
      have htake : ((codePortion (lines text)[k]).take found.start).count '\x7b' = opened u := by
        rw [← map_snd_codeOfLine (lineStart text k), hcut, hstart, List.map_append,
          List.take_append_of_le_length (by simp), List.take_of_length_le (by simp), opened]
      show depth + _ = _
      rw [htake, depthAt, closedInLine, hnumber, hfront, hbetween, hdepth, opened_append,
        closed_append]
      omega

/-- The openers that the search sees, the depths that it gives them, and where they stand. -/
theorem openers_forall₂ (block text : Text) : List.Forall₂ (Opener.StandsAt block text)
    (openers block (lines text)) (firsts block text) :=
  openersFrom_forall₂ block text 0 0 rfl

theorem Opener.StandsAt.place_eq {opener : Opener} (h : opener.StandsAt block text p) :
    opener.place text = p := by
  obtain ⟨l, u, x, v, b, hline, hcut, hcolumn, rfl, -⟩ := h
  rw [Opener.place, List.getD_eq_getElem?_getD, hline, Option.getD_some, hcut, ← hcolumn,
    List.getElem?_append_right (Nat.le_refl _), Nat.sub_self]
  rfl

/-- The code from an opener on: the rest of its line, in which the search begins, and the lines
behind. -/
theorem Opener.StandsAt.codeAfter_eq {opener : Opener} (h : opener.StandsAt block text p) : ∃ s,
    codeAfter text p = s ++
      codeFrom (lineStart text (opener.line + 1)) ((lines text).drop (opener.line + 1)) ∧
    (codePortion ((lines text).getD opener.line [])).drop opener.column = s.map Prod.snd ∧
    lineNumber text p = opener.line ∧ ∀ y ∈ s, lineNumber text y.1 = opener.line := by
  obtain ⟨l, u, x, v, b, hline, hcut, hcolumn, rfl, -⟩ := h
  obtain ⟨-, -, hafter, hnumber⟩ := codeBetween_of_line hline hcut
  refine ⟨x :: v, hafter, ?_, hnumber, fun y hy => lineNumber_of_mem_codeOfLine hline ?_⟩
  · rw [List.getD_eq_getElem?_getD, hline, Option.getD_some,
      ← map_snd_codeOfLine (lineStart text opener.line), hcut, ← hcolumn, List.map_append,
      List.drop_left' (by simp)]
  · rw [hcut]
    exact List.mem_append_right u hy

end

/-! ## The choice -/

section
variable {block text : Text}

theorem filterMap_head?_sublist (ls : List (List Nat)) :
    (ls.filterMap List.head?).Sublist ls.flatten := by
  induction ls with
  | nil => exact List.Sublist.refl _
  | cons l ls ih =>
    cases l with
    | nil => exact ih
    | cons a l => exact (ih.trans (List.sublist_append_right l ls.flatten)).cons_cons a

theorem head?_filterMap_head? (ls : List (List Nat)) :
    (ls.filterMap List.head?).head? = ls.flatten.head? := by
  induction ls with
  | nil => rfl
  | cons l ls ih =>
    cases l with
    | nil => exact ih
    | cons a l => rfl

theorem firsts_sublist (block text : Text) : (firsts block text).Sublist (places block text) :=
  filterMap_head?_sublist _

theorem openersIn_sublist (block : Text) (before : Option Char) (s : List Placed) :
    (openersIn block before s).Sublist (s.map Prod.fst) := by
  induction s generalizing before with
  | nil => exact List.Sublist.refl _
  | cons x s ih =>
    rw [openersIn, List.map_cons]
    split
    · exact (ih _).cons_cons x.1
    · exact (ih _).cons x.1

theorem nodup_places (block text : Text) : (places block text).Nodup := by
  have hsublist (offset : Nat) (ls : List Text) :
      (openersByLine block offset ls).flatten.Sublist ((codeFrom offset ls).map Prod.fst) := by
    induction ls generalizing offset with
    | nil => exact List.Sublist.refl _
    | cons l ls ih =>
      rw [openersByLine, codeFrom, List.flatten_cons, List.map_append]
      exact (openersIn_sublist _ _ _).append (ih _)
  have hpair : ((code text).map Prod.fst).Pairwise (· < ·) :=
    List.pairwise_map.2 (pairwise_code text)
  exact (hpair.sublist (hsublist 0 (lines text))).imp Nat.ne_of_lt

theorem choose?_of_forall₂ {openers : List Opener} {ps : List Nat}
    (h : List.Forall₂ (Opener.StandsAt block text) openers ps) :
    (choose? openers).map (Opener.place text) =
      (ps.find? fun p => depthAt text p + closedInLine text p = 0).or ps.head? := by
  have hfind : (openers.find? (·.depth = 0)).map (Opener.place text) =
      ps.find? fun p => depthAt text p + closedInLine text p = 0 := by
    induction h with
    | nil => rfl
    | @cons opener p openers ps hstands _ ih =>
      have hdepth : opener.depth = depthAt text p + closedInLine text p := by
        obtain ⟨_, _, _, _, _, -, -, -, -, -, hdepth⟩ := hstands
        exact hdepth
      rw [List.find?_cons, List.find?_cons, hdepth]
      split
      · exact congrArg some hstands.place_eq
      · exact ih
  have hhead : openers.head?.map (Opener.place text) = ps.head? := by
    cases h with
    | nil => rfl
    | cons hstands _ => exact congrArg some hstands.place_eq
  rw [choose?, Option.map_or, hfind, hhead]

/-- The opener that is chosen: the first on its line at depth zero, the braces closed in front of it
on the line taken for open, or else the first of all. -/
theorem target?_eq (block text : Text) : target? block text =
    ((firsts block text).find? fun p => depthAt text p + closedInLine text p = 0).or
      (places block text).head? := by
  rw [target?, choose?_of_forall₂ (openers_forall₂ block text)]
  exact congrArg _ (head?_filterMap_head? _)

theorem find?_of_sublist {l' l : List Nat} (h : l'.Sublist l) (hnodup : l.Nodup) {p q : Nat → Bool}
    (hp : ∀ x ∈ l, p x = true → x ∈ l' ∧ q x = true) (hq : ∀ x ∈ l', q x = true → p x = true) :
    l'.find? q = l.find? p := by
  induction h with
  | slnil => rfl
  | @cons l' l a h ih =>
    obtain ⟨ha, hnodup⟩ := List.nodup_cons.1 hnodup
    have hpa : ¬ p a = true := fun hpa => ha (h.subset (hp a List.mem_cons_self hpa).1)
    rw [List.find?_cons_of_neg hpa]
    exact ih hnodup (fun x hx => hp x (List.mem_cons_of_mem a hx)) hq
  | @cons_cons l' l a h ih =>
    obtain ⟨ha, hnodup⟩ := List.nodup_cons.1 hnodup
    by_cases hpa : p a = true
    · rw [List.find?_cons_of_pos hpa,
        List.find?_cons_of_pos (hp a List.mem_cons_self hpa).2]
    · have hqa : ¬ q a = true := fun hqa => hpa (hq a List.mem_cons_self hqa)
      rw [List.find?_cons_of_neg hpa, List.find?_cons_of_neg hqa]
      refine ih hnodup (fun x hx hpx => ?_) fun x hx => hq x (List.mem_cons_of_mem a hx)
      obtain ⟨hmem, hqx⟩ := hp x (List.mem_cons_of_mem a hx) hpx
      rcases List.mem_cons.1 hmem with rfl | hmem
      · exact absurd hx ha
      · exact ⟨hmem, hqx⟩

/-- Every opener at depth zero comes first on its line, without a closing brace in front of it
there, and no other opener is taken for one at depth zero. -/
structure Plain (block text : Text) : Prop where
  first : ∀ p ∈ places block text, depthAt text p = 0 → p ∈ firsts block text
  unclosed : ∀ p ∈ places block text, depthAt text p = 0 → closedInLine text p = 0
  deep : ∀ p ∈ firsts block text, depthAt text p + closedInLine text p = 0 → depthAt text p = 0

/-- In such a text the opener that is meant is chosen. -/
theorem target?_eq_meant? (h : Plain block text) : target? block text = meant? block text := by
  rw [target?_eq, meant?]
  congr 1
  refine find?_of_sublist (firsts_sublist block text) (nodup_places block text) ?_ ?_
  · intro p hp hzero
    have hzero := of_decide_eq_true hzero
    refine ⟨h.first p hp hzero, decide_eq_true ?_⟩
    rw [hzero, h.unclosed p hp hzero]
    rfl
  · intro p hp hlevel
    exact decide_eq_true (h.deep p hp (of_decide_eq_true hlevel))

/-! ## The closing line -/

theorem exists_standsAt_of_mem {openers : List Opener} {ps : List Nat} {opener : Opener}
    (h : List.Forall₂ (Opener.StandsAt block text) openers ps) (hmem : opener ∈ openers) :
    ∃ p, opener.StandsAt block text p := by
  induction h with
  | nil => cases hmem
  | cons hstands _ ih =>
    rcases List.mem_cons.1 hmem with rfl | hmem
    · exact ⟨_, hstands⟩
    · exact ih hmem

theorem choose?_mem {openers : List Opener} {opener : Opener} (h : choose? openers = some opener) :
    opener ∈ openers := by
  rcases Option.or_eq_some_iff.1 h with h | ⟨-, h⟩
  · exact List.mem_of_find?_eq_some h
  · exact List.mem_of_mem_head? h

/-- The line in front of which an addition goes: the one on which the block of the chosen opener is
closed, unless that is the line it is opened on. -/
theorem closingLine_eq (block text : Text) : closingLine block (lines text) =
    match target? block text with
    | none => .error (.blockMissing block)
    | some o =>
      match closes? text o with
      | none => .error (.blockUnclosed block (lineNumber text o + 1))
      | some q =>
        if lineNumber text q = lineNumber text o then
          .error (.blockOnOneLine block (lineNumber text o + 1))
        else .ok (lineNumber text q) := by
  unfold closingLine target?
  cases hchoice : choose? (openers block (lines text)) with
  | none => rfl
  | some opener =>
    obtain ⟨p, hstands⟩ := exists_standsAt_of_mem (openers_forall₂ block text) (choose?_mem hchoice)
    obtain ⟨s, hafter, hopening, hnumber, hs⟩ := hstands.codeAfter_eq
    have hcloses : closes? text p = (closeFrom? [] s).or (closeFrom? (nested [] s)
        (codeFrom (lineStart text (opener.line + 1)) ((lines text).drop (opener.line + 1)))) := by
      rw [closes?, hafter, closeFrom?_append]
    rw [Option.map_some, hstands.place_eq]
    dsimp only
    rw [hopening, hnumber, show openBraces? 0 _ = _ from openBraces?_eq [] s, hcloses]
    cases hclose : closeFrom? [] s with
    | some q =>
      have hq : lineNumber text q = opener.line := hs _ (mem_of_closeFrom? hclose)
      simp [hq]
    | none =>
      have hrest := closingFrom?_eq text (opener.line + 1) (nested [] s)
      simp only [Option.isNone_none, if_true, Option.none_or]
      rw [hrest]
      cases hlater : closeFrom? (nested [] s) (codeFrom (lineStart text (opener.line + 1))
          ((lines text).drop (opener.line + 1))) with
      | none => rfl
      | some q =>
        have hlt := (closingFrom?_bounds (hrest.trans (by rw [hlater]; rfl))).1
        have hne : lineNumber text q ≠ opener.line := by omega
        rw [Option.map_some]
        dsimp only
        rw [if_neg hne]

end

end BuildScript.Block
