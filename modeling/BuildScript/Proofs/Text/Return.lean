import BuildScript.Proofs.Text.Comment
/-!
# Texts with two characters at the end of a line

`crlf` puts a carriage return in front of every line feed. Lines end at line feeds only, so the
lines stay what they are but for the carriage return at the end of each but the last, which is what
`returned` says of a list of lines.

A carriage return at the end of a line is blank and no part of its code: the line has its comment at
the same place, and where quotation marks open and close literals does not change.

Results:
* `lines_crlf`, `joinWith_returned`: the lines of such a text, and the text of such lines.
* `codePortion_return`: the code of a line has the carriage return at its end, or not at all.
-/
namespace BuildScript.Text

/-- A text with a carriage return in front of every line feed. -/
def crlf (s : Text) : Text := s.flatMap fun c => if c = '\n' then ['\r', '\n'] else [c]

/-- Lines with a carriage return at the end of each but the last. -/
def returned : List Text → List Text
  | [] => []
  | [l] => [l]
  | l :: m :: ls => (l ++ ['\r']) :: returned (m :: ls)

/-- What a line may have at its end that is no matter to what it says. -/
def IsReturn (r : Text) : Prop := r = [] ∨ r = ['\r']

theorem IsReturn.blank {r : Text} (hr : IsReturn r) : ∀ c ∈ r, isBlank c = true := by
  rcases hr with rfl | rfl <;> simp [isBlank]

theorem IsReturn.drop {r : Text} (hr : IsReturn r) (n : Nat) : IsReturn (r.drop n) := by
  rcases hr with rfl | rfl
  · exact Or.inl List.drop_nil
  · cases n with
    | zero => exact Or.inr rfl
    | succ n => exact Or.inl List.drop_nil

/-! ## Lines -/

theorem returned_cons {ls : List Text} (h : ls ≠ []) (l : Text) :
    returned (l :: ls) = (l ++ ['\r']) :: returned ls := by
  obtain ⟨m, ms, rfl⟩ := List.exists_cons_of_ne_nil h
  rfl

@[simp] theorem length_returned (ls : List Text) : (returned ls).length = ls.length := by
  fun_induction returned ls with
  | case1 => rfl
  | case2 => rfl
  | case3 l m ls ih => simp [ih]

theorem returned_cons_head (c : Char) (f : Text) (fs : List Text) :
    ∃ g gs, returned (f :: fs) = g :: gs ∧ returned ((c :: f) :: fs) = (c :: g) :: gs := by
  cases fs with
  | nil => exact ⟨f, [], rfl, rfl⟩
  | cons m ms => exact ⟨f ++ ['\r'], returned (m :: ms), rfl, rfl⟩

/-- The lines of a text with carriage returns. -/
theorem lines_crlf (s : Text) : lines (crlf s) = returned (lines s) := by
  induction s with
  | nil => rfl
  | cons c s ih =>
    obtain ⟨f, fs, hf, hc⟩ := fields_cons '\n' c s
    have hs : lines s = f :: fs := hf
    have hline : lines (c :: s) = if c = '\n' then [] :: f :: fs else (c :: f) :: fs := hc
    rw [hline]
    by_cases h : c = '\n'
    · have hcrlf : crlf (c :: s) = ['\r'] ++ '\n' :: crlf s := by simp [crlf, h]
      rw [if_pos h, hcrlf, lines_append, ih, hs]
      rfl
    · have hcrlf : crlf (c :: s) = c :: crlf s := by simp [crlf, h]
      obtain ⟨g, gs, hg, hcg⟩ := returned_cons_head c f fs
      rw [if_neg h, hcg, hcrlf, lines, fields, show fields '\n' (crlf s) = g :: gs by
        rw [← hg, ← hs, ← ih]; rfl]
      exact if_neg h

theorem drop_returned (ls : List Text) (k : Nat) :
    (returned ls).drop k = returned (ls.drop k) := by
  fun_induction returned ls generalizing k with
  | case1 => simp [returned]
  | case2 l => cases k <;> simp [returned]
  | case3 l m ls ih =>
    cases k with
    | zero => rfl
    | succ k => simpa using ih k

theorem getElem?_returned (ls : List Text) (k : Nat) : (returned ls)[k]? =
    ls[k]?.map fun l => if k + 1 < ls.length then l ++ ['\r'] else l := by
  fun_induction returned ls generalizing k with
  | case1 => simp
  | case2 l => cases k <;> simp
  | case3 l m ls ih =>
    cases k with
    | zero => simp
    | succ k => simp [ih]

theorem getD_returned (ls : List Text) (k : Nat) :
    ∃ r, (returned ls).getD k [] = ls.getD k [] ++ r ∧ IsReturn r := by
  rw [List.getD_eq_getElem?_getD, List.getD_eq_getElem?_getD, getElem?_returned]
  cases ls[k]? with
  | none => exact ⟨[], rfl, Or.inl rfl⟩
  | some l =>
    rw [Option.map_some]
    split
    · exact ⟨['\r'], rfl, Or.inr rfl⟩
    · exact ⟨[], (List.append_nil l).symm, Or.inl rfl⟩

theorem joinWith_returned {ls : List Text} (hne : ls ≠ []) (h : ∀ l ∈ ls, '\n' ∉ l) :
    joinWith ['\n'] (returned ls) = crlf (joinWith ['\n'] ls) := by
  rw [← joinWith_lines (crlf (joinWith ['\n'] ls)), lines_crlf, lines_joinWith hne h]

/-! ## Code -/

theorem commentFrom_return (quote : Option Char) (offset : Nat) (s : Text) :
    commentFrom quote offset (s ++ ['\r']) = commentFrom quote offset s := by
  fun_induction commentFrom quote offset s with
  | case1 => rfl
  | case2 quote offset c =>
    cases quote with
    | none => by_cases h : isQuote c = true <;> simp [commentFrom, h]
    | some mark => by_cases h : c = '\\' <;> simp [commentFrom, h]
  | case3 offset d s mark ih =>
    simp only [List.cons_append, commentFrom, if_pos]
    exact ih
  | case4 offset c d s mark hc ih =>
    simp only [List.cons_append, commentFrom, if_neg hc]
    exact ih
  | case5 offset c d s hc ih =>
    simp only [List.cons_append, commentFrom, if_pos hc]
    exact ih
  | case6 offset c d s hc hslash =>
    simp only [List.cons_append, commentFrom, if_neg hc, if_pos hslash]
  | case7 offset c d s hc hslash ih =>
    simp only [List.cons_append, commentFrom, if_neg hc, if_neg hslash]
    exact ih

theorem trim_return {r : Text} (hr : IsReturn r) (s : Text) : trim (s ++ r) = trim s := by
  rw [trim, trim, trimLeft, List.dropWhile_append]
  split
  · next hs =>
    have hnil : trimLeft s = [] := List.isEmpty_iff.1 hs
    rw [hnil, List.dropWhile_eq_nil_iff.2 hr.blank]
  · exact trimRight_append_of_blank hr.blank _

theorem beforeComment_return {r : Text} (hr : IsReturn r) (s : Text) :
    ∃ r', beforeComment (s ++ r) = beforeComment s ++ r' ∧ IsReturn r' := by
  rcases hr with rfl | rfl
  · exact ⟨[], by simp, Or.inl rfl⟩
  · unfold beforeComment commentStart
    rw [commentFrom_return]
    cases h : commentFrom none 0 s with
    | none => exact ⟨['\r'], rfl, Or.inr rfl⟩
    | some i =>
      refine ⟨[], ?_, Or.inl rfl⟩
      have hlt : i + 1 < s.length := commentStart_lt h
      show (s ++ ['\r']).take i = s.take i ++ []
      rw [List.append_nil, List.take_append_of_le_length (by omega)]

theorem closeLiteral?_return {mark : Char} (hmark : isQuote mark = true) (s : Text) :
    closeLiteral? mark (s ++ ['\r']) = (closeLiteral? mark s).map (· ++ ['\r']) := by
  have hne : '\r' ≠ mark := by rcases isQuote_cases hmark with rfl | rfl <;> decide
  fun_induction closeLiteral? mark s with
  | case1 => simp [closeLiteral?, hne]
  | case2 => simp [closeLiteral?]
  | case3 c hc =>
    by_cases h : c = '\\'
    · subst h
      simp [closeLiteral?, hc]
    · simp [closeLiteral?, hc, h, hne]
  | case4 d s => simp [closeLiteral?]
  | case5 d hc => simp [closeLiteral?, hc]
  | case6 d s hc h ih => simpa [closeLiteral?, hc, h] using ih
  | case7 c d s hc h ih => simpa [closeLiteral?, hc, h] using ih

/-- Quotation marks open and close the same literals. -/
theorem outsideLiteralsFrom_return {skip : Nat} {s : Text} (hskip : skip ≤ s.length) :
    outsideLiteralsFrom skip (s ++ ['\r']) = outsideLiteralsFrom skip s ++ ['\r'] := by
  fun_induction outsideLiteralsFrom skip s with
  | case1 skip =>
    obtain rfl : skip = 0 := by simpa using hskip
    rfl
  | case2 k c s ih =>
    exact ih (by simpa using hskip)
  | case3 c s rest hrest ih =>
    have hlen : (s ++ ['\r']).length - (rest ++ ['\r']).length = s.length - rest.length := by
      simp only [List.length_append]
      omega
    have hread : (if isQuote c then closeLiteral? c (s ++ ['\r']) else none) =
        some (rest ++ ['\r']) := by
      split at hrest
      · next hc => rw [if_pos hc, closeLiteral?_return hc, hrest, Option.map_some]
      · cases hrest
    rw [List.cons_append, outsideLiteralsFrom, hread]
    dsimp only
    rw [hlen]
    exact ih (Nat.sub_le _ _)
  | case4 c s hnone ih =>
    have hread : (if isQuote c then closeLiteral? c (s ++ ['\r']) else none) = none := by
      split at hnone
      · next hc => rw [if_pos hc, closeLiteral?_return hc, hnone, Option.map_none]
      · next hc => rw [if_neg hc]
    rw [List.cons_append, outsideLiteralsFrom, hread]
    dsimp only
    rw [ih (Nat.zero_le _), List.cons_append]

/-- The code of a line with a carriage return at its end is its code, with the carriage return at
the end or without it. -/
theorem codePortion_return {r : Text} (hr : IsReturn r) (s : Text) :
    ∃ r', codePortion (s ++ r) = codePortion s ++ r' ∧ IsReturn r' := by
  obtain ⟨r', hr', hreturn⟩ := beforeComment_return hr s
  rw [codePortion, codePortion, hr']
  rcases hreturn with rfl | rfl
  · exact ⟨[], by simp, Or.inl rfl⟩
  · exact ⟨['\r'], outsideLiteralsFrom_return (Nat.zero_le _), Or.inr rfl⟩

end BuildScript.Text
