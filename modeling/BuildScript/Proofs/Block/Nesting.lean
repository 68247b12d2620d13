import BuildScript.Block
import BuildScript.Proofs.Text.Code
/-!
# Braces in their places

The search for the line that closes a block counts braces line by line. Here the braces are followed
through the whole code of a text by the places they stand at: `nested` keeps those that are open,
the innermost first, and `closeFrom?` stops where the last of them is closed. Both searches come to
the same line.

Results:
* `closeFrom?_append`, `closeFrom?_spec`: where the last open brace is closed.
* `nested_of_closeFrom?_eq_none`: until it is closed, the outermost brace stays open.
* `head?_nested_iff`: where it is the innermost.
* `closingFrom?_eq`: the line of the closing brace is the one that is found by counting.
-/
namespace BuildScript.Block

open Text

/-- The braces open behind a piece of code, the innermost first, given those open in front of it. A
closing brace without an open one is passed over. -/
def nested : (stack : List Nat) → List Placed → List Nat
  | stack, [] => stack
  | stack, (p, c) :: s =>
    if c = '\x7b' then nested (p :: stack) s
    else if c = '\x7d' then nested stack.tail s
    else nested stack s

/-- The place at which the last open brace is closed, given the braces open in front. -/
def closeFrom? : (stack : List Nat) → List Placed → Option Nat
  | _, [] => none
  | stack, (p, c) :: s =>
    if c = '\x7b' then closeFrom? (p :: stack) s
    else if c = '\x7d' then
      if stack.length = 1 then some p else closeFrom? stack.tail s
    else closeFrom? stack s

/-- The number of opening braces in a piece of code. -/
def opened (s : List Placed) : Nat := (s.map Prod.snd).count '\x7b'

def closed (s : List Placed) : Nat := (s.map Prod.snd).count '\x7d'

@[simp] theorem opened_nil : opened [] = 0 := rfl

@[simp] theorem closed_nil : closed [] = 0 := rfl

@[simp] theorem opened_append (s t : List Placed) : opened (s ++ t) = opened s + opened t := by
  simp [opened]

@[simp] theorem closed_append (s t : List Placed) : closed (s ++ t) = closed s + closed t := by
  simp [closed]

/-! ## Counting and following -/

section
variable {stack : List Nat} {s u v : List Placed} {p q : Nat}

theorem nested_append (stack : List Nat) (u v : List Placed) :
    nested stack (u ++ v) = nested (nested stack u) v := by
  fun_induction nested stack u with
  | case1 stack => rfl
  | case2 stack p s ih => simpa [nested] using ih
  | case3 stack p s _ ih => simpa [nested] using ih
  | case4 stack p c s hopen hclose ih => simpa [nested, hopen, hclose] using ih

/-- What is closed is closed in the first piece of code, or else in the second. -/
theorem closeFrom?_append (stack : List Nat) (u v : List Placed) :
    closeFrom? stack (u ++ v) =
      (closeFrom? stack u).or (closeFrom? (nested stack u) v) := by
  fun_induction nested stack u with
  | case1 stack => rfl
  | case2 stack p s ih => simpa [closeFrom?] using ih
  | case3 stack p s _ ih =>
    by_cases hlength : stack.length = 1
    · simp [closeFrom?, hlength]
    · simpa [closeFrom?, hlength] using ih
  | case4 stack p c s hopen hclose ih => simpa [closeFrom?, hopen, hclose] using ih

/-- Counting the open braces of a piece of code comes to nothing just when the last is closed. -/
theorem openBraces?_eq (stack : List Nat) (s : List Placed) :
    openBraces? stack.length (s.map Prod.snd) =
      if (closeFrom? stack s).isNone then some (nested stack s).length else none := by
  fun_induction closeFrom? stack s with
  | case1 stack => rfl
  | case2 stack p s ih => simpa [openBraces?, nested] using ih
  | case3 stack p s hlength _ => simp [openBraces?, hlength]
  | case4 stack p s hlength _ ih =>
    match stack, hlength, ih with
    | [], _, ih => simpa [openBraces?, nested] using ih
    | a :: b :: stack, _, ih => simpa [openBraces?, nested] using ih
  | case5 stack p c s hopen hclose ih => simpa [openBraces?, nested, hopen, hclose] using ih

/-- The last open brace is closed by a brace in front of which it is the only one open. -/
theorem closeFrom?_spec (h : closeFrom? stack s = some q) : ∃ u v b,
    s = u ++ (q, '\x7d') :: v ∧ closeFrom? stack u = none ∧ nested stack u = [b] := by
  fun_induction closeFrom? stack s with
  | case1 stack => cases h
  | case2 stack p s ih =>
    obtain ⟨u, v, b, rfl, hnone, hb⟩ := ih h
    exact ⟨(p, '\x7b') :: u, v, b, rfl, by simpa [closeFrom?] using hnone,
      by simpa [nested] using hb⟩
  | case3 stack p s hlength _ =>
    obtain ⟨b, rfl⟩ := List.length_eq_one_iff.1 hlength
    cases h
    exact ⟨[], s, b, rfl, rfl, rfl⟩
  | case4 stack p s hlength _ ih =>
    obtain ⟨u, v, b, rfl, hnone, hb⟩ := ih h
    exact ⟨(p, '\x7d') :: u, v, b, rfl, by simpa [closeFrom?, hlength] using hnone,
      by simpa [nested] using hb⟩
  | case5 stack p c s hopen hclose ih =>
    obtain ⟨u, v, b, rfl, hnone, hb⟩ := ih h
    exact ⟨(p, c) :: u, v, b, rfl, by simpa [closeFrom?, hopen, hclose] using hnone,
      by simpa [nested, hopen, hclose] using hb⟩

/-- Until it is closed, the outermost brace stays open, and the others are those opened since. -/
theorem nested_of_closeFrom?_eq_none (stack : List Nat) {b : Nat}
    (h : closeFrom? (stack ++ [b]) u = none) : ∃ inner,
      nested (stack ++ [b]) u = inner ++ [b] ∧ (∀ e ∈ inner, e ∈ stack ∨ e ∈ u.map Prod.fst) ∧
      inner.length + closed u = stack.length + opened u := by
  induction u generalizing stack with
  | nil => exact ⟨stack, rfl, fun e he => Or.inl he, rfl⟩
  | cons x s ih =>
    obtain ⟨p, c⟩ := x
    by_cases hopen : c = '\x7b'
    · subst hopen
      obtain ⟨inner, hinner, hmem, hlength⟩ :=
        ih (p :: stack) (by simpa [closeFrom?] using h)
      refine ⟨inner, by simpa [nested] using hinner, fun e he => ?_, ?_⟩
      · rcases hmem e he with he | he
        · rcases List.mem_cons.1 he with rfl | he
          · exact Or.inr List.mem_cons_self
          · exact Or.inl he
        · exact Or.inr (List.mem_cons_of_mem _ he)
      · simp [opened, closed] at hlength ⊢
        omega
    · by_cases hclose : c = '\x7d'
      · subst hclose
        cases stack with
        | nil => simp [closeFrom?] at h
        | cons a stack =>
          obtain ⟨inner, hinner, hmem, hlength⟩ :=
            ih stack (by simpa [closeFrom?] using h)
          refine ⟨inner, by simpa [nested] using hinner, fun e he => ?_, ?_⟩
          · rcases hmem e he with he | he
            · exact Or.inl (List.mem_cons_of_mem a he)
            · exact Or.inr (List.mem_cons_of_mem _ he)
          · simp [opened, closed] at hlength ⊢
            omega
      · obtain ⟨inner, hinner, hmem, hlength⟩ :=
          ih stack (by simpa [closeFrom?, hopen, hclose] using h)
        refine ⟨inner, by simpa [nested, hopen, hclose] using hinner, fun e he => ?_, ?_⟩
        · rcases hmem e he with he | he
          · exact Or.inl he
          · exact Or.inr (List.mem_cons_of_mem _ he)
        · simpa [opened, closed, hopen, hclose] using hlength

/-- As long as only the outermost brace is open at the end, it is the innermost one at a place just
when as many braces are opened behind that place as are closed. -/
theorem head?_nested_iff {b : Nat} (hnone : closeFrom? [b] (u ++ v) = none)
    (hlast : nested [b] (u ++ v) = [b]) (hb : b ∉ u.map Prod.fst) :
    (nested [b] u).head? = some b ↔ opened v = closed v := by
  obtain ⟨all, hall, -, htotal⟩ := nested_of_closeFrom?_eq_none [] hnone
  obtain rfl : all = [] := by
    rw [List.nil_append, hlast] at hall
    exact List.append_left_eq_self.1 hall.symm
  rw [closeFrom?_append] at hnone
  obtain ⟨inner, hinner, hmem, hcount⟩ :=
    nested_of_closeFrom?_eq_none [] (Option.or_eq_none_iff.1 hnone).1
  rw [opened_append, closed_append] at htotal
  rw [List.nil_append] at hinner
  rw [hinner]
  cases inner with
  | nil =>
    simp only [List.length_nil] at htotal hcount
    refine iff_of_true rfl ?_
    omega
  | cons a inner =>
    -- a brace opened inside is another one, and it is closed in the second piece
    have ha : a ∈ u.map Prod.fst := (hmem a List.mem_cons_self).resolve_left List.not_mem_nil
    simp only [List.length_nil, List.length_cons] at htotal hcount
    refine iff_of_false (fun hhead => ?_) ?_
    · exact hb (Option.some.inj hhead ▸ ha)
    · omega

theorem mem_of_closeFrom? (h : closeFrom? stack s = some q) : (q, '\x7d') ∈ s := by
  obtain ⟨u, v, b, rfl, -⟩ := closeFrom?_spec h
  exact List.mem_append_right u List.mem_cons_self

end

/-! ## Lines -/

/-- The line of the closing brace is the one that is found by counting. -/
theorem closingFrom?_eq (text : Text) (k : Nat) (stack : List Nat) :
    closingFrom? k stack.length ((lines text).drop k) =
      (closeFrom? stack (codeFrom (lineStart text k) ((lines text).drop k))).map
        (lineNumber text) := by
  induction hn : (lines text).length - k generalizing k stack with
  | zero =>
    rw [List.drop_eq_nil_of_le (by omega)]
    rfl
  | succ n ih =>
    have hk : k < (lines text).length := by omega
    have hline : (lines text)[k]? = some (lines text)[k] := List.getElem?_eq_getElem hk
    rw [codeFrom_drop hline, closeFrom?_append, List.drop_eq_getElem_cons hk, closingFrom?,
      ← map_snd_codeOfLine (lineStart text k), openBraces?_eq]
    cases hclose : closeFrom? stack (codeOfLine (lineStart text k) (lines text)[k]) with
    | some q =>
      have hq := lineNumber_of_mem_codeOfLine hline (mem_of_closeFrom? hclose)
      exact congrArg some hq.symm
    | none => exact ih (k + 1) _ (by omega)

end BuildScript.Block
