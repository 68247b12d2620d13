import BuildScript.Proofs.Block.Choice
import BuildScript.Proofs.Block.Return
/-!
# The brace that matches

The block of the chosen opener reaches from the brace behind its name to the brace that closes it.
Between the two that brace is always open, and the braces open inside it are those opened since and
not closed again. So at a place in the block nothing else is open just when the code from there up
to the closing brace opens as many braces as it closes.

Results:
* `exists_opensBlock`: the brace of the chosen opener.
* `OpensBlock.closesBlock`: the brace that the search comes to closes the block.
* `OpensBlock.head?_openAt_iff`: where the block's own brace is the innermost that is open.
-/
namespace BuildScript.Block

open Text

/-- The braces open at the place `p`, the innermost first, counted from the place `o` on. -/
def openAt (text : Text) (o p : Nat) : List Nat := nested [] (codeBetween text o p)

/-- The brace at `b` is the one that is opened by the name of the block at `o`. -/
structure OpensBlock (block text : Text) (o b : Nat) : Prop where
  mem : (b, '\x7b') ∈ code text
  name : ∃ blanks, (∀ c ∈ blanks, isBlank c = true) ∧
    (codeBetween text o b).map Prod.snd = block ++ blanks
  sameLine : lineNumber text b = lineNumber text o
  le : o ≤ b

/-- The brace at `q` is the one that closes the brace at `b`, counted from the place `o` on. -/
structure ClosesBlock (text : Text) (o b q : Nat) : Prop where
  mem : (q, '\x7d') ∈ code text
  openAt : openAt text o q = [b]
  lt : b < q

section
variable {block text : Text} {o b p q : Nat} {s u v : List Placed}

theorem nested_of_plain (h : ∀ x ∈ s, x.2 ≠ '\x7b' ∧ x.2 ≠ '\x7d') (stack : List Nat) :
    nested stack s = stack ∧ closeFrom? stack s = none := by
  induction s with
  | nil => exact ⟨rfl, rfl⟩
  | cons x s ih =>
    obtain ⟨hopen, hclose⟩ := h x List.mem_cons_self
    have ih := ih fun y hy => h y (List.mem_cons_of_mem x hy)
    rw [nested, closeFrom?, if_neg hopen, if_neg hclose, if_neg hopen, if_neg hclose]
    exact ih

/-- Without braces in its name, nothing is opened or closed between the name of a block and its
brace. -/
theorem OpensBlock.plain (hblock : '\x7b' ∉ block ∧ '\x7d' ∉ block)
    (h : OpensBlock block text o b) : ∀ x ∈ codeBetween text o b, x.2 ≠ '\x7b' ∧ x.2 ≠ '\x7d' := by
  obtain ⟨blanks, hblanks, hmap⟩ := h.name
  have hno {c : Char} (hc : c ∉ block) (hblank : isBlank c = false) :
      ∀ x ∈ codeBetween text o b, x.2 ≠ c := by
    rintro x hx rfl
    have hmem : x.2 ∈ (codeBetween text o b).map Prod.snd := List.mem_map_of_mem hx
    rw [hmap] at hmem
    rcases List.mem_append.1 hmem with hmem | hmem
    · exact hc hmem
    · rw [hblanks _ hmem] at hblank
      cases hblank
  exact fun x hx => ⟨hno hblock.1 (by decide) x hx, hno hblock.2 (by decide) x hx⟩

/-- Behind the brace of a block only what is inside it counts. -/
theorem OpensBlock.openAt_eq (hblock : '\x7b' ∉ block ∧ '\x7d' ∉ block)
    (h : OpensBlock block text o b) (hbp : b < p) :
    openAt text o p = nested [b] (codeBetween text (b + 1) p) := by
  rw [openAt, ← codeBetween_append h.le (Nat.le_of_lt hbp), codeBetween_cons h.mem hbp,
    nested_append, (nested_of_plain (h.plain hblock) []).1]
  rfl

theorem OpensBlock.closes?_eq (hblock : '\x7b' ∉ block ∧ '\x7d' ∉ block)
    (h : OpensBlock block text o b) :
    closes? text o = closeFrom? [b] (codeAfter text (b + 1)) := by
  obtain ⟨hnested, hnone⟩ := nested_of_plain (h.plain hblock) []
  rw [closes?, ← codeBetween_append_codeAfter h.le, codeAfter_cons h.mem, closeFrom?_append,
    hnested, hnone]
  rfl

/-- The block of an opener is closed by the brace that the search comes to, and by none in front of
it. -/
theorem OpensBlock.closesBlock (hblock : '\x7b' ∉ block ∧ '\x7d' ∉ block)
    (h : OpensBlock block text o b) (hq : closes? text o = some q) :
    ClosesBlock text o b q ∧ closeFrom? [b] (codeBetween text (b + 1) q) = none := by
  rw [h.closes?_eq hblock] at hq
  obtain ⟨u, v, b', hcut, hnone, hb'⟩ := closeFrom?_spec hq
  obtain ⟨hmem, hle⟩ := List.mem_filter.1 (mem_of_closeFrom? hq)
  have hlt : b < q := of_decide_eq_true hle
  obtain ⟨hinside, -⟩ := codeBetween_of_codeAfter (x := (q, '\x7d')) hlt hcut
  obtain rfl : b' = b := by
    -- the outermost brace stays open until then, so the only one open is the block's own
    obtain ⟨inner, hinner, -, -⟩ := nested_of_closeFrom?_eq_none [] hnone
    have hlast := congrArg List.getLast? (hb'.symm.trans hinner)
    rw [List.getLast?_concat] at hlast
    exact Option.some.inj hlast
  refine ⟨⟨hmem, ?_, hlt⟩, by rw [hinside]; exact hnone⟩
  rw [h.openAt_eq hblock hlt, hinside]
  exact hb'

/-- Inside a block its own brace is the innermost that is open just when the code up to the closing
brace opens as many braces as it closes. -/
theorem OpensBlock.head?_openAt_iff (hblock : '\x7b' ∉ block ∧ '\x7d' ∉ block)
    (h : OpensBlock block text o b) (hq : closes? text o = some q) (hbp : b < p) (hpq : p ≤ q) :
    (openAt text o p).head? = some b ↔
      opened (codeBetween text p q) = closed (codeBetween text p q) := by
  obtain ⟨hcloses, hnone⟩ := h.closesBlock hblock hq
  have hlast := hcloses.openAt
  rw [h.openAt_eq hblock hcloses.lt] at hlast
  rw [← codeBetween_append (Nat.succ_le_of_lt hbp) hpq] at hnone hlast
  rw [h.openAt_eq hblock hbp]
  refine head?_nested_iff hnone hlast fun hmem => ?_
  obtain ⟨x, hx, rfl⟩ := List.mem_map.1 hmem
  have hle : x.1 + 1 ≤ x.1 :=
    of_decide_eq_true (List.mem_filter.1 (List.mem_filter.1 hx).1).2
  omega

/-- The chosen opener opens its block by the brace behind its name. -/
theorem exists_opensBlock (h : target? block text = some o) : ∃ b, OpensBlock block text o b := by
  obtain ⟨opener, hchoice, rfl⟩ := Option.map_eq_some_iff.1 h
  obtain ⟨p, hstands⟩ := exists_standsAt_of_mem (openers_forall₂ block text) (choose?_mem hchoice)
  rw [hstands.place_eq]
  obtain ⟨l, u, x, v, before, hline, hcut, -, rfl, hread, -⟩ := hstands
  obtain ⟨-, -, hafter, hnumber⟩ := codeBetween_of_line hline hcut
  obtain ⟨⟨_, r⟩, hread⟩ := Option.isSome_iff_exists.1 hread
  obtain ⟨-, s, hs, hr⟩ := readOpener?_eq_some_iff.1 hread
  have hsplit : (x :: v).map Prod.snd = (block ++ s.takeWhile isBlank) ++ '\x7b' :: r := by
    have hblanks : s = s.takeWhile isBlank ++ trimLeft s :=
      List.takeWhile_append_dropWhile.symm
    rw [eq_append_of_after? hr] at hblanks
    rw [eq_append_of_after? hs, List.append_assoc]
    exact congrArg (block ++ ·) hblanks
  obtain ⟨n, w, hnw, hn, hw⟩ := List.map_eq_append_iff.1 hsplit
  obtain ⟨⟨b, c⟩, w, rfl, hy, -⟩ := List.map_eq_cons_iff.1 hw
  obtain rfl : c = '\x7b' := hy
  rw [hnw, List.append_assoc, List.cons_append] at hafter
  have hmem : (b, '\x7b') ∈ codeOfLine (lineStart text opener.line) l := by
    rw [hcut, hnw]
    simp
  have hbehind : (b, '\x7b') ∈ codeAfter text x.1 := by
    rw [hafter]
    simp
  obtain ⟨hcode, hle⟩ := List.mem_filter.1 hbehind
  have hle : x.1 ≤ b := of_decide_eq_true hle
  refine ⟨b, hcode, ⟨s.takeWhile isBlank, List.all_eq_true.1 List.all_takeWhile, ?_⟩, ?_, hle⟩
  · rw [(codeBetween_of_codeAfter hle hafter).1, hn]
  · rw [hnumber]
    exact lineNumber_of_mem_codeOfLine hline hmem

end

end BuildScript.Block
