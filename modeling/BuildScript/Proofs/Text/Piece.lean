import Mathlib.Order.Bounds.Defs
import BuildScript.Proofs.Text.Literal
/-!
# A line in pieces

A line consists of characters that are no quotation marks and of whole string literals. A character
is code and a literal is not, and a comment begins between two pieces. The scan for a comment, which
keeps the mark of an open literal in mind, the pattern that takes literals out of a line and the
pattern that a literal has to match are three ways to follow this one rule.

**Open literals.** A line that cannot be cut into pieces has a first quotation mark that opens no
literal. In front of that mark there are still pieces. Behind it the scan finds no comment; it could
find one only behind a backslash that takes a line feed along, and a line holds no line feed.

Results:
* `spelled_injective`: a text is cut into pieces in one way at most.
* `pieceInduction`: what holds of pieces in front of a text and of unclosed marks holds of a text.
* `commentFrom_append_piece`, `outsideLiterals_append_piece`: what each scan does at a piece.
* `exists_spelled_iff`: a text is cut into pieces unless a quotation mark is left outside literals.
* `readInPieces`: comments and code of a line by its pieces.
-/
namespace BuildScript.Text

/-- A piece of a line: a character that is no quotation mark, or a string literal. -/
inductive Piece where
  | plain (c : Char) (h : isQuote c = false)
  | literal (raw : Text) (h : isLiteral raw = true)

namespace Piece

def text : Piece → Text
  | plain c _ => [c]
  | literal raw _ => raw

/-- What of a piece is code. -/
def code : Piece → Text
  | plain c _ => [c]
  | literal _ _ => []

end Piece

/-- Pieces written one behind the other. -/
def spelled (pieces : List Piece) : Text := pieces.flatMap Piece.text

def codeOf (pieces : List Piece) : Text := pieces.flatMap Piece.code

/-- A comment may begin at `i`: two slashes stand there, behind whole pieces. -/
structure OpensComment (s : Text) (i : Nat) : Prop where
  slashes : slice s i (i + 2) = ['/', '/']
  pieces : ∃ pieces, spelled pieces = s.take i

@[simp] theorem spelled_cons (p : Piece) (pieces : List Piece) :
    spelled (p :: pieces) = p.text ++ spelled pieces := List.flatMap_cons

@[simp] theorem codeOf_cons (p : Piece) (pieces : List Piece) :
    codeOf (p :: pieces) = p.code ++ codeOf pieces := List.flatMap_cons

variable {s t : Text} {mark : Char} {pieces others : List Piece} {p q : Piece} {i : Nat}

/-! ## One way to cut -/

theorem Piece.text_ne_nil (p : Piece) : p.text ≠ [] := by
  cases p with
  | plain c h => exact List.cons_ne_nil c []
  | literal raw h =>
    rintro rfl
    cases h

theorem Piece.not_isQuote_of_mem_code {c : Char} (h : c ∈ p.code) : isQuote c = false := by
  cases p with
  | plain d hd =>
    rw [List.mem_singleton.1 h]
    exact hd
  | literal raw hraw => cases h

/-- Two literals at the front of a text are one, because the mark that closes the one closes the
other. -/
theorem literal_unique {raw raw' : Text} (h : isLiteral raw = true) (h' : isLiteral raw' = true)
    (heq : raw ++ s = raw' ++ t) : raw = raw' ∧ s = t := by
  obtain ⟨body, mark, hmark, hbody, rfl⟩ := isLiteral_iff.1 h
  obtain ⟨body', mark', hmark', hbody', rfl⟩ := isLiteral_iff.1 h'
  simp only [List.cons_append, List.append_assoc, List.nil_append, List.cons.injEq] at heq
  obtain ⟨rfl, hrest⟩ := heq
  have hclose := hbody.closeLiteral? (ne_backslash_of_isQuote hmark) s
  rw [hrest, hbody'.closeLiteral? (ne_backslash_of_isQuote hmark) t, Option.some.injEq] at hclose
  subst hclose
  rw [List.append_cancel_right hrest]
  exact ⟨rfl, rfl⟩

theorem isQuote_of_isLiteral_cons {c : Char} (h : isLiteral (c :: s) = true) : isQuote c = true :=
  (Bool.and_eq_true_iff.1 h).1

/-- No piece begins another. -/
theorem Piece.eq_of_append_eq (h : p.text ++ s = q.text ++ t) : p = q ∧ s = t := by
  -- a character and a literal differ in the first character
  have hmixed {c : Char} {raw u v : Text} (hc : isQuote c = false) (hraw : isLiteral raw = true)
      (heq : c :: u = raw ++ v) : False := by
    cases raw with
    | nil => cases hraw
    | cons d raw =>
      rw [(List.cons.inj heq).1, isQuote_of_isLiteral_cons hraw] at hc
      cases hc
  match p, q, h with
  | .plain c hc, .plain d hd, h =>
    obtain ⟨rfl, rfl⟩ := List.cons.inj h
    exact ⟨rfl, rfl⟩
  | .plain c hc, .literal raw hraw, h => exact (hmixed hc hraw h).elim
  | .literal raw hraw, .plain d hd, h => exact (hmixed hd hraw h.symm).elim
  | .literal raw hraw, .literal raw' hraw', h =>
    obtain ⟨rfl, rfl⟩ := literal_unique hraw hraw' h
    exact ⟨rfl, rfl⟩

/-- A text is cut into pieces in one way at most. -/
theorem spelled_injective (h : spelled pieces = spelled others) : pieces = others := by
  induction pieces generalizing others with
  | nil =>
    cases others with
    | nil => rfl
    | cons q others => exact absurd (List.append_eq_nil_iff.1 h.symm).1 q.text_ne_nil
  | cons p pieces ih =>
    cases others with
    | nil => exact absurd (List.append_eq_nil_iff.1 h).1 p.text_ne_nil
    | cons q others =>
      obtain ⟨rfl, hrest⟩ := Piece.eq_of_append_eq h
      rw [ih hrest]

/-! ## Cutting a text -/

/-- A text is empty, begins with a mark that opens no literal, or begins with a piece. -/
theorem pieceInduction {motive : Text → Prop} (nil : motive [])
    (unclosed : ∀ mark s, isQuote mark = true → closeLiteral? mark s = none → motive (mark :: s))
    (piece : ∀ (p : Piece) s, motive s → motive (p.text ++ s)) (s : Text) : motive s := by
  induction hn : s.length using Nat.strongRecOn generalizing s with
  | ind n ih =>
    subst hn
    cases s with
    | nil => exact nil
    | cons c s =>
      cases hquote : isQuote c with
      | false => exact piece (.plain c hquote) s (ih s.length (Nat.lt_succ_self _) s rfl)
      | true =>
        cases hclose : closeLiteral? c s with
        | none => exact unclosed c s hquote hclose
        | some rest =>
          have hlen := length_of_closeLiteral? hclose
          obtain ⟨body, hbody, rfl⟩ :=
            (closeLiteral?_eq_some_iff (ne_backslash_of_isQuote hquote)).1 hclose
          have hraw : isLiteral (c :: body ++ [c]) = true :=
            isLiteral_iff.2 ⟨body, c, hquote, hbody, rfl⟩
          have hrest := ih rest.length (Nat.lt_succ_of_lt hlen) rest rfl
          simpa [Piece.text] using piece (.literal _ hraw) rest hrest

/-! ## What each scan does at a piece -/

theorem outsideLiterals_append_piece (p : Piece) (s : Text) :
    outsideLiterals (p.text ++ s) = p.code ++ outsideLiterals s := by
  cases p with
  | plain c h => exact outsideLiterals_append_plain (List.forall_mem_singleton.2 h) s
  | literal raw h => exact outsideLiterals_append_of_isLiteral h s

theorem outsideLiterals_cons_unclosed (h : closeLiteral? mark s = none) :
    outsideLiterals (mark :: s) = mark :: outsideLiterals s := by
  rw [outsideLiterals, outsideLiteralsFrom, h, ite_self]
  rfl

/-- At a piece a comment begins, or it is looked for behind the piece. -/
theorem commentFrom_append_piece (p : Piece) (offset : Nat) (s : Text) :
    (commentFrom none offset (p.text ++ s) = some offset ∧ ∃ r, p.text ++ s = '/' :: '/' :: r) ∨
      commentFrom none offset (p.text ++ s) = commentFrom none (offset + p.text.length) s := by
  cases p with
  | literal raw h => exact Or.inr (commentFrom_append_of_isLiteral h offset s)
  | plain c h =>
    cases s with
    | nil => exact Or.inr rfl
    | cons d s =>
      rw [Piece.text, List.singleton_append, commentFrom, h]
      by_cases hslash : c = '/' ∧ d = '/'
      · refine Or.inl ⟨if_pos hslash, s, ?_⟩
        rw [hslash.1, hslash.2]
      · exact Or.inr (if_neg hslash)

/-- Behind a mark that opens no literal no comment begins on a line. -/
theorem commentFrom_of_not_closed (hlf : '\n' ∉ s) (h : closeLiteral? mark s = none)
    (offset : Nat) : commentFrom (some mark) offset s = none := by
  fun_induction closeLiteral? mark s generalizing offset with
  | case1 => rfl
  | case2 => cases h
  | case3 => rfl
  | case4 => cases h
  | case5 => exact absurd (by simp) hlf
  | case6 d s hc hd ih =>
    rw [commentFrom, if_pos rfl]
    exact ih (fun hmem => hlf (by simp [hmem])) h (offset + 2)
  | case7 c d s hc hb ih =>
    rw [commentFrom, if_neg hb, if_neg hc]
    exact ih (fun hmem => hlf (List.mem_cons_of_mem c hmem)) h (offset + 1)

/-! ## What a scan makes of a text -/

theorem outsideLiterals_spelled (pieces : List Piece) :
    outsideLiterals (spelled pieces) = codeOf pieces := by
  induction pieces with
  | nil => rfl
  | cons p pieces ih => rw [spelled_cons, outsideLiterals_append_piece, ih, codeOf_cons]

/-- A text is cut into pieces unless a quotation mark is left outside literals. -/
theorem exists_spelled_iff :
    (∃ pieces, spelled pieces = s) ↔ ∀ c ∈ outsideLiterals s, isQuote c = false := by
  constructor
  · rintro ⟨pieces, rfl⟩ c hc
    rw [outsideLiterals_spelled] at hc
    obtain ⟨p, -, hp⟩ := List.mem_flatMap.1 hc
    exact p.not_isQuote_of_mem_code hp
  · intro h
    induction s using pieceInduction with
    | nil => exact ⟨[], rfl⟩
    | unclosed mark s hmark hclose =>
      rw [outsideLiterals_cons_unclosed hclose, List.forall_mem_cons, hmark] at h
      exact absurd h.1.symm Bool.false_ne_true
    | piece p s ih =>
      rw [outsideLiterals_append_piece, List.forall_mem_append] at h
      obtain ⟨pieces, rfl⟩ := ih h.2
      exact ⟨p :: pieces, spelled_cons p pieces⟩

/-- A comment is found behind whole pieces. -/
theorem exists_pieces_of_commentFrom {offset : Nat} (hlf : '\n' ∉ s)
    (h : commentFrom none offset s = some i) : ∃ pieces r,
      s = spelled pieces ++ '/' :: '/' :: r ∧ i = offset + (spelled pieces).length := by
  induction s using pieceInduction generalizing offset with
  | nil => cases h
  | unclosed mark s hmark hclose =>
    rw [commentFrom_open hmark,
      commentFrom_of_not_closed (fun hmem => hlf (List.mem_cons_of_mem mark hmem)) hclose] at h
    cases h
  | piece p s ih =>
    rcases commentFrom_append_piece p offset s with ⟨hfound, r, hr⟩ | hnext
    · rw [hfound, Option.some.injEq] at h
      exact ⟨[], r, hr, h.symm⟩
    · rw [hnext] at h
      obtain ⟨pieces, r, rfl, rfl⟩ := ih (fun hmem => hlf (List.mem_append_right _ hmem)) h
      refine ⟨p :: pieces, r, ?_, ?_⟩
      · rw [spelled_cons, List.append_assoc]
      · rw [spelled_cons, List.length_append, Nat.add_assoc]

/-- Slashes behind whole pieces are a comment, if there is none in front of them. -/
theorem exists_commentFrom_le (pieces : List Piece) (offset : Nat) (r : Text) :
    ∃ i, commentFrom none offset (spelled pieces ++ '/' :: '/' :: r) = some i ∧
      i ≤ offset + (spelled pieces).length := by
  induction pieces generalizing offset with
  | nil => exact ⟨offset, rfl, Nat.le_refl _⟩
  | cons p pieces ih =>
    rw [spelled_cons, List.append_assoc, List.length_append]
    rcases commentFrom_append_piece p offset (spelled pieces ++ '/' :: '/' :: r) with
      ⟨hfound, -⟩ | hnext
    · exact ⟨offset, hfound, Nat.le_add_right _ _⟩
    · obtain ⟨i, hi, hle⟩ := ih (offset + p.text.length)
      exact ⟨i, hnext.trans hi, by omega⟩

/-! ## Comments and code -/

theorem opensComment_iff : OpensComment s i ↔
    ∃ pieces r, s = spelled pieces ++ '/' :: '/' :: r ∧ (spelled pieces).length = i := by
  constructor
  · rintro ⟨hslash, pieces, hpieces⟩
    have hcast : (i : Int) + 2 = ((i + 2 : Nat) : Int) := rfl
    rw [hcast, slice_of_le, List.drop_take, Nat.add_sub_cancel_left] at hslash
    obtain ⟨r, hr⟩ : ['/', '/'] <+: s.drop i := hslash ▸ List.take_prefix 2 _
    have hi : i ≤ s.length := by
      refine Nat.le_of_not_lt fun hlt => ?_
      rw [List.drop_eq_nil_of_le (Nat.le_of_lt hlt)] at hr
      cases hr
    refine ⟨pieces, r, ?_, ?_⟩
    · rw [hpieces]
      exact (List.take_append_drop i s).symm.trans (congrArg _ hr.symm)
    · rw [hpieces, List.length_take, Nat.min_eq_left hi]
  · rintro ⟨pieces, r, rfl, rfl⟩
    refine ⟨?_, pieces, List.take_left.symm⟩
    have hmiddle := drop_take_append (spelled pieces) ['/', '/'] r
    rw [List.append_assoc] at hmiddle
    exact (slice_of_le _ _ _).trans hmiddle

theorem opensComment_of_commentStart (hlf : '\n' ∉ s) (h : commentStart s = some i) :
    OpensComment s i := by
  obtain ⟨pieces, r, hs, hi⟩ := exists_pieces_of_commentFrom hlf h
  exact opensComment_iff.2 ⟨pieces, r, hs, by omega⟩

theorem OpensComment.exists_le (h : OpensComment s i) : ∃ j, commentStart s = some j ∧ j ≤ i := by
  obtain ⟨pieces, r, rfl, rfl⟩ := opensComment_iff.1 h
  obtain ⟨j, hj, hle⟩ := exists_commentFrom_le pieces 0 r
  exact ⟨j, hj, by omega⟩

/-- How a line is read by its pieces. The comment begins at the first two slashes behind whole
pieces, and the code is that of the pieces in front of it, which can be cut in one way only. The
part in front falls into pieces just when no quotation mark is left in the code. -/
structure ReadInPieces (s : Text) : Prop where
  comment : ∀ i, commentStart s = some i ↔ IsLeast {j | OpensComment s j} i
  noComment : commentStart s = none ↔ ∀ i, ¬ OpensComment s i
  onlyWay : ∀ i pieces others, spelled pieces = s.take i → spelled others = s.take i →
    pieces = others
  codeInFront : ∀ i pieces, commentStart s = some i → spelled pieces = s.take i →
    codePortion s = codeOf pieces
  codeOfAll : ∀ pieces, commentStart s = none → spelled pieces = s → codePortion s = codeOf pieces
  unquoted : (∃ pieces, spelled pieces = beforeComment s) ↔
    ∀ c ∈ codePortion s, isQuote c = false

/-- The scan for a comment, the pattern that takes out literals and the pattern that a literal has
to match agree on every line. -/
theorem readInPieces (h : '\n' ∉ s) : ReadInPieces s where
  comment i := by
    constructor
    · intro hi
      refine ⟨opensComment_of_commentStart h hi, fun j hj => ?_⟩
      obtain ⟨k, hk, hle⟩ := OpensComment.exists_le hj
      rw [hi, Option.some.injEq] at hk
      rwa [hk]
    · rintro ⟨hi, hleast⟩
      obtain ⟨j, hj, hle⟩ := OpensComment.exists_le hi
      rw [hj, Nat.le_antisymm hle (hleast (opensComment_of_commentStart h hj))]
  noComment := by
    constructor
    · intro hnone i hi
      obtain ⟨j, hj, -⟩ := hi.exists_le
      rw [hnone] at hj
      cases hj
    · intro hno
      exact Option.eq_none_iff_forall_ne_some.2 fun i hi =>
        hno i (opensComment_of_commentStart h hi)
  onlyWay i pieces others hp ho := spelled_injective (hp.trans ho.symm)
  codeInFront i pieces hi hp := by
    rw [codePortion, beforeComment, hi, ← outsideLiterals_spelled, hp]
  codeOfAll pieces hnone hp := by
    rw [codePortion, beforeComment_of_none hnone, ← outsideLiterals_spelled, hp]
  unquoted := exists_spelled_iff

/-- A literal that holds its own mark behind a backslash, the other mark and two slashes, and a
comment with a mark that opens no literal. -/
def markedLine : Text := "path = 'it\\'s \"//' // isn't".toList

/-- The comment begins behind the literal, and a mark without a second one keeps the slashes behind
it from beginning one. -/
theorem readInPieces_markedLine :
    '\n' ∉ markedLine ∧ ReadInPieces markedLine ∧ commentStart markedLine = some 19 ∧
      codePortion markedLine = "path =  ".toList ∧
    '\n' ∉ "a 'b' \"c // d".toList ∧ ReadInPieces "a 'b' \"c // d".toList ∧
      commentStart "a 'b' \"c // d".toList = none := by
  have hmarked : '\n' ∉ markedLine := by decide
  have hopen : '\n' ∉ "a 'b' \"c // d".toList := by decide
  exact ⟨hmarked, readInPieces hmarked, by decide, by decide, hopen, readInPieces hopen, by decide⟩

end BuildScript.Text
