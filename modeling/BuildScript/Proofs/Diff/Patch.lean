import BuildScript.Proofs.Text.Lines
import BuildScript.Proofs.Text.Scan
/-!
# Patches

A patch is what a unified diff is read for: hunks, each with the number of lines in front of it in
either text and its own lines, which stay, go or come. A hunk header says how many lines of either
text the hunk holds, so a reader knows where the hunk ends without looking at what is behind it.

**Reading.** A patch is read line by line, lines being cut at line feeds and nowhere else. No lines
at all are a patch without hunks; otherwise two header lines stand in front. The first character of
a line in a hunk is its mark.

**Replaying.** The lines of a text in front of a hunk are copied. Lines that stay or go must be the
lines of the text that stand there, and the numbers of lines in front must be those of the header.

Results:
* `readRows?_rows`: the rows of a patch are read back as this patch.
* `readPatch?_flatten_iff`: a patch whose rows stand one behind the other is read back exactly if no
  row but the last is open.
-/
namespace BuildScript.Diff

open Text (IsLine Closed feedLines)

/-- A line of a patch: one that stays, one that goes, or one that comes. -/
inductive PatchLine where
  | kept (line : Text)
  | removed (line : Text)
  | added (line : Text)
deriving DecidableEq, Repr

namespace PatchLine

/-- The line itself, without its mark. -/
def line : PatchLine → Text
  | kept line => line
  | removed line => line
  | added line => line

/-- The line behind its mark. -/
def text : PatchLine → Text
  | kept line => ' ' :: line
  | removed line => '-' :: line
  | added line => '+' :: line

/-- Whether it is a line of the old text. -/
def isOld : PatchLine → Bool
  | kept _ => true
  | removed _ => true
  | added _ => false

/-- Whether it is a line of the new text. -/
def isNew : PatchLine → Bool
  | kept _ => true
  | removed _ => false
  | added _ => true

theorem isLine_text {l : PatchLine} (h : IsLine l.line) : IsLine l.text := by
  cases l <;> exact Text.isLine_cons (by decide) h

theorem closed_text {l : PatchLine} (h : Closed l.line) : Closed l.text := by
  cases l <;> exact Text.closed_cons h _

end PatchLine

/-- A number of lines of a text and how many stand in front of them. -/
structure Span where
  front : Nat
  count : Nat
deriving DecidableEq, Repr

/-- How many lines of a text stand in front of the end of a span. -/
def Span.stop (s : Span) : Nat := s.front + s.count

/-- A span as a hunk header has it: the number of its first line, counting from one, and how many
there are unless it is one. No lines are placed behind the line in front of them. -/
def Span.text (s : Span) : Text :=
  if s.count = 1 then Text.ofNat (s.front + 1)
  else Text.ofNat (if s.count = 0 then s.front else s.front + 1) ++ ',' :: Text.ofNat s.count

/-- A hunk: how many lines of either text stand in front of it, and its lines. -/
structure PatchHunk where
  oldFront : Nat
  newFront : Nat
  lines : List PatchLine
deriving DecidableEq, Repr

namespace PatchHunk

def old (h : PatchHunk) : Span := ⟨h.oldFront, h.lines.countP (·.isOld)⟩

def new (h : PatchHunk) : Span := ⟨h.newFront, h.lines.countP (·.isNew)⟩

def header (h : PatchHunk) : Text :=
  "@@ -".toList ++ h.old.text ++ " +".toList ++ h.new.text ++ " @@\n".toList

/-- The header of a hunk and its lines. -/
def rows (h : PatchHunk) : List Text := h.header :: h.lines.map (·.text)

theorem length_rows (h : PatchHunk) : h.rows.length = h.lines.length + 1 := by
  rw [rows, List.length_cons, List.length_map]

end PatchHunk

/-- The rows of a patch between two named texts. -/
def patchRows (oldName newName : Text) (patch : List PatchHunk) : List Text :=
  if patch = [] then []
  else
    ("--- ".toList ++ oldName ++ ['\n']) :: ("+++ ".toList ++ newName ++ ['\n']) ::
      patch.flatMap (·.rows)

/-! ## Reading -/

def readNumber? (s : Text) : Option (Nat × Text) :=
  let digits := s.takeWhile Char.isDigit
  if digits = [] then none else some (Nat.ofDigitChars 10 digits 0, s.dropWhile Char.isDigit)

/-- Reads how many lines a span has, which is one if nothing is said. -/
def readCount? : Text → Option (Nat × Text)
  | ',' :: s => readNumber? s
  | s => some (1, s)

/-- The span of `count` lines that is given by the number `first`. -/
def Span.of? (first count : Nat) : Option Span :=
  if count = 0 then some ⟨first, 0⟩ else if first = 0 then none else some ⟨first - 1, count⟩

def readSpan? (s : Text) : Option (Span × Text) := do
  let (first, s) ← readNumber? s
  let (count, s) ← readCount? s
  let span ← Span.of? first count
  some (span, s)

def readHeader? (line : Text) : Option (Span × Span) := do
  let s ← Text.after? "@@ -".toList line
  let (old, s) ← readSpan? s
  let s ← Text.after? " +".toList s
  let (new, s) ← readSpan? s
  if s = " @@\n".toList then some (old, new) else none

/-- Reads the lines of a hunk that has so many lines of the old and of the new text to come, and the
hunks behind it. -/
def readRows? : List Text → (old new : Nat) → Option (List PatchLine × List PatchHunk)
  | [], 0, 0 => some ([], [])
  | header :: rows, 0, 0 => do
    let (old, new) ← readHeader? header
    let (lines, hunks) ← readRows? rows old.count new.count
    some ([], ⟨old.front, new.front, lines⟩ :: hunks)
  | (' ' :: line) :: rows, old + 1, new + 1 =>
    (readRows? rows old new).map fun read => (.kept line :: read.1, read.2)
  | ('-' :: line) :: rows, old + 1, new =>
    (readRows? rows old new).map fun read => (.removed line :: read.1, read.2)
  | ('+' :: line) :: rows, old, new + 1 =>
    (readRows? rows old new).map fun read => (.added line :: read.1, read.2)
  | _, _, _ => none

def readLines? : List Text → Option (List PatchHunk)
  | [] => some []
  | oldName :: newName :: rows =>
    if Text.startsWith "--- ".toList oldName ∧ Text.startsWith "+++ ".toList newName then
      (readRows? rows 0 0).map (·.2)
    else none
  | _ => none

def readPatch? (s : Text) : Option (List PatchHunk) := readLines? (feedLines s)

/-! ## Replaying -/

/-- Puts the lines of a hunk in the place of lines of a text: the lines that are made, and those
behind. -/
def applyLines? : List PatchLine → List Text → Option (List Text × List Text)
  | [], rest => some ([], rest)
  | .kept l :: lines, x :: rest =>
    if l = x then (applyLines? lines rest).map fun made => (l :: made.1, made.2) else none
  | .removed l :: lines, x :: rest => if l = x then applyLines? lines rest else none
  | .added l :: lines, rest => (applyLines? lines rest).map fun made => (l :: made.1, made.2)
  | _, _ => none

/-- Applies hunks to the lines of a text from the line of index `i` on, of which the line of index
`j` of the new text is made. -/
def applyHunks? : (i j : Nat) → List PatchHunk → List Text → Option (List Text)
  | _, _, [], rest => some rest
  | i, j, h :: hunks, rest =>
    if i ≤ h.oldFront ∧ h.oldFront - i ≤ rest.length ∧ h.newFront = j + (h.oldFront - i) then do
      let (made, behind) ← applyLines? h.lines (rest.drop (h.oldFront - i))
      let more ← applyHunks? h.old.stop h.new.stop hunks behind
      some (rest.take (h.oldFront - i) ++ made ++ more)
    else none

def replay? (patch : List PatchHunk) (s : Text) : Option Text :=
  (applyHunks? 0 0 patch (feedLines s)).map List.flatten

/-- Reads a text as a patch and replays it on another text. -/
def patched? (diff s : Text) : Option Text := (readPatch? diff).bind (replay? · s)

/-! ## What is read back -/

theorem readNumber?_ofNat (n : Nat) {c : Char} (hc : c.isDigit = false) (s : Text) :
    readNumber? (Text.ofNat n ++ c :: s) = some (n, c :: s) := by
  have hdigits : ∀ d ∈ Text.ofNat n, d.isDigit = true :=
    fun d hd => Nat.isDigit_of_mem_toDigits (by decide) (by decide) hd
  have hne : Text.ofNat n ≠ [] := Nat.toDigits_ne_nil
  have hvalue : Nat.ofDigitChars 10 (Text.ofNat n) 0 = n := Nat.ofDigitChars_ten_toDigits
  unfold readNumber?
  rw [Text.takeWhile_of_all hdigits hc, Text.dropWhile_of_all hdigits hc, if_neg hne, hvalue]

theorem readSpan?_text (span : Span) (s : Text) :
    readSpan? (span.text ++ ' ' :: s) = some (span, ' ' :: s) := by
  obtain ⟨front, count⟩ := span
  unfold Span.text readSpan?
  dsimp only
  split
  · next hone =>
    rw [readNumber?_ofNat _ (by decide), hone]
    rfl
  · have hspan : Span.of? (if count = 0 then front else front + 1) count = some ⟨front, count⟩ := by
      unfold Span.of?
      split
      · next hzero => rw [hzero]
      · rfl
    rw [List.append_assoc, List.cons_append, readNumber?_ofNat _ (by decide)]
    dsimp only [Option.bind_eq_bind, Option.bind_some]
    rw [readCount?, readNumber?_ofNat _ (by decide), Option.bind_some, hspan]
    rfl

theorem readHeader?_header (h : PatchHunk) : readHeader? h.header = some (h.old, h.new) := by
  unfold readHeader? PatchHunk.header
  simp only [List.append_assoc, Text.after?_append, Option.bind_eq_bind, Option.bind_some]
  rw [show " +".toList ++ (h.new.text ++ " @@\n".toList) =
      ' ' :: ('+' :: (h.new.text ++ " @@\n".toList)) from rfl, readSpan?_text]
  dsimp only [Option.bind_some]
  rw [show ' ' :: '+' :: (h.new.text ++ " @@\n".toList) =
      " +".toList ++ (h.new.text ++ " @@\n".toList) from rfl, Text.after?_append]
  dsimp only [Option.bind_some]
  rw [show " @@\n".toList = ' ' :: "@@\n".toList from rfl, readSpan?_text]
  rfl

/-- The lines of a hunk are read back, whatever hunks are read behind them. -/
theorem readRows?_lines {rows : List Text} {hunks : List PatchHunk} (lines : List PatchLine)
    (h : readRows? rows 0 0 = some ([], hunks)) :
    readRows? (lines.map (·.text) ++ rows) (lines.countP (·.isOld)) (lines.countP (·.isNew)) =
      some (lines, hunks) := by
  induction lines with
  | nil => exact h
  | cons l lines ih =>
    cases l with
    | kept line =>
      rw [List.countP_cons_of_pos rfl, List.countP_cons_of_pos rfl, List.map_cons,
        List.cons_append, PatchLine.text, readRows?, ih]
      rfl
    | removed line =>
      rw [List.countP_cons_of_pos rfl, List.countP_cons_of_neg Bool.false_ne_true, List.map_cons,
        List.cons_append, PatchLine.text, readRows?, ih]
      rfl
    | added line =>
      rw [List.countP_cons_of_neg Bool.false_ne_true, List.countP_cons_of_pos rfl, List.map_cons,
        List.cons_append, PatchLine.text, readRows?, ih]
      rfl

/-- The rows of a patch are read back as this patch. -/
theorem readRows?_rows (patch : List PatchHunk) :
    readRows? (patch.flatMap (·.rows)) 0 0 = some ([], patch) := by
  induction patch with
  | nil => rfl
  | cons h patch ih =>
    rw [List.flatMap_cons, PatchHunk.rows, List.cons_append, readRows?, readHeader?_header]
    dsimp only [Option.bind_eq_bind, Option.bind_some]
    rw [PatchHunk.old, PatchHunk.new, readRows?_lines h.lines ih]
    rfl

theorem readLines?_patchRows (oldName newName : Text) (patch : List PatchHunk) :
    readLines? (patchRows oldName newName patch) = some patch := by
  unfold patchRows
  split
  · next hnil => rw [hnil]; rfl
  · rw [readLines?, readRows?_rows, if_pos]
    · rfl
    · rw [List.append_assoc, List.append_assoc]
      exact ⟨by rw [Text.startsWith, Text.after?_append]; rfl,
        by rw [Text.startsWith, Text.after?_append]; rfl⟩

/-! ## How much is read -/

theorem length_of_readRows? {rows : List Text} {old new : Nat} {lines : List PatchLine}
    {hunks : List PatchHunk} (h : readRows? rows old new = some (lines, hunks)) :
    rows.length = lines.length + (hunks.flatMap (·.rows)).length := by
  fun_induction readRows? rows old new generalizing lines hunks with
  | case1 =>
    cases h
    rfl
  | case2 header rows ih =>
    simp only [Option.bind_eq_bind, Option.bind_eq_some_iff, Option.some.injEq] at h
    obtain ⟨⟨old, new⟩, -, ⟨ls, hs⟩, hread, hres⟩ := h
    cases hres
    have hlength := ih _ _ hread
    rw [List.length_cons, List.flatMap_cons, List.length_append, PatchHunk.length_rows, hlength,
      List.length_nil]
    dsimp only
    omega
  | case3 line rows old new ih | case4 line rows old new ih | case5 line rows old new ih =>
    obtain ⟨⟨ls, hs⟩, hread, hres⟩ := Option.map_eq_some_iff.1 h
    cases hres
    rw [List.length_cons, List.length_cons, ih hread, Nat.add_right_comm]
  | case6 => cases h

theorem length_of_readLines? {rows : List Text} {patch : List PatchHunk} (oldName newName : Text)
    (h : readLines? rows = some patch) (hne : patch ≠ []) :
    rows.length = (patchRows oldName newName patch).length := by
  unfold readLines? at h
  split at h
  · exact absurd (Option.some.inj h).symm hne
  · next o n rows =>
    split at h
    · obtain ⟨⟨lines, hunks⟩, hread, rfl⟩ := Option.map_eq_some_iff.1 h
      have hlines : lines = [] := by
        cases rows with
        | nil => cases hread; rfl
        | cons row rows =>
          rw [readRows?] at hread
          simp only [Option.bind_eq_bind, Option.bind_eq_some_iff, Option.some.injEq] at hread
          obtain ⟨_, -, _, -, hres⟩ := hread
          cases hres
          rfl
      rw [patchRows, if_neg hne]
      have := length_of_readRows? hread
      simp [this, hlines]
    · cases h
  · cases h

/-! ## Rows are lines -/

theorem feed_not_mem_ofNat (n : Nat) : '\n' ∉ Text.ofNat n := fun h =>
  absurd (Nat.isDigit_of_mem_toDigits (by decide) (by decide) h) (by decide)

theorem feed_not_mem_span (span : Span) : '\n' ∉ span.text := by
  unfold Span.text
  split
  · exact feed_not_mem_ofNat _
  · simp only [List.mem_append, List.mem_cons, not_or]
    exact ⟨feed_not_mem_ofNat _, by decide, feed_not_mem_ofNat _⟩

theorem header_eq (h : PatchHunk) :
    h.header = "@@ -".toList ++ h.old.text ++ " +".toList ++ h.new.text ++ " @@".toList ++
      ['\n'] := by
  unfold PatchHunk.header
  rw [List.append_assoc _ " @@".toList]
  rfl

theorem isLine_header (h : PatchHunk) : IsLine h.header := by
  rw [header_eq]
  apply Text.isLine_append_feed
  simp only [List.mem_append, not_or]
  exact ⟨⟨⟨⟨by decide, feed_not_mem_span _⟩, by decide⟩, feed_not_mem_span _⟩, by decide⟩

theorem isLine_patchRows {oldName newName : Text} {patch : List PatchHunk}
    (hold : '\n' ∉ oldName) (hnew : '\n' ∉ newName)
    (hlines : ∀ h ∈ patch, ∀ l ∈ h.lines, IsLine l.line) :
    ∀ row ∈ patchRows oldName newName patch, IsLine row := by
  have hname : ∀ {mark name : Text}, '\n' ∉ mark → '\n' ∉ name →
      IsLine (mark ++ name ++ ['\n']) := by
    intro mark name hmark hname
    exact Text.isLine_append_feed (fun h => (List.mem_append.1 h).elim hmark hname)
  unfold patchRows
  split
  · exact fun _ h => absurd h List.not_mem_nil
  · rw [List.forall_mem_cons, List.forall_mem_cons]
    refine ⟨hname (by decide) hold, hname (by decide) hnew, fun row hrow => ?_⟩
    obtain ⟨h, hh, hrow⟩ := List.mem_flatMap.1 hrow
    rcases List.mem_cons.1 hrow with rfl | hrow
    · exact isLine_header h
    · obtain ⟨l, hl, rfl⟩ := List.mem_map.1 hrow
      exact PatchLine.isLine_text (hlines h hh l hl)

theorem closed_patchRows {oldName newName : Text} {patch : List PatchHunk}
    (hlines : ∀ h ∈ patch, ∀ l ∈ h.lines, Closed l.line) :
    ∀ row ∈ patchRows oldName newName patch, Closed row := by
  unfold patchRows
  split
  · exact fun _ h => absurd h List.not_mem_nil
  · rw [List.forall_mem_cons, List.forall_mem_cons]
    refine ⟨Text.closed_append_feed _, Text.closed_append_feed _, fun row hrow => ?_⟩
    obtain ⟨h, hh, hrow⟩ := List.mem_flatMap.1 hrow
    rcases List.mem_cons.1 hrow with rfl | hrow
    · rw [header_eq]
      exact Text.closed_append_feed _
    · obtain ⟨l, hl, rfl⟩ := List.mem_map.1 hrow
      exact PatchLine.closed_text (hlines h hh l hl)

/-- A patch whose rows stand one behind the other is read back exactly if no row but the last is
open. -/
theorem readPatch?_flatten_iff {oldName newName : Text} {patch : List PatchHunk}
    (hold : '\n' ∉ oldName) (hnew : '\n' ∉ newName)
    (hlines : ∀ h ∈ patch, ∀ l ∈ h.lines, IsLine l.line) :
    readPatch? (patchRows oldName newName patch).flatten = some patch ↔
      ∀ row ∈ (patchRows oldName newName patch).dropLast, Closed row := by
  have hrows := isLine_patchRows hold hnew hlines
  constructor
  · intro hread
    by_cases hnil : patch = []
    · rw [patchRows, if_pos hnil]
      exact fun _ h => absurd h List.not_mem_nil
    · exact (Text.length_feedLines_flatten_iff hrows).1 (length_of_readLines? _ _ hread hnil)
  · intro hclosed
    rw [readPatch?, Text.feedLines_flatten hrows hclosed]
    exact readLines?_patchRows oldName newName patch

/-! ## What is replayed -/

theorem applyLines?_kept (xs : List Text) (lines : List PatchLine) (rest : List Text) :
    applyLines? (xs.map .kept ++ lines) (xs ++ rest) =
      (applyLines? lines rest).map fun made => (xs ++ made.1, made.2) := by
  induction xs with
  | nil => exact Option.map_id'.symm
  | cons x xs ih =>
    rw [List.map_cons, List.cons_append, List.cons_append, applyLines?, if_pos rfl, ih,
      Option.map_map]
    rfl

theorem applyLines?_removed (xs : List Text) (lines : List PatchLine) (rest : List Text) :
    applyLines? (xs.map .removed ++ lines) (xs ++ rest) = applyLines? lines rest := by
  induction xs with
  | nil => rfl
  | cons x xs ih =>
    rw [List.map_cons, List.cons_append, List.cons_append, applyLines?, if_pos rfl, ih]

theorem applyLines?_added (ys : List Text) (lines : List PatchLine) (rest : List Text) :
    applyLines? (ys.map .added ++ lines) rest =
      (applyLines? lines rest).map fun made => (ys ++ made.1, made.2) := by
  induction ys with
  | nil => exact Option.map_id'.symm
  | cons y ys ih =>
    rw [List.map_cons, List.cons_append, applyLines?, ih, Option.map_map]
    rfl

/-- A hunk copies the lines in front of it and makes its own of those that follow. -/
theorem applyHunks?_cons {i j : Nat} {h : PatchHunk} {hunks : List PatchHunk}
    {front rest made behind more : List Text} (hold : h.oldFront = i + front.length)
    (hnew : h.newFront = j + front.length) (hlines : applyLines? h.lines rest = some (made, behind))
    (hmore : applyHunks? h.old.stop h.new.stop hunks behind = some more) :
    applyHunks? i j (h :: hunks) (front ++ rest) = some (front ++ made ++ more) := by
  have hfront : h.oldFront - i = front.length := by omega
  rw [applyHunks?, hfront, if_pos, List.drop_left, List.take_left, hlines]
  · dsimp only [Option.bind_eq_bind, Option.bind_some]
    rw [hmore]
    rfl
  · rw [List.length_append]
    exact ⟨by omega, Nat.le_add_right _ _, hnew⟩

end BuildScript.Diff
