/-!
# Aligning two sequences

An alignment of an old and a new sequence is a list of runs, stretches that both have in common,
which ascend in both sequences. It is found by taking the longest run first and aligning what lies
in front of it and what lies behind it in the same way.

**Longest run.** Runs are sought among anchors, items of the new sequence that are not so frequent
that they say little about its structure. Of the longest runs the one that begins earliest in the
old sequence is taken, and of those the one that begins earliest in the new sequence. It is then
extended on both sides over equal items, anchors or not.

**Frequency.** In a sequence of 200 items or more, an item that occurs more often than in one place
of a hundred, and once more, is no anchor. A shorter sequence has anchors only.
-/
namespace BuildScript.Diff

/-- A stretch that two sequences have in common: where it starts in each, and its length. -/
structure Run where
  old : Nat
  new : Nat
  length : Nat
deriving DecidableEq, Repr

variable {α : Type} [DecidableEq α]

/-- The number of items that two sequences begin with in common. -/
def commonPrefix : List α → List α → Nat
  | x :: a, y :: b => if x = y then commonPrefix a b + 1 else 0
  | _, _ => 0

/-- The lengths of the runs that end at each item of the new sequence and at `x` in the old one,
given those that end one item earlier in both. -/
def nextRow (x : α) : (diagonal : Nat) → List Nat → List (α × Bool) → List Nat
  | diagonal, above :: row, (y, isAnchor) :: b =>
    (if isAnchor && x == y then diagonal + 1 else 0) :: nextRow x above row b
  | _, _, _ => []

/-- The longer of the best run so far and those that end in a row; the earlier if equally long. -/
def bestInRow (i : Nat) : (j : Nat) → Run → List Nat → Run
  | _, best, [] => best
  | j, best, k :: row =>
    bestInRow i (j + 1) (if k > best.length then ⟨i + 1 - k, j + 1 - k, k⟩ else best) row

/-- Looks through the rows of the items of the old sequence from the item of index `i` on. -/
def bestRun (b : List (α × Bool)) : (i : Nat) → List Nat → Run → List α → Run
  | _, _, best, [] => best
  | i, row, best, x :: a =>
    let row := nextRow x 0 row b
    bestRun b (i + 1) row (bestInRow i 0 best row) a

def longestRun (a : List α) (b : List (α × Bool)) : Run :=
  let run := bestRun b 0 (b.map fun _ => 0) ⟨0, 0, 0⟩ a
  let items := b.map (·.1)
  let back := commonPrefix (a.take run.old).reverse (items.take run.new).reverse
  let ahead := commonPrefix (a.drop (run.old + run.length)) (items.drop (run.new + run.length))
  ⟨run.old - back, run.new - back, run.length + back + ahead⟩

/-- The runs of two sequences that begin at the given offsets. Every run takes at least one item
off the old sequence, so its length is depth enough. -/
def runsFrom : (depth : Nat) → (i j : Nat) → List α → List (α × Bool) → List Run
  | 0, _, _, _, _ => []
  | depth + 1, i, j, a, b =>
    let run := longestRun a b
    if run.length = 0 then []
    else
      runsFrom depth i j (a.take run.old) (b.take run.new) ++
        ⟨i + run.old, j + run.new, run.length⟩ ::
        runsFrom depth (i + run.old + run.length) (j + run.new + run.length)
          (a.drop (run.old + run.length)) (b.drop (run.new + run.length))

/-- Joins a run with those that follow on it directly in both sequences. -/
def joinRuns (run : Run) : List Run → List Run
  | [] => [run]
  | next :: rest =>
    if run.old + run.length = next.old ∧ run.new + run.length = next.new then
      joinRuns ⟨run.old, run.new, run.length + next.length⟩ rest
    else run :: joinRuns next rest

/-- The sequence length from which on frequent items are no anchors. -/
def longLength : Nat := 200

/-- Whether an item is rare enough to be an anchor. -/
def isAnchor (b : List α) (y : α) : Bool :=
  b.length < longLength || b.count y ≤ b.length / 100 + 1

def align (a b : List α) : List Run :=
  match runsFrom a.length 0 0 a (b.map fun y => (y, isAnchor b y)) with
  | [] => []
  | run :: rest => joinRuns run rest

/-- A stretch of two sequences: bounds in each, and whether both hold the same there. -/
structure Stretch where
  same : Bool
  oldStart : Int
  oldStop : Int
  newStart : Int
  newStop : Int
deriving DecidableEq, Repr

/-- The stretch between two runs, if anything lies there. -/
def gap (i i' j j' : Nat) : List Stretch :=
  if i < i' ∨ j < j' then [⟨false, i, i', j, j'⟩] else []

/-- The stretches of two sequences of the given lengths, behind the given offsets. -/
def stretchesFrom (oldLength newLength : Nat) : (i j : Nat) → List Run → List Stretch
  | i, j, [] => gap i oldLength j newLength
  | i, j, run :: rest =>
    gap i run.old j run.new ++
      ⟨true, run.old, ↑(run.old + run.length), run.new, ↑(run.new + run.length)⟩ ::
      stretchesFrom oldLength newLength (run.old + run.length) (run.new + run.length) rest

/-- Two sequences as a list of stretches that are the same and stretches that are not. -/
def stretches (a b : List α) : List Stretch :=
  stretchesFrom a.length b.length 0 0 (align a b)

end BuildScript.Diff
