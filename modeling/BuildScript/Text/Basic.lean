/-!
# Text

A text is the list of its code points, so a length, a column and an offset all count code points
and every function on texts is a recursion on a list.

**Blanks.** `isBlank` is the white space of the patterns and of trimming: the separators and
control characters that Unicode lists as white space, with U+001C to U+001F among them and
without the zero-width space.

**Slices.** `slice s i j` is the part from `i` up to `j`. A negative bound counts from the end and
a bound beyond the end is the end.

**Occurrences.** `find?` gives the first place of a text in another, `disjointCount` counts the
places that a scan from the left meets when it goes on behind each one.

**Names in brackets.** Here and in the other modules, where the program's own documentation calls an
operation or a record by another name, the docstring of its definition ends with that name in
brackets.

Results:
* `intercalate_fields`: joining the fields of a text gives the text back.
* `length_fields`: there is one field more than there are separators.
* `slice_of_le`: with bounds inside the text a slice is what its two bounds cut off.
* `eq_append_of_after?`: reading a word takes exactly that word off.
-/
namespace BuildScript

/-- A text as the list of its code points. -/
abbrev Text := List Char

/-- Whether a text is one of several is decided by comparing it with each. -/
instance (s : Text) (texts : List Text) : Decidable (s ∈ texts) :=
  List.instDecidableMemOfLawfulBEq s texts

namespace Text

/-- White space as the patterns and trimming see it. -/
def isBlank (c : Char) : Bool :=
  let n := c.toNat
  (9 ≤ n && n ≤ 13) || (28 ≤ n && n ≤ 32) || n == 0x85 || n == 0xA0 || n == 0x1680 ||
    (0x2000 ≤ n && n ≤ 0x200A) || n == 0x2028 || n == 0x2029 || n == 0x202F || n == 0x205F ||
    n == 0x3000

/-- Membership in a table of closed ranges. -/
def inRanges (ranges : List (Nat × Nat)) (n : Nat) : Bool :=
  ranges.any fun r => r.1 ≤ n && n ≤ r.2

def isQuote (c : Char) : Bool := c == '\'' || c == '"'

/-! ### Numbers -/

/-- Decimal digits, without leading zeros. -/
def ofNat (n : Nat) : Text := Nat.toDigits 10 n

/-- Decimal digits behind a minus sign for negative numbers. -/
def ofInt : Int → Text
  | .ofNat n => ofNat n
  | .negSucc n => '-' :: ofNat (n + 1)

/-! ### Trimming -/

/-- Drops the longest ending whose items all satisfy `p`. -/
def dropTrailing {α : Type} (p : α → Bool) (s : List α) : List α :=
  (s.reverse.dropWhile p).reverse

def trimLeft (s : Text) : Text := s.dropWhile isBlank

def trimRight (s : Text) : Text := dropTrailing isBlank s

def trim (s : Text) : Text := trimRight (trimLeft s)

/-! ### Fields -/

/-- Cuts a text at every separator; the separators themselves are left out. -/
def fields (sep : Char) : Text → List Text
  | [] => [[]]
  | c :: s =>
    match fields sep s with
    | [] => [[c]]
    | f :: fs => if c = sep then [] :: f :: fs else (c :: f) :: fs

/-- Puts the texts one behind the other with `sep` between neighbours. -/
def joinWith (sep : Text) (parts : List Text) : Text := List.intercalate sep parts

theorem fields_ne_nil (sep : Char) (s : Text) : fields sep s ≠ [] := by
  induction s with
  | nil => simp [fields]
  | cons c s ih =>
    unfold fields
    split
    · simp
    · split <;> simp

theorem fields_cons (sep c : Char) (s : Text) :
    ∃ f fs, fields sep s = f :: fs ∧
      fields sep (c :: s) = if c = sep then [] :: f :: fs else (c :: f) :: fs := by
  match h : fields sep s with
  | [] => exact absurd h (fields_ne_nil sep s)
  | f :: fs => exact ⟨f, fs, rfl, by simp [fields, h]⟩

theorem intercalate_cons_cons (sep f g : Text) (fs : List Text) :
    List.intercalate sep (f :: g :: fs) = f ++ sep ++ List.intercalate sep (g :: fs) := by
  simp [List.intercalate]

theorem intercalate_cons_head (sep : Text) (c : Char) (f : Text) (fs : List Text) :
    List.intercalate sep ((c :: f) :: fs) = c :: List.intercalate sep (f :: fs) := by
  cases fs <;> simp [List.intercalate]

/-- Nothing is lost by cutting at a separator. -/
theorem intercalate_fields (sep : Char) (s : Text) :
    List.intercalate [sep] (fields sep s) = s := by
  induction s with
  | nil => rfl
  | cons c s ih =>
    obtain ⟨f, fs, hf, hc⟩ := fields_cons sep c s
    rw [hc]
    rw [hf] at ih
    by_cases h : c = sep
    · rw [if_pos h, intercalate_cons_cons, ih, h]; rfl
    · rw [if_neg h, intercalate_cons_head, ih]

/-- There is one field more than there are separators. -/
theorem length_fields (sep : Char) (s : Text) : (fields sep s).length = s.count sep + 1 := by
  induction s with
  | nil => rfl
  | cons c s ih =>
    obtain ⟨f, fs, hf, hc⟩ := fields_cons sep c s
    rw [hc]
    rw [hf] at ih
    by_cases h : c = sep
    · subst h; simp at ih ⊢; omega
    · simp [h] at ih ⊢; omega

/-! ### Slices -/

/-- The place a bound stands for; a negative bound counts from the end. -/
def place {α : Type} (s : List α) (i : Int) : Nat :=
  if i < 0 then ((s.length : Int) + i).toNat else i.toNat

/-- The part from one bound up to another. -/
def slice {α : Type} (s : List α) (i j : Int) : List α := (s.take (place s j)).drop (place s i)

theorem slice_of_le {α : Type} (s : List α) (i j : Nat) :
    slice s i j = (s.take j).drop i := by
  have hi : ¬ (i : Int) < 0 := by omega
  have hj : ¬ (j : Int) < 0 := by omega
  simp [slice, place, hi, hj]

/-! ### Occurrences -/

/-- What follows `word`, if the text starts with it. -/
def after? : (word : Text) → Text → Option Text
  | [], s => some s
  | _ :: _, [] => none
  | p :: ps, c :: s => if p = c then after? ps s else none

theorem eq_append_of_after? {word s r : Text} (h : after? word s = some r) : s = word ++ r := by
  induction word generalizing s with
  | nil => simpa [after?] using h
  | cons p ps ih =>
    cases s with
    | nil => simp [after?] at h
    | cons c s =>
      simp only [after?] at h
      split at h
      · next e => rw [ih h, e]; rfl
      · cases h

theorem after?_append (word r : Text) : after? word (word ++ r) = some r := by
  induction word with
  | nil => rfl
  | cons p ps ih => simp [after?, ih]

def startsWith (word s : Text) : Bool := (after? word s).isSome

def endsWith (word s : Text) : Bool := startsWith word.reverse s.reverse

/-- The first place at which `part` occurs. -/
def find? (part : Text) : Text → Option Nat
  | [] => if part = [] then some 0 else none
  | c :: s => if startsWith part (c :: s) then some 0 else (find? part s).map (· + 1)

def contains (part s : Text) : Bool := (find? part s).isSome

/-- Counts the occurrences of a non-empty `part` met from the left, each behind the one before;
`skip` characters in front belong to an occurrence already counted. -/
def disjointCountFrom (part : Text) : (skip : Nat) → Text → Nat
  | _, [] => 0
  | k + 1, _ :: s => disjointCountFrom part k s
  | 0, c :: s =>
    if startsWith part (c :: s) then disjointCountFrom part (part.length - 1) s + 1
    else disjointCountFrom part 0 s

/-- Counts the occurrences of a non-empty `part` that do not overlap, from the left. -/
def disjointCount (part s : Text) : Nat := disjointCountFrom part 0 s

end Text

/-! ### Stable order -/

/-- Puts `a` behind every item of a sorted list that does not have to come after it. -/
def insertLast {α : Type} (before : α → α → Bool) (a : α) : List α → List α
  | [] => [a]
  | b :: bs => if before a b then a :: b :: bs else b :: insertLast before a bs

/-- Sorts by a strict order; items of equal rank keep the order they came in. -/
def sortStable {α : Type} (before : α → α → Bool) (l : List α) : List α :=
  l.foldl (fun sorted a => insertLast before a sorted) []

end BuildScript
