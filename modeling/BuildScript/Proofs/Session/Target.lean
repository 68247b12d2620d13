import BuildScript.Proofs.Block.Matching
import BuildScript.Proofs.Index.Accuracy
import BuildScript.Proofs.Session.Coherence
/-!
# Where an addition goes

An addition goes in front of the line that closes the block of the chosen opener. So it is always
inside that block. The opener is the one that is meant as long as openers at depth zero come first
on their lines and no brace is closed in front of them there, and the addition is a direct part of
the block as long as the closing line does not close other braces first.

Results:
* `addsTo_target?`: which opener an addition goes to, and what comes of it.
* `addsTo_besideScript`: an opener behind a closing brace is not seen for what it is.
* `insertion_inside`: where in its block an addition stands.
* `insertion_sharedClosing`: a closing line that closes an inner block first.
-/
namespace BuildScript.Session

open Text Block

variable {block text : Text} {s : Session} {r : Request}

/-- What comes of an addition to the block that is opened at a place of the script, if there is such
a place: it is refused, or it goes in front of the line on which the block is closed. -/
inductive AddsTo (s : Session) (r : Request) (block : Text) : Option Nat → Prop
  | missing (h : (s.attempt r).fault = some (.blockMissing block)) : AddsTo s r block none
  | unclosed {o : Nat} (hcloses : closes? s.index.text o = none)
      (h : (s.attempt r).fault = some (.blockUnclosed block (lineNumber s.index.text o + 1))) :
      AddsTo s r block (some o)
  | onOneLine {o q : Nat} (hcloses : closes? s.index.text o = some q)
      (hline : lineNumber s.index.text q = lineNumber s.index.text o)
      (h : (s.attempt r).fault = some (.blockOnOneLine block (lineNumber s.index.text o + 1))) :
      AddsTo s r block (some o)
  | inserted {o q : Nat} (hcloses : closes? s.index.text o = some q)
      (hline : lineNumber s.index.text o < lineNumber s.index.text q)
      (h : (s.attempt r).fault = none) {declaration description : Text}
      (hedits : (s.after r).edits = s.edits ++
        [lineInsertion s.index.text (lineNumber s.index.text q) declaration description]) :
      AddsTo s r block (some o)

theorem addsTo_of_lines (hlines : s.index.lines = lines s.index.text)
    (hblock : r.block? = some block) : s.AddsTo r block (target? block s.index.text) := by
  obtain ⟨declaration, description, hattempt⟩ := s.attempt_of_block? hblock
  have hclosing := closingLine_eq block s.index.text
  rw [← hlines] at hclosing
  rw [insertInto, hclosing] at hattempt
  cases htarget : target? block s.index.text with
  | none =>
    rw [htarget] at hattempt
    exact .missing (by rw [hattempt])
  | some o =>
    rw [htarget] at hattempt
    dsimp only at hattempt
    cases hcloses : closes? s.index.text o with
    | none =>
      rw [hcloses] at hattempt
      exact .unclosed hcloses (by rw [hattempt])
    | some q =>
      rw [hcloses] at hattempt
      dsimp only at hattempt
      by_cases hline : lineNumber s.index.text q = lineNumber s.index.text o
      · rw [if_pos hline] at hattempt
        exact .onOneLine hcloses hline (by rw [hattempt])
      · rw [if_neg hline] at hattempt
        have hle : o ≤ q := of_decide_eq_true (List.mem_filter.1 (mem_of_closeFrom? hcloses)).2
        have hlt := lineNumber_le s.index.text hle
        exact .inserted hcloses (by omega) (by rw [hattempt])
          (by rw [after, hattempt]; exact List.map_append)

/-- Which opener an addition goes to, and what comes of it, behind every course of requests on a
script. In a script where the openers at depth zero are plain it is the one that is meant. -/
theorem addsTo_target? (kinds : List Kind) (enabled : Option (List Kind)) (skipComments : Bool)
    (editor : EditorOptions) (text : Text) (requests : List Request)
    (hblock : r.block? = some block) :
    let base := Index.parse (.builtIn kinds enabled skipComments) text
    let s := (start base editor).afterAll requests
    s.AddsTo r block (target? block text) ∧
    target? block text = ((firsts block text).find? fun p =>
      depthAt text p + closedInLine text p = 0).or (places block text).head? ∧
    (Plain block text → target? block text = meant? block text) := by
  intro base s
  have hcoherent := coherent_afterAll base editor requests
  have hadds := addsTo_of_lines (s := s) (hcoherent.lines.trans
    (congrArg lines hcoherent.text.symm)) hblock
  rw [show s.index.text = text from hcoherent.text] at hadds
  exact ⟨hadds, target?_eq block text, target?_eq_meant?⟩

/-- A script that opens a block inside another one before it opens it at depth zero. -/
def innerScript : Text :=
  "buildscript \x7b\n    dependencies \x7b\n    \x7d\n\x7d\n\ndependencies \x7b\n\x7d\n".toList

/-- A dependency goes to the second block. -/
theorem addsTo_innerScript :
    let request := Request.addDependency "g".toList "n".toList "1".toList none
    request.block? = some "dependencies".toList ∧ Plain "dependencies".toList innerScript ∧
      meant? "dependencies".toList innerScript = some 42 ∧
      (start (Index.parse (.builtIn Kind.all none true) innerScript) {}).AddsTo request
        "dependencies".toList (meant? "dependencies".toList innerScript) := by
  have hblock : (Request.addDependency "g".toList "n".toList "1".toList none).block? =
      some "dependencies".toList := rfl
  have hplain : Plain "dependencies".toList innerScript := ⟨by decide, by decide, by decide⟩
  obtain ⟨hadds, -, hmeant⟩ := addsTo_target? Kind.all none true {} innerScript [] hblock
  rw [hmeant hplain] at hadds
  exact ⟨hblock, hplain, by decide, hadds⟩

/-- A script that opens a block at depth zero behind the brace that closes another one. -/
def besideScript : Text :=
  "buildscript \x7b\n    dependencies \x7b\n    \x7d\n\x7d dependencies \x7b\n\x7d\n".toList

/-- A dependency goes to the inner block, though the other one is meant. -/
theorem addsTo_besideScript :
    let s := start (Index.parse (.builtIn Kind.all none true) besideScript) {}
    meant? "dependencies".toList besideScript = some 41 ∧ depthAt besideScript 41 = 0 ∧
      closes? besideScript 41 = some 56 ∧ lineStart besideScript (lineNumber besideScript 56) = 56 ∧
      target? "dependencies".toList besideScript = some 18 ∧ depthAt besideScript 18 = 1 ∧
      (s.after (.addDependency "g".toList "n".toList "1".toList none)).edits =
        [⟨.insert, .point 3 1 33, [], "    implementation 'g:n:1'\n".toList,
          "Add dependency g:n:1 with scope implementation".toList⟩] :=
  ⟨by decide, by decide, by decide, by decide, by decide, by decide, rfl⟩

/-! ## Inside the block -/

theorem not_mem_block (h : r.block? = some block) : '\x7b' ∉ block ∧ '\x7d' ∉ block := by
  cases r <;> cases h <;> decide

/-- Behind every course of requests on a script, an addition that is carried out stands between the
brace that opens the block of the chosen opener and the brace that closes it. It is a direct part
of that block just when the code from there up to the closing brace opens as many braces as it
closes. -/
theorem insertion_inside (kinds : List Kind) (enabled : Option (List Kind)) (skipComments : Bool)
    (editor : EditorOptions) (text : Text) (requests : List Request)
    (hblock : r.block? = some block)
    (hfault : (((start (Index.parse (.builtIn kinds enabled skipComments) text) editor).afterAll
      requests).attempt r).fault = none) :
    let s :=
      (start (Index.parse (.builtIn kinds enabled skipComments) text) editor).afterAll requests
    ∃ (edit : Edit) (o b q p : Nat), (s.after r).edits = s.edits ++ [edit] ∧ edit.kind = .insert ∧
      edit.region.start = p ∧ edit.region.stop = p ∧
      target? block text = some o ∧ OpensBlock block text o b ∧ ClosesBlock text o b q ∧
      b < p ∧ p ≤ q ∧ ((openAt text o p).head? = some b ↔
        opened (codeBetween text p q) = closed (codeBetween text p q)) := by
  intro s
  have hcoherent := coherent_afterAll (Index.parse (.builtIn kinds enabled skipComments) text)
    editor requests
  have htext : s.index.text = text := hcoherent.text
  have hadds := addsTo_of_lines (s := s) (hcoherent.lines.trans
    (congrArg lines hcoherent.text.symm)) hblock
  rw [htext] at hadds
  generalize htarget : target? block text = target at hadds
  cases hadds with
  | missing h => rw [hfault] at h; cases h
  | unclosed _ h => rw [hfault] at h; cases h
  | onOneLine _ _ h => rw [hfault] at h; cases h
  | @inserted o q hcloses hline _ declaration description hedits =>
    rw [htext] at hcloses hline hedits
    have hnames := not_mem_block hblock
    obtain ⟨b, hopens⟩ := exists_opensBlock htarget
    obtain ⟨hmatch, -⟩ := hopens.closesBlock hnames hcloses
    obtain ⟨hlt, hle⟩ := lineStart_lineNumber_le hmatch.mem
    have hbp : b < lineStart text (lineNumber text q) :=
      lt_lineStart_of_lineNumber_lt hlt (by rw [hopens.sameLine]; exact hline)
    exact ⟨_, o, b, q, lineStart text (lineNumber text q), hedits, rfl, rfl, rfl, rfl, hopens,
      hmatch, hbp, hle, hopens.head?_openAt_iff hnames hcloses hbp hle⟩

/-- The second block of the script above is closed by a brace on a line of its own, so a dependency
is a direct part of it. -/
theorem insertion_innerScript :
    let s := start (Index.parse (.builtIn Kind.all none true) innerScript) {}
    let request := Request.addDependency "g".toList "n".toList "1".toList none
    request.block? = some "dependencies".toList ∧ (s.attempt request).fault = none ∧
      ∃ (edit : Edit) (o b q p : Nat), (s.after request).edits = [edit] ∧ edit.kind = .insert ∧
        edit.region.start = p ∧ OpensBlock "dependencies".toList innerScript o b ∧
        ClosesBlock innerScript o b q ∧ b < p ∧ p ≤ q ∧
        ((openAt innerScript o p).head? = some b ↔
          opened (codeBetween innerScript p q) = closed (codeBetween innerScript p q)) := by
  have hblock : (Request.addDependency "g".toList "n".toList "1".toList none).block? =
      some "dependencies".toList := rfl
  have hfault : ((start (Index.parse (.builtIn Kind.all none true) innerScript) {}).attempt
      (.addDependency "g".toList "n".toList "1".toList none)).fault = none := by decide
  obtain ⟨edit, o, b, q, p, hedits, hkind, hstart, -, -, hopens, hcloses, hlt, hle, hinside⟩ :=
    insertion_inside Kind.all none true {} innerScript [] hblock hfault
  exact ⟨hblock, hfault, edit, o, b, q, p, hedits, hkind, hstart, hopens, hcloses, hlt, hle,
    hinside⟩

/-- A script with a block that is closed behind an inner one, on the same line. -/
def sharedClosing : Text := "dependencies \x7b\n    constraints \x7b\n    \x7d \x7d\n".toList

/-- A dependency is put into the inner block. -/
theorem insertion_sharedClosing :
    let s := start (Index.parse (.builtIn Kind.all none true) sharedClosing) {}
    let request := Request.addDependency "g".toList "n".toList "1".toList none
    (s.attempt request).fault = none ∧
      target? "dependencies".toList sharedClosing = some 0 ∧
      OpensBlock "dependencies".toList sharedClosing 0 13 ∧ ClosesBlock sharedClosing 0 13 39 ∧
      (s.after request).edits.map (·.region) = [.point 3 1 33] ∧
      openAt sharedClosing 0 33 = [31, 13] := by
  have hblank : ∀ c ∈ [' '], isBlank c = true := List.all_eq_true.1 rfl
  exact ⟨by decide, by decide, ⟨by decide, ⟨[' '], hblank, by decide⟩, by decide, by decide⟩,
    ⟨by decide, by decide, by decide⟩, rfl, by decide⟩

end BuildScript.Session
