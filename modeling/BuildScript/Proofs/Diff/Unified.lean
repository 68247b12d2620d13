import BuildScript.Proofs.Diff.Hunks
import BuildScript.Proofs.Diff.Patch
/-!
# Unified diffs as patches

A unified diff is the rows of a patch, one behind the other: the hunks of the two texts, each with
its own lines and the lines in front of it. It can be used as a patch if two things hold. No row but
the last is open, for an open row is glued to the one behind it. And the lines of the old text in
front of a hunk are lines for a reader too, for a display line that ends at another boundary than a
line feed is counted by the hunk headers and not by the reader.

Results:
* `unified_eq`: a unified diff is the rows of its patch.
* `readPatch?_unified_iff`: it is read back as this patch exactly if no row but the last is open.
* `replay?_patch`: the patch replayed on the old text gives the new one.
* `patched?_unified`: a unified diff is a usable patch if both hold.
* `patched?_unified_of_closed`: they hold of texts whose display lines all end in line feeds.
-/
namespace BuildScript.Diff

open Text (IsLine Closed feedLines displayLines)

/-- The lines that a stretch adds to a patch. -/
def stretchLines (a b : List Text) (s : Stretch) : List PatchLine :=
  if s.same then (Text.slice a s.oldStart s.oldStop).map .kept
  else
    (Text.slice a s.oldStart s.oldStop).map .removed ++
      (Text.slice b s.newStart s.newStop).map .added

/-- The hunk that a list of stretches makes. -/
def patchHunk (a b : List Text) (hunk : List Stretch) : PatchHunk where
  oldFront := (hunk.head?.map (·.oldStart.toNat)).getD 0
  newFront := (hunk.head?.map (·.newStart.toNat)).getD 0
  lines := hunk.flatMap (stretchLines a b)

/-- The patch that the unified diff of two texts is meant to be. -/
def patch (old new : Text) (context : Int) : List PatchHunk :=
  (hunks context (stretches (displayLines old) (displayLines new))).map
    (patchHunk (displayLines old) (displayLines new))

variable {a b : List Text} {i j i' j' : Nat} {hunk : List Stretch}

/-! ## What a hunk shows -/

theorem stretchLines_level (a b : List Text) (i j n : Nat) :
    stretchLines a b (.level i j n) = ((a.take (i + n)).drop i).map .kept := by
  rw [stretchLines, if_pos (same_level i j n), Stretch.level, Text.slice_of_le]

theorem stretchLines_changed (a b : List Text) (i j k l : Nat) :
    stretchLines a b ⟨false, i, k, j, l⟩ =
      ((a.take k).drop i).map .removed ++ ((b.take l).drop j).map .added := by
  rw [stretchLines, if_neg Bool.false_ne_true, Text.slice_of_le, Text.slice_of_le]

theorem flatten_text_map (mark : Char) (make : Text → PatchLine)
    (hmake : ∀ l, (make l).text = mark :: l) (lines : List Text) :
    ((lines.map make).map (·.text)).flatten = markLines mark lines := by
  rw [List.map_map, markLines, List.flatMap_def]
  congr 2
  funext l
  exact hmake l

theorem showStretch_eq (a b : List Text) (s : Stretch) :
    showStretch a b s = ((stretchLines a b s).map (·.text)).flatten := by
  unfold showStretch stretchLines
  split
  · exact (flatten_text_map ' ' .kept (fun _ => rfl) _).symm
  · rw [List.map_append, List.flatten_append, flatten_text_map '-' .removed fun _ => rfl,
      flatten_text_map '+' .added fun _ => rfl]

theorem Tiles.countP_lines (h : Tiles a b i j hunk i' j') (hi : i' ≤ a.length)
    (hj : j' ≤ b.length) :
    (hunk.flatMap (stretchLines a b)).countP (·.isOld) = i' - i ∧
      (hunk.flatMap (stretchLines a b)).countP (·.isNew) = j' - j := by
  induction h with
  | nil => exact ⟨(Nat.sub_self _).symm, (Nat.sub_self _).symm⟩
  | @same i j n i' j' rest hn hrest ih =>
    obtain ⟨hold, hnew⟩ := ih hi hj
    have hle := hrest.le
    rw [List.flatMap_cons, List.countP_append, List.countP_append, hold, hnew, stretchLines_level,
      List.countP_map, List.countP_map]
    simp only [Function.comp_def, PatchLine.isOld, PatchLine.isNew, List.countP_true,
      List.length_drop, List.length_take]
    omega
  | @changed i j k l i' j' rest hki hlj hrest ih =>
    obtain ⟨hold, hnew⟩ := ih hi hj
    have hle := hrest.le
    rw [List.flatMap_cons, List.countP_append, List.countP_append, hold, hnew,
      stretchLines_changed, List.countP_append, List.countP_append, List.countP_map,
      List.countP_map, List.countP_map, List.countP_map]
    simp only [Function.comp_def, PatchLine.isOld, PatchLine.isNew, List.countP_true,
      List.countP_false, Function.const_apply, List.length_drop, List.length_take]
    omega

theorem Tiles.spans (h : Tiles a b i j hunk i' j') (hne : hunk ≠ []) (hi : i' ≤ a.length)
    (hj : j' ≤ b.length) :
    (patchHunk a b hunk).old = ⟨i, i' - i⟩ ∧ (patchHunk a b hunk).new = ⟨j, j' - j⟩ := by
  obtain ⟨hold, hnew⟩ := h.countP_lines hi hj
  cases hunk with
  | nil => exact absurd rfl hne
  | cons s rest =>
    obtain ⟨hsold, hsnew⟩ := h.head
    rw [PatchHunk.old, PatchHunk.new]
    refine ⟨congrArg₂ Span.mk ?_ hold, congrArg₂ Span.mk ?_ hnew⟩
    · simp [patchHunk, hsold]
    · simp [patchHunk, hsnew]

theorem lineSpan_eq {start stop : Nat} (h : start ≤ stop) :
    lineSpan start stop = Span.text ⟨start, stop - start⟩ := by
  have hlength : (stop : Int) - start = (stop - start : Nat) := by omega
  have hfirst : (start : Int) + 1 = (start + 1 : Nat) := by omega
  unfold lineSpan Span.text
  dsimp only
  rw [hlength, hfirst]
  by_cases hone : stop - start = 1
  · rw [if_pos hone, if_pos (by omega)]
    rfl
  · rw [if_neg hone, if_neg (by omega)]
    by_cases hzero : stop - start = 0
    · rw [if_pos hzero, if_pos (by omega)]
      rfl
    · rw [if_neg hzero, if_neg (by omega)]
      rfl

theorem showHunk_eq (h : Tiles a b i j hunk i' j') (hne : hunk ≠ []) (hi : i' ≤ a.length)
    (hj : j' ≤ b.length) : showHunk a b hunk = (patchHunk a b hunk).rows.flatten := by
  obtain ⟨hold, hnew⟩ := h.spans hne hi hj
  have hle := h.le
  have hlines : hunk.flatMap (showStretch a b) =
      ((patchHunk a b hunk).lines.map (·.text)).flatten := by
    rw [patchHunk, List.map_flatMap, List.flatMap_def, List.flatMap_def, List.flatten_flatten,
      List.map_map]
    exact congrArg (fun render => (hunk.map render).flatten) (funext (showStretch_eq a b))
  obtain ⟨last, hlast⟩ := Option.isSome_iff_exists.1 (List.getLast?_isSome.2 hne)
  obtain ⟨hlastOld, hlastNew⟩ := h.getLast hlast
  cases hunk with
  | nil => exact absurd rfl hne
  | cons s rest =>
    obtain ⟨hsold, hsnew⟩ := h.head
    rw [PatchHunk.rows, List.flatten_cons]
    unfold PatchHunk.header
    rw [hold, hnew, ← hlines, showHunk, List.head?_cons, hlast]
    dsimp only
    rw [hsold, hsnew, hlastOld, hlastNew, lineSpan_eq hle.1, lineSpan_eq hle.2]

/-! ## The diff is its patch -/

theorem flatMap_showHunk {hunks : List (List Stretch)} (h : Covers a b i j hunks i' j')
    (hi : i' ≤ a.length) (hj : j' ≤ b.length) :
    hunks.flatMap (showHunk a b) = ((hunks.map (patchHunk a b)).flatMap (·.rows)).flatten := by
  induction h with
  | nil _ => rfl
  | hunk hn hne htiles hrest ih =>
    have hle := hrest.le
    rw [List.flatMap_cons, List.map_cons, List.flatMap_cons, List.flatten_append, ih hi hj,
      showHunk_eq htiles hne (by omega) (by omega)]

/-- A unified diff is the rows of its patch. -/
theorem unified_eq (old new oldName newName : Text) (context : Nat) :
    unified old new oldName newName context =
      (patchRows oldName newName (patch old new context)).flatten := by
  have hshow := flatMap_showHunk (covers_hunks context (displayLines old) (displayLines new))
    (Nat.le_refl _) (Nat.le_refl _)
  unfold unified patch patchRows
  dsimp only
  cases hhunks : hunks context (stretches (displayLines old) (displayLines new)) with
  | nil => rfl
  | cons hunk rest =>
    rw [hhunks] at hshow
    rw [if_neg (by simp), List.flatten_cons, List.flatten_cons, ← hshow]
    simp

theorem forall_lines_patch {P : Text → Prop} {old new : Text} {context : Nat}
    (hold : ∀ l ∈ displayLines old, P l) (hnew : ∀ l ∈ displayLines new, P l) :
    ∀ h ∈ patch old new context, ∀ l ∈ h.lines, P l.line := by
  have hslice : ∀ {lines : List Text} {i j : Int}, (∀ l ∈ lines, P l) →
      ∀ l ∈ Text.slice lines i j, P l :=
    fun h l hl => h l (List.mem_of_mem_take (List.mem_of_mem_drop hl))
  intro h hh l hl
  obtain ⟨hunk, -, rfl⟩ := List.mem_map.1 hh
  obtain ⟨s, -, hl⟩ := List.mem_flatMap.1 hl
  unfold stretchLines at hl
  split at hl
  · obtain ⟨line, hline, rfl⟩ := List.mem_map.1 hl
    exact hslice hold line hline
  · rcases List.mem_append.1 hl with hl | hl
    · obtain ⟨line, hline, rfl⟩ := List.mem_map.1 hl
      exact hslice hold line hline
    · obtain ⟨line, hline, rfl⟩ := List.mem_map.1 hl
      exact hslice hnew line hline

/-- A unified diff is read back as its patch exactly if no row but the last is open. -/
theorem readPatch?_unified_iff {old new oldName newName : Text} {context : Nat}
    (hold : '\n' ∉ oldName) (hnew : '\n' ∉ newName) :
    readPatch? (unified old new oldName newName context) = some (patch old new context) ↔
      ∀ row ∈ (patchRows oldName newName (patch old new context)).dropLast, Closed row := by
  rw [unified_eq]
  exact readPatch?_flatten_iff hold hnew
    (forall_lines_patch (Text.isLine_displayLines old) (Text.isLine_displayLines new))

/-! ## Replaying the patch -/

theorem drop_eq_append {α : Type} (s : List α) {i m : Nat} (h : i ≤ m) :
    s.drop i = (s.take m).drop i ++ s.drop m := by
  have hsplit := (List.take_append_drop (m - i) (s.drop i)).symm
  rwa [List.drop_drop, Nat.add_sub_of_le h, ← List.drop_take] at hsplit

theorem drop_take_eq_append {α : Type} (s : List α) {i m n : Nat} (h : i ≤ m) (h' : m ≤ n) :
    (s.take n).drop i = (s.take m).drop i ++ (s.take n).drop m := by
  have hsplit := drop_eq_append (s.take n) h
  rwa [List.take_take, Nat.min_eq_left h'] at hsplit

/-- The lines of stretches make new lines of old ones. -/
theorem applyLines?_tiles (h : Tiles a b i j hunk i' j') (rest : List Text) :
    applyLines? (hunk.flatMap (stretchLines a b)) ((a.take i').drop i ++ rest) =
      some ((b.take j').drop j, rest) := by
  induction h with
  | @nil i j =>
    rw [List.drop_take, List.drop_take, Nat.sub_self, Nat.sub_self]
    rfl
  | @same i j n i' j' tail hn hrest ih =>
    have hle := hrest.le
    rw [List.flatMap_cons, stretchLines_level, drop_take_eq_append a (Nat.le_add_right i n) hle.1,
      drop_take_eq_append b (Nat.le_add_right j n) hle.2, List.append_assoc, applyLines?_kept, ih,
      hn.slice_eq]
    rfl
  | @changed i j k l i' j' tail hik hjl hrest ih =>
    have hle := hrest.le
    rw [List.flatMap_cons, stretchLines_changed, drop_take_eq_append a hik hle.1,
      drop_take_eq_append b hjl hle.2, List.append_assoc, List.append_assoc, applyLines?_removed,
      applyLines?_added, ih]
    rfl

/-- The lines that are read of a text agree with others up to the place `i`, and what is behind it
is the same text. -/
structure Agrees (x a : List Text) (i : Nat) : Prop where
  take_eq : x.take i = a.take i
  flatten_drop : (x.drop i).flatten = (a.drop i).flatten

/-- Hunks that cover the lines of two texts make the new text of the old. The induction is on the
hunks; the lines that are read need to agree with those that were compared up to the end of each. -/
theorem applyHunks?_covers {x : List Text} {hunks : List (List Stretch)}
    (h : Covers a b i j hunks i' j') (hi' : i' = a.length) (hj' : j' = b.length)
    (hi : Agrees x a i) (hx : ∀ p ∈ hunks.map (patchHunk a b), Agrees x a p.old.stop) :
    ∃ made, applyHunks? i j (hunks.map (patchHunk a b)) (x.drop i) = some made ∧
      made.flatten = (b.drop j).flatten := by
  induction h with
  | @nil i j n hn =>
    have hsame := hn.slice_eq
    rw [hi', hj', List.take_length, List.take_length] at hsame
    exact ⟨x.drop i, rfl, by rw [hi.flatten_drop, hsame]⟩
  | @hunk i j n k l i' j' hunk rest hn hne htiles hrest ih =>
    have hle := htiles.le
    have hle' := hrest.le
    obtain ⟨hold, hnew⟩ := htiles.spans hne (by omega) (by omega)
    rw [List.map_cons, List.forall_mem_cons] at hx
    have holdStop : (patchHunk a b hunk).old.stop = k := by
      rw [hold]
      exact Nat.add_sub_of_le hle.1
    have hnewStop : (patchHunk a b hunk).new.stop = l := by
      rw [hnew]
      exact Nat.add_sub_of_le hle.2
    have hk : Agrees x a k := holdStop ▸ hx.1
    obtain ⟨made, hmade, hflat⟩ := ih hi' hj' hk hx.2
    -- up to the end of the hunk the lines that are read are those that were compared
    have hread : x.drop i = (a.take (i + n)).drop i ++ ((a.take k).drop (i + n) ++ x.drop k) := by
      rw [drop_eq_append x (Nat.le_trans (Nat.le_add_right i n) hle.1), hk.take_eq,
        drop_take_eq_append a (Nat.le_add_right i n) hle.1, List.append_assoc]
    have hlength : ((a.take (i + n)).drop i).length = n := by
      rw [List.length_drop, List.length_take]
      omega
    have happly := applyHunks?_cons (i := i) (j := j) (h := patchHunk a b hunk)
      (by rw [hlength]; exact congrArg Span.front hold)
      (by rw [hlength]; exact congrArg Span.front hnew)
      (applyLines?_tiles htiles (x.drop k)) (by rw [holdStop, hnewStop]; exact hmade)
    rw [← hread] at happly
    refine ⟨_, happly, ?_⟩
    rw [List.flatten_append, List.flatten_append, hflat, hn.slice_eq,
      drop_eq_append b (Nat.le_add_right j n), drop_eq_append b hle.2, List.flatten_append,
      List.flatten_append, List.append_assoc]

/-- The lines that are read agree with the display lines up to a place in front of which no line but
the last of the text is open. -/
theorem agrees_displayLines {s : Text} {n : Nat}
    (h : ∀ line ∈ (displayLines s).dropLast.take n, Closed line) :
    Agrees (feedLines s) (displayLines s) n := by
  have hlines := Text.isLine_displayLines s
  have hflat := Text.flatten_displayLines s
  generalize displayLines s = ls at h hlines hflat
  subst hflat
  by_cases hn : n < ls.length
  · rw [List.dropLast_eq_take, List.take_take, Nat.min_eq_left (by omega)] at h
    have hread := Text.feedLines_flatten_append (fun l hl => hlines l (List.mem_of_mem_take hl)) h
      (ls.drop n).flatten
    rw [← List.flatten_append, List.take_append_drop] at hread
    have hlength : (ls.take n).length = n := List.length_take_of_le (Nat.le_of_lt hn)
    refine ⟨?_, ?_⟩
    · rw [hread, List.take_left' hlength]
    · rw [hread, List.drop_left' hlength, Text.flatten_feedLines]
  · rw [List.take_of_length_le (by rw [List.length_dropLast]; omega)] at h
    rw [Text.feedLines_flatten hlines h]
    exact ⟨rfl, rfl⟩

/-- The patch of two texts replayed on the old text gives the new one. -/
theorem replay?_patch {old new : Text} {context : Nat}
    (h : ∀ p ∈ patch old new context,
      ∀ line ∈ (displayLines old).dropLast.take p.old.stop, Closed line) :
    replay? (patch old new context) old = some new := by
  have hcovers := covers_hunks context (displayLines old) (displayLines new)
  have hstart : Agrees (feedLines old) (displayLines old) 0 :=
    agrees_displayLines fun _ hline => absurd hline List.not_mem_nil
  obtain ⟨made, hmade, hflat⟩ := applyHunks?_covers hcovers rfl rfl hstart fun p hp =>
    agrees_displayLines (h p hp)
  have hnew : made.flatten = new := hflat.trans (Text.flatten_displayLines new)
  rw [List.drop_zero] at hmade
  rw [replay?, patch, hmade, Option.map_some, hnew]

/-! ## Usable patches -/

/-- A unified diff is a usable patch, with any number of context lines, if no row but the last is
open, and no line of the old text up to the end of a hunk is, but for the last of the text. -/
theorem patched?_unified {old new oldName newName : Text} {context : Nat}
    (hold : '\n' ∉ oldName) (hnew : '\n' ∉ newName)
    (hrows : ∀ row ∈ (patchRows oldName newName (patch old new context)).dropLast, Closed row)
    (hlines : ∀ p ∈ patch old new context,
      ∀ line ∈ (displayLines old).dropLast.take p.old.stop, Closed line) :
    patched? (unified old new oldName newName context) old = some new := by
  rw [patched?, (readPatch?_unified_iff hold hnew).2 hrows, Option.bind_some, replay?_patch hlines]

/-- A line that stayed at the end of both texts may be open. -/
theorem patched?_unified_openEnd :
    patched? (unified "a\nb\nc".toList "a\nd\nc".toList "a/build.gradle".toList
        "b/build.gradle".toList 3) "a\nb\nc".toList = some "a\nd\nc".toList :=
  patched?_unified (by decide) (by decide) (by decide) (by decide)

/-- A display line that ends at a form feed is glued to the one behind it, so its hunk is not read
to its end. In front of a hunk it is counted, so there is no line of the number that the hunk gives.
-/
theorem patched?_unified_formFeed :
    patched? (unified "a\x0cb\n".toList "c\x0cb\n".toList "a/build.gradle".toList
        "b/build.gradle".toList 3) "a\x0cb\n".toList ≠ some "c\x0cb\n".toList ∧
      patched? (unified "a\x0cb\nc\n".toList "a\x0cb\nd\n".toList "a/build.gradle".toList
        "b/build.gradle".toList 0) "a\x0cb\nc\n".toList ≠ some "a\x0cb\nd\n".toList := by
  decide

/-- The unified diff of two texts whose display lines all end in line feeds is a usable patch. -/
theorem patched?_unified_of_closed {old new oldName newName : Text} {context : Nat}
    (hold : '\n' ∉ oldName) (hnew : '\n' ∉ newName) (hlinesOld : ∀ l ∈ displayLines old, Closed l)
    (hlinesNew : ∀ l ∈ displayLines new, Closed l) :
    patched? (unified old new oldName newName context) old = some new := by
  have hrows : ∀ row ∈ patchRows oldName newName (patch old new context), Closed row :=
    closed_patchRows (forall_lines_patch hlinesOld hlinesNew)
  have hread := (readPatch?_unified_iff hold hnew).2 fun row hrow =>
    hrows row ((List.dropLast_sublist _).subset hrow)
  have hreplay : replay? (patch old new context) old = some new :=
    replay?_patch fun _ _ line hline =>
      hlinesOld line ((List.dropLast_sublist _).subset (List.mem_of_mem_take hline))
  rw [patched?, hread, Option.bind_some, hreplay]

end BuildScript.Diff
