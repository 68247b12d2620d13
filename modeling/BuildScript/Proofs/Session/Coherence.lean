import Mathlib.Data.List.Pairwise
import BuildScript.Proofs.Session.Step
import BuildScript.Proofs.Edit.Splice
/-!
# What is pending fits the script

The pending changes, the remembered texts and the entries are kept apart, and a session is only as
good as their agreement. `Coherent` is that agreement: every pending change is the one that its
entry and the script call for, and no entry has two. Each of the five steps keeps it, so it holds
however a session came about; what it means for the edits is `Sound`.

Results:
* `coherent_step`, `coherent_afterAll`: coherence is kept by every request.
* `isRemoved_afterAll`: an entry counts as removed when a request removed it and none cleared since.
* `sound_afterAll`: what is pending passes a review, and each kind of edit has its shape.
-/
namespace BuildScript

theorem Block.pos_of_closingLine {block : Text} {lines : List Text} {n : Nat}
    (h : closingLine block lines = .ok n) : 0 < n := by
  unfold closingLine at h
  split at h
  · cases h
  · dsimp only at h
    split at h
    · cases h
    · split at h
      · cases h
      · next hc =>
        cases h
        have := (closingFrom?_bounds hc).1
        omega

namespace Edit

/-! ## Edits of lines -/

theorem problems_eq_nil_of_fits {text : Text} {e : Edit} (h : e.Fits text) :
    e.problems text = [] := by
  obtain ⟨u, v, htext, hstart, hstop⟩ := h
  refine problems_eq_nil_iff.2 ⟨by omega, by omega, ?_, fun hk => ?_⟩
  · rw [htext, List.length_append, List.length_append]
    omega
  · rw [expected, if_neg hk] at htext hstop
    rw [htext, hstart, hstop, ← Int.natCast_add, Text.slice_of_le, ← List.length_append,
      List.take_left, List.drop_left]

/-- An edit deletes one line of a text and one line feed next to it: the one behind the line, or
the one in front of it if the line is the last. The only line of a text goes alone. -/
inductive DeletesLine (text : Text) (e : Edit) : (k : Nat) → Prop
  | inner {k : Nat} {line : Text} (at_line : (Text.lines text)[k]? = some line)
      (next : k + 1 < (Text.lines text).length) (start : e.start = Text.lineStart text k)
      (stop : e.stop = Text.lineStart text (k + 1)) (old : e.oldText = line ++ ['\n']) :
      DeletesLine text e k
  | last {k : Nat} {before line : Text} (at_before : (Text.lines text)[k]? = some before)
      (at_line : (Text.lines text)[k + 1]? = some line) (next : k + 2 = (Text.lines text).length)
      (start : e.start = (Text.lineStart text k + before.length : Nat))
      (stop : e.stop = text.length) (old : e.oldText = '\n' :: line) : DeletesLine text e (k + 1)
  | only (single : Text.lines text = [text]) (start : e.start = 0) (stop : e.stop = text.length)
      (old : e.oldText = text) : DeletesLine text e 0

end Edit

namespace Session

theorem removalBounds_of_lt {text : Text} {k : Nat} (h : k + 1 < (Text.lines text).length) :
    removalBounds text k = (Text.lineStart text k, Text.lineStart text (k + 1)) := by
  unfold removalBounds
  dsimp only
  rw [(Text.getElem?_lineStarts h).1]
  rfl

theorem removalBounds_last {text : Text} {k : Nat} (h : (Text.lines text).length ≤ k + 1) :
    removalBounds text k = (Text.lineStart text k - 1, text.length) := by
  unfold removalBounds
  dsimp only
  rw [List.getElem?_eq_none (by rwa [Text.length_lineStarts])]
  rfl

theorem removalBounds_le {text : Text} {k : Nat} (h : k < (Text.lines text).length) :
    (removalBounds text k).1 ≤ (removalBounds text k).2 ∧
      (removalBounds text k).2 ≤ text.length := by
  have hend := Text.lineStart_add_length_le (List.getElem?_eq_getElem h)
  by_cases hk : k + 1 < (Text.lines text).length
  · have hlt : Text.lineStart text k < Text.lineStart text (k + 1) :=
      Text.lineStart_lt (Nat.lt_succ_self k) hk
    have hnext := Text.lineStart_add_length_le (List.getElem?_eq_getElem hk)
    rw [removalBounds_of_lt hk]
    exact ⟨by omega, by omega⟩
  · rw [removalBounds_last (Nat.le_of_not_lt hk)]
    exact ⟨by omega, by omega⟩

theorem problems_lineRemoval {text : Text} {k : Nat} (h : k < (Text.lines text).length)
    (description : Text) : (lineRemoval text k description).problems text = [] := by
  obtain ⟨hle, hlen⟩ := removalBounds_le h
  refine Edit.problems_eq_nil_iff.2 ⟨Int.natCast_nonneg _, ?_, ?_, fun _ => Text.slice_of_le _ _ _⟩
  · exact Int.ofNat_le.2 hle
  · exact Int.ofNat_le.2 hlen

theorem deletesLine_lineRemoval {text : Text} {k : Nat} (h : k < (Text.lines text).length)
    (description : Text) : (lineRemoval text k description).DeletesLine text k := by
  have hline := List.getElem?_eq_getElem h
  have hold : (lineRemoval text k description).oldText =
      (text.take (removalBounds text k).2).drop (removalBounds text k).1 := rfl
  have hstart : (lineRemoval text k description).start = (removalBounds text k).1 := rfl
  have hstop : (lineRemoval text k description).stop = (removalBounds text k).2 := rfl
  generalize (Text.lines text)[k] = line at hline
  rcases Text.text_split hline with ⟨hk, htext⟩ | ⟨hlast, htext⟩
  · rw [removalBounds_of_lt hk] at hold hstart hstop
    refine .inner hline hk hstart hstop ?_
    rw [hold, Text.lineStart_succ hline hk, Nat.add_assoc, Text.lineStart_eq h]
    generalize Text.terminated ((Text.lines text).take k) = front at htext
    rw [htext, List.append_assoc front]
    simpa using Text.drop_take_append front (line ++ ['\n'])
      (Text.joinWith ['\n'] ((Text.lines text).drop (k + 1)))
  · rw [removalBounds_last (Nat.le_of_eq hlast.symm)] at hold hstart hstop
    cases k with
    | zero =>
      have hsingle : Text.lines text = [text] := by
        rw [List.take_zero, Text.terminated_nil, List.nil_append] at htext
        rw [← htext] at hline
        obtain ⟨l, hl⟩ := List.length_eq_one_iff.1 hlast.symm
        rw [hl] at hline ⊢
        exact congrArg (fun l => [l]) (Option.some.inj hline)
      rw [Text.lineStart_zero] at hold hstart
      exact .only hsingle hstart hstop (by rw [hold, List.take_length]; rfl)
    | succ k =>
      have hbefore := List.getElem?_eq_getElem (Nat.lt_of_succ_lt h)
      generalize (Text.lines text)[k] = before at hbefore
      have hbound : Text.lineStart text (k + 1) - 1 = Text.lineStart text k + before.length := by
        rw [Text.lineStart_succ hbefore h]
        omega
      rw [hbound] at hold hstart
      refine .last hbefore hline hlast hstart hstop ?_
      rw [hold, Text.lineStart_eq (Nat.lt_of_succ_lt h), List.take_length]
      rw [Text.terminated_take_succ hbefore] at htext
      generalize Text.terminated ((Text.lines text).take k) = front at htext
      rw [htext, ← List.length_append, List.append_assoc (front ++ before), List.drop_left]
      rfl

end Session

/-! ## Coherence -/

/-- The entry that a change is about; an insertion is about none. -/
def Change.subject? : Change → Option Nat
  | .update i _ => some i
  | .insertion _ => none
  | .removal i _ => some i

namespace Change

@[simp] theorem subject?_update (i : Nat) (edit : Edit) : (update i edit).subject? = some i := rfl

@[simp] theorem subject?_insertion (edit : Edit) : (insertion edit).subject? = none := rfl

@[simp] theorem subject?_removal (i : Nat) (edit : Edit) : (removal i edit).subject? = some i := rfl

theorem subject?_eq_some_iff {c : Change} {i : Nat} :
    c.subject? = some i ↔ c.updates i = true ∨ c.removes i = true := by
  cases c <;> simp [updates, removes]

end Change

namespace Session

/-- A pending change is the one that its entry and the script call for. -/
def Carries (s : Session) : Change → Prop
  | .update i edit => ∃ e description, s.index.entries[i]? = some e ∧ e.rawText ≠ s.parsedText i ∧
      edit = ⟨.replace, e.region, s.parsedText i, e.rawText, description⟩
  | .insertion edit => ∃ k declaration description, 0 < k ∧ k < s.index.lines.length ∧
      edit = lineInsertion s.index.text k declaration description
  | .removal i edit => ∃ e description, s.index.entries[i]? = some e ∧
      edit = lineRemoval s.index.text e.line description

/-- What is pending in a session agrees with the index it was started on. -/
structure Coherent (base : Index) (s : Session) : Prop where
  text : s.index.text = base.text
  lines : s.index.lines = base.lines
  regions : s.index.entries.map (·.region) = base.entries.map (·.region)
  parsedTexts : s.parsedTexts = base.entries.map (·.rawText)
  carries : ∀ c ∈ s.changes, s.Carries c
  subjects : (s.changes.filterMap Change.subject?).Nodup

theorem coherent_start (base : Index) (options : EditorOptions) :
    Coherent base (start base options) :=
  ⟨rfl, rfl, rfl, rfl, fun _ h => absurd h List.not_mem_nil, List.nodup_nil⟩

variable {base : Index} {s s' : Session} {e : Entry} {i : Nat}

/-- An entry keeps the region it was parsed with. -/
theorem Coherent.parsed (h : Coherent base s) (he : s.index.entries[i]? = some e) :
    ∃ e₀, base.entries[i]? = some e₀ ∧ e₀.region = e.region ∧ s.parsedText i = e₀.rawText := by
  have hr : (base.entries.map (·.region))[i]? = some e.region := by
    rw [← h.regions, List.getElem?_map, he]
    rfl
  rw [List.getElem?_map, Option.map_eq_some_iff] at hr
  obtain ⟨e₀, he₀, hregion⟩ := hr
  refine ⟨e₀, he₀, hregion, ?_⟩
  rw [parsedText, h.parsedTexts, List.getD_eq_getElem?_getD, List.getElem?_map, he₀]
  rfl

theorem parsedText_start (he : base.entries[i]? = some e) (editor : EditorOptions) :
    (start base editor).parsedText i = e.rawText := by
  obtain ⟨e₀, he₀, -, hparsed⟩ := (coherent_start base editor).parsed he
  rw [hparsed, Option.some.inj (he₀.symm.trans he)]

/-- No entry has two changes pending. -/
theorem Coherent.eq_of_subject {c c' : Change} (h : Coherent base s) (hc : c ∈ s.changes)
    (hc' : c' ∈ s.changes) (hi : c.subject? = some i) (hi' : c'.subject? = some i) : c = c' := by
  have hsymm : Std.Symm fun a b : Change =>
      ∀ i, a.subject? = some i → ∀ j, b.subject? = some j → i ≠ j :=
    ⟨fun a b hab j hj i hi => (hab i hi j hj).symm⟩
  have hpair := List.pairwise_filterMap.1 h.subjects
  exact Decidable.byContradiction fun hne => hpair.forall hc hc' hne i hi i hi' rfl

/-- Changes that are about other entries and come with a new one about `i`. -/
theorem nodup_subjects_concat {changes : List Change} {c : Change} (hc : c.subject? = some i)
    (hnodup : (changes.filterMap Change.subject?).Nodup)
    (hremoved : changes.any (·.removes i) = false) :
    (((changes.filter fun c => !c.updates i) ++ [c]).filterMap Change.subject?).Nodup := by
  rw [List.filterMap_append, List.filterMap_cons_some hc, List.filterMap_nil, List.nodup_append]
  refine ⟨hnodup.sublist (List.filter_sublist.filterMap _), List.pairwise_singleton _ i, ?_⟩
  intro j hj j' hj'
  obtain ⟨c', hmem, hsub⟩ := List.mem_filterMap.1 hj
  obtain ⟨hmem, hupd⟩ := List.mem_filter.1 hmem
  rw [List.mem_singleton] at hj'
  rintro rfl
  rw [hj'] at hsub
  rcases Change.subject?_eq_some_iff.1 hsub with hu | hr
  · rw [hu] at hupd
    cases hupd
  · have := List.any_eq_false.1 hremoved c' hmem
    exact this hr

theorem carries_record {c : Change} (h : s.Carries c) (hc : c.subject? ≠ some i)
    (e : Entry) (value : Declaration) (newText description : Text) :
    (s.record i e value newText description).Carries c := by
  cases c with
  | update j edit =>
    obtain ⟨e', d, he', hne, hedit⟩ := h
    have hij : i ≠ j := fun hij => hc (congrArg some hij.symm)
    exact ⟨e', d, (List.getElem?_set_ne hij).trans he', hne, hedit⟩
  | insertion edit => exact h
  | removal j edit =>
    obtain ⟨e', d, he', hedit⟩ := h
    have hij : i ≠ j := fun hij => hc (congrArg some hij.symm)
    exact ⟨e', d, (List.getElem?_set_ne hij).trans he', hedit⟩

theorem changes_record_of_eq {newText : Text} (h : newText = s.parsedText i) (e : Entry)
    (value : Declaration) (description : Text) :
    (s.record i e value newText description).changes = s.changes.filter fun c => !c.updates i :=
  if_pos h

theorem changes_record_of_ne {newText : Text} (h : newText ≠ s.parsedText i) (e : Entry)
    (value : Declaration) (description : Text) :
    (s.record i e value newText description).changes =
      (s.changes.filter fun c => !c.updates i) ++
        [.update i ⟨.replace, e.region, s.parsedText i, newText, description⟩] :=
  if_neg h

theorem mem_changes_record_iff {c : Change} {e : Entry} {value : Declaration}
    {newText description : Text} : c ∈ (s.record i e value newText description).changes ↔
      (c ∈ s.changes.filter fun c => !c.updates i) ∨ (newText ≠ s.parsedText i ∧
        c = .update i ⟨.replace, e.region, s.parsedText i, newText, description⟩) := by
  by_cases h : newText = s.parsedText i
  · rw [changes_record_of_eq h]
    simp [h]
  · rw [changes_record_of_ne h, List.mem_append, List.mem_singleton]
    simp [h]

theorem getElem?_record_iff {j : Nat} {e e' : Entry} {value : Declaration}
    {newText description : Text} (hi : i < s.index.entries.length) :
    (s.record i e value newText description).index.entries[j]? = some e' ↔
      (j = i ∧ e' = { e with declaration := value, rawText := newText }) ∨
        (j ≠ i ∧ s.index.entries[j]? = some e') := by
  show (s.index.entries.set i _)[j]? = some e' ↔ _
  by_cases hji : j = i
  · subst hji
    rw [List.getElem?_set_self hi]
    simp [eq_comm]
  · rw [List.getElem?_set_ne (Ne.symm hji)]
    simp [hji]

/-- A change of an entry in place that stays pending is about another entry. -/
theorem subject?_ne_of_mem_filter {c : Change} (hremoved : s.isRemoved i = false)
    (hc : c ∈ s.changes.filter fun c => !c.updates i) : c ∈ s.changes ∧ c.subject? ≠ some i := by
  obtain ⟨hmem, hupd⟩ := List.mem_filter.1 hc
  refine ⟨hmem, fun hsub => ?_⟩
  rcases Change.subject?_eq_some_iff.1 hsub with hu | hr
  · rw [hu] at hupd
    cases hupd
  · exact List.any_eq_false.1 hremoved c hmem hr

theorem coherent_record (h : Coherent base s) (hmem : (e, i) ∈ s.remaining) (value : Declaration)
    (newText description : Text) : Coherent base (s.record i e value newText description) := by
  obtain ⟨he, hremoved⟩ := mem_remaining hmem
  obtain ⟨hi, -⟩ := List.getElem?_eq_some_iff.1 he
  refine ⟨h.text, h.lines, ?_, h.parsedTexts, ?_, ?_⟩
  · rw [← h.regions]
    show (s.index.entries.set i _).map (·.region) = _
    rw [List.map_set]
    refine List.ext_getElem? fun j => ?_
    rw [List.getElem?_set, List.getElem?_map]
    split
    · next hij =>
      subst hij
      rw [if_pos (by rwa [List.length_map]), he]
      rfl
    · rfl
  · intro c hc
    rcases mem_changes_record_iff.1 hc with hc | ⟨hsame, rfl⟩
    · obtain ⟨hold, hne⟩ := subject?_ne_of_mem_filter hremoved hc
      exact carries_record (h.carries c hold) hne e value newText description
    · exact ⟨_, description, List.getElem?_set_self hi, hsame, rfl⟩
  · by_cases hsame : newText = s.parsedText i
    · rw [changes_record_of_eq hsame]
      exact h.subjects.sublist (List.filter_sublist.filterMap _)
    · rw [changes_record_of_ne hsame]
      exact nodup_subjects_concat rfl h.subjects hremoved

theorem coherent_recordRemoval (h : Coherent base s) (hmem : (e, i) ∈ s.remaining)
    (description : Text) :
    Coherent base (s.recordRemoval i (lineRemoval s.index.text e.line description)) := by
  obtain ⟨he, hremoved⟩ := mem_remaining hmem
  refine ⟨h.text, h.lines, h.regions, h.parsedTexts, ?_,
    nodup_subjects_concat rfl h.subjects hremoved⟩
  intro c hc
  rcases List.mem_append.1 hc with hc | hc
  · exact h.carries c (subject?_ne_of_mem_filter hremoved hc).1
  · rw [List.mem_singleton.1 hc]
    exact ⟨e, description, he, rfl⟩

theorem coherent_recordInsertion {k : Nat} (h : Coherent base s) (hpos : 0 < k)
    (hk : k < s.index.lines.length) (declaration description : Text) :
    Coherent base (s.recordInsertion (lineInsertion s.index.text k declaration description)) := by
  refine ⟨h.text, h.lines, h.regions, h.parsedTexts, ?_, ?_⟩
  · intro c hc
    rcases List.mem_append.1 hc with hc | hc
    · exact h.carries c hc
    · rw [List.mem_singleton.1 hc]
      exact ⟨k, declaration, description, hpos, hk, rfl⟩
  · show ((s.changes ++ [_]).filterMap Change.subject?).Nodup
    rw [List.filterMap_append]
    exact (List.append_nil _).symm ▸ h.subjects

/-- Coherence is kept by every step. -/
theorem coherent_step {r : Request} (h : Coherent base s) (hstep : Step s r s') :
    Coherent base s' := by
  cases hstep with
  | stay => exact h
  | clear =>
    exact ⟨h.text, h.lines, h.regions, h.parsedTexts, fun _ hc => absurd hc List.not_mem_nil,
      List.nodup_nil⟩
  | record _ hmem value newText description =>
    exact coherent_record h hmem value newText description
  | remove _ _ _ hmem description => exact coherent_recordRemoval h hmem description
  | insert _ _ _ hclosing declaration description =>
    exact coherent_recordInsertion h (Block.pos_of_closingLine hclosing)
      (Block.lt_of_closingLine hclosing) declaration description

/-- Coherence is kept by every course of requests. -/
theorem coherent_afterAll (base : Index) (options : EditorOptions) (requests : List Request) :
    Coherent base ((start base options).afterAll requests) :=
  afterAll_induction coherent_step (coherent_start base options) requests

/-! ## Removed entries -/

/-- The entries removed since the last clear in a course of requests, given those removed
before it. -/
def removedSince (s : Session) (removed : List Nat) : List Request → List Nat
  | [] => removed
  | r :: rs =>
    removedSince (s.after r) (if r = .clear then [] else removed ++ (s.removal? r).toList) rs

theorem any_removes_filter (changes : List Change) (i j : Nat) :
    (changes.filter fun c => !c.updates i).any (·.removes j) = changes.any (·.removes j) := by
  rw [List.any_filter]
  congr 1
  funext c
  cases c with
  | update k edit => exact Bool.and_false _
  | insertion edit => exact Bool.and_false _
  | removal k edit => exact Bool.true_and _

@[simp] theorem isRemoved_record (s : Session) (i : Nat) (e : Entry) (value : Declaration)
    (newText description : Text) (j : Nat) :
    (s.record i e value newText description).isRemoved j = s.isRemoved j := by
  by_cases h : newText = s.parsedText i
  · rw [isRemoved, changes_record_of_eq h, any_removes_filter]
    rfl
  · rw [isRemoved, changes_record_of_ne h, List.any_append, any_removes_filter]
    exact Bool.or_false _

@[simp] theorem isRemoved_recordInsertion (s : Session) (edit : Edit) (j : Nat) :
    (s.recordInsertion edit).isRemoved j = s.isRemoved j := by
  show (s.changes ++ [_]).any _ = _
  rw [List.any_append]
  exact Bool.or_false _

@[simp] theorem isRemoved_recordRemoval (s : Session) (i : Nat) (edit : Edit) (j : Nat) :
    (s.recordRemoval i edit).isRemoved j = (s.isRemoved j || decide (i = j)) := by
  show (List.filter _ _ ++ [_]).any _ = _
  rw [List.any_append, any_removes_filter, List.any_cons, List.any_nil, Bool.or_false]
  rfl

theorem isRemoved_step {r : Request} (hstep : Step s r s') (j : Nat) :
    s'.isRemoved j = true ↔ r ≠ .clear ∧ (s.isRemoved j = true ∨ s.removal? r = some j) := by
  cases hstep with
  | stay hr => simp [hr.clear, hr.removal]
  | clear hr => simp [hr, clear, isRemoved]
  | record hr => simp [hr.clear, hr.removal]
  | remove hclear hr => simp [hclear, hr]
  | insert hclear hr hrem => simp [hclear, hrem]

/-- An entry counts as removed when a request removed it and none cleared since. -/
theorem isRemoved_afterAll {removed : List Nat}
    (h : ∀ i, s.isRemoved i = true ↔ i ∈ removed) (requests : List Request) (i : Nat) :
    (s.afterAll requests).isRemoved i = true ↔ i ∈ s.removedSince removed requests := by
  induction requests generalizing s removed with
  | nil => exact h i
  | cons r rs ih =>
    refine ih fun j => ?_
    rw [isRemoved_step (step_after s r)]
    split
    · next hr => simp [hr]
    · next hr => simp [hr, h j]

/-! ## Soundness -/

/-- The pending edits of a session are sound for a script: a review of them finds nothing; a
replacement is the one edit of one entry in place, from its parsed text to the text it shows now; a
deletion takes one line; an insertion is made at the start of a line. -/
structure Sound (text : Text) (removed : List Nat) (s : Session) : Prop where
  review : Edit.review text s.edits = []
  replaces : ∀ edit ∈ s.edits, edit.kind = .replace → ∃ (i : Nat) (e : Entry),
    s.index.entries[i]? = some e ∧ edit.region = e.region ∧
    (∀ (j : Nat) (e' : Entry), s.index.entries[j]? = some e' → e'.region = edit.region → j = i) ∧
    edit.oldText = Text.slice text edit.start edit.stop ∧ edit.newText = e.rawText ∧
    edit.newText ≠ edit.oldText
  single : s.edits.Pairwise fun a b => a.kind = .replace → b.kind = .replace → a.region ≠ b.region
  inPlace : ∀ i ∈ removed, ∀ e : Entry, s.index.entries[i]? = some e →
    ∀ edit ∈ s.edits, edit.kind = .replace → edit.region ≠ e.region
  deletes : ∀ edit ∈ s.edits, edit.kind = .delete → ∃ k, edit.DeletesLine text k
  inserts : ∀ edit ∈ s.edits, edit.kind = .insert → ∃ k < (Text.lines text).length,
    edit.start = Text.lineStart text k ∧ edit.stop = Text.lineStart text k

section
variable {options : ParseOptions} {text : Text} {s : Session} {e e' : Entry} {i j : Nat}

theorem Coherent.covers (h : Coherent (Index.parse options text) s)
    (he : s.index.entries[i]? = some e) :
    ∃ u v, e.region.Covers text e.line u (s.parsedText i) v := by
  obtain ⟨e₀, he₀, hregion, hparsed⟩ := h.parsed he
  obtain ⟨u, v, hc⟩ := Index.covers_of_mem_parse (List.mem_of_getElem? he₀)
  refine ⟨u, v, ?_⟩
  rw [hparsed, Entry.line, ← hregion]
  exact hc

/-- Entries are told apart by their lines. -/
theorem Coherent.index_of_line (h : Coherent (Index.parse options text) s)
    (he : s.index.entries[i]? = some e) (he' : s.index.entries[j]? = some e')
    (hline : e.line = e'.line) : i = j := by
  obtain ⟨e₀, he₀, hregion, -⟩ := h.parsed he
  obtain ⟨e₀', he₀', hregion', -⟩ := h.parsed he'
  have hlines : e₀.line = e₀'.line := by
    rw [Entry.line, Entry.line, hregion, hregion']
    exact hline
  obtain ⟨hi, rfl⟩ := List.getElem?_eq_some_iff.1 he₀
  obtain ⟨hj, rfl⟩ := List.getElem?_eq_some_iff.1 he₀'
  have hpair := List.pairwise_iff_getElem.1 (Index.pairwise_line_parse options text)
  rcases Nat.lt_trichotomy i j with hij | hij | hij
  · have := hpair i j hi hj hij
    omega
  · exact hij
  · have := hpair j i hj hi hij
    omega

theorem Coherent.problems_eq_nil (h : Coherent (Index.parse options text) s) {c : Change}
    (hc : c ∈ s.changes) : c.edit.problems text = [] := by
  have hcarries := h.carries c hc
  cases c with
  | update i edit =>
    obtain ⟨e, description, he, -, rfl⟩ := hcarries
    obtain ⟨u, v, hcov⟩ := h.covers he
    obtain ⟨w, hw⟩ := hcov.text_eq
    refine Edit.problems_eq_nil_of_fits ⟨_, w, hw, ?_, ?_⟩
    · rw [hcov.length_front]
      exact hcov.start_eq
    · rw [hcov.length_front]
      exact hcov.stop_eq
  | insertion edit =>
    obtain ⟨k, declaration, description, -, hk, rfl⟩ := hcarries
    have hle := Text.lineStart_add_length_le (List.getElem?_eq_getElem (h.lines ▸ hk))
    refine Edit.problems_eq_nil_iff.2 ⟨Int.natCast_nonneg _, Int.le_refl _, ?_, fun hk => ?_⟩
    · rw [h.text]
      exact Int.ofNat_le.2 (by rw [Index.parse_text]; omega)
    · exact absurd rfl hk
  | removal i edit =>
    obtain ⟨e, description, he, rfl⟩ := hcarries
    obtain ⟨u, v, hcov⟩ := h.covers he
    rw [h.text]
    exact problems_lineRemoval hcov.lt description

/-- A pending replacement updates an entry. -/
theorem Coherent.update_of_replace (h : Coherent (Index.parse options text) s) {c : Change}
    (hc : c ∈ s.changes) (hkind : c.edit.kind = .replace) :
    ∃ i e, c.subject? = some i ∧ c.removes i = false ∧ s.index.entries[i]? = some e ∧
      e.rawText ≠ s.parsedText i ∧ c.edit.region = e.region ∧ c.edit.oldText = s.parsedText i ∧
      c.edit.newText = e.rawText := by
  have hcarries := h.carries c hc
  cases c with
  | update i edit =>
    obtain ⟨e, description, he, hne, rfl⟩ := hcarries
    exact ⟨i, e, rfl, rfl, he, hne, rfl, rfl, rfl⟩
  | insertion edit =>
    obtain ⟨k, declaration, description, -, -, rfl⟩ := hcarries
    cases hkind
  | removal i edit =>
    obtain ⟨e, description, -, rfl⟩ := hcarries
    cases hkind

theorem Coherent.sound (h : Coherent (Index.parse options text) s) {removed : List Nat}
    (hremoved : ∀ i, s.isRemoved i = true ↔ i ∈ removed) : Sound text removed s := by
  have hregion : ∀ {i j : Nat} {e e' : Entry}, s.index.entries[i]? = some e →
      s.index.entries[j]? = some e' → e.region = e'.region → i = j := by
    intro i j e e' he he' heq
    exact h.index_of_line he he' (by rw [Entry.line, Entry.line, heq])
  have hsubjects := List.pairwise_filterMap.1 h.subjects
  refine ⟨?_, ?_, ?_, ?_, ?_, ?_⟩
  · refine Edit.review_eq_nil_iff.2 fun edit hedit => ?_
    obtain ⟨c, hc, rfl⟩ := List.mem_map.1 hedit
    exact h.problems_eq_nil hc
  · intro edit hedit hkind
    obtain ⟨c, hc, rfl⟩ := List.mem_map.1 hedit
    obtain ⟨i, e, -, -, he, hne, hreg, hold, hnew⟩ := h.update_of_replace hc hkind
    refine ⟨i, e, he, hreg, fun j e' he' heq => hregion he' he (heq.trans hreg), ?_, hnew, ?_⟩
    · refine ((Edit.problems_eq_nil_iff.1 (h.problems_eq_nil hc)).2.2.2 ?_).symm
      rw [hkind]
      exact EditKind.noConfusion
    · rw [hnew, hold]
      exact hne
  · refine List.pairwise_map.2 (hsubjects.imp_of_mem ?_)
    intro a b ha hb hab hka hkb heq
    obtain ⟨i, e, hi, -, he, -, hreg, -, -⟩ := h.update_of_replace ha hka
    obtain ⟨j, e', hj, -, he', -, hreg', -, -⟩ := h.update_of_replace hb hkb
    exact hab i hi j hj (hregion he he' (by rw [← hreg, ← hreg', heq]))
  · intro i hi e he edit hedit hkind heq
    obtain ⟨c, hc, rfl⟩ := List.mem_map.1 hedit
    obtain ⟨j, e', hj, hrem, he', -, hreg, -, -⟩ := h.update_of_replace hc hkind
    have hij : i = j := hregion he he' (by rw [← heq, ← hreg])
    obtain ⟨c', hc', hc'rem⟩ := List.any_eq_true.1 ((hremoved i).2 hi)
    have hsub : c'.subject? = some i := Change.subject?_eq_some_iff.2 (Or.inr hc'rem)
    rw [h.eq_of_subject hc' hc hsub (hij ▸ hj), hij, hrem] at hc'rem
    cases hc'rem
  · intro edit hedit hkind
    obtain ⟨c, hc, rfl⟩ := List.mem_map.1 hedit
    have hcarries := h.carries c hc
    cases c with
    | update i edit =>
      obtain ⟨e, description, -, -, rfl⟩ := hcarries
      cases hkind
    | insertion edit =>
      obtain ⟨k, declaration, description, -, -, rfl⟩ := hcarries
      cases hkind
    | removal i edit =>
      obtain ⟨e, description, he, rfl⟩ := hcarries
      obtain ⟨u, v, hcov⟩ := h.covers he
      rw [h.text]
      exact ⟨e.line, deletesLine_lineRemoval hcov.lt description⟩
  · intro edit hedit hkind
    obtain ⟨c, hc, rfl⟩ := List.mem_map.1 hedit
    have hcarries := h.carries c hc
    cases c with
    | update i edit =>
      obtain ⟨e, description, -, -, rfl⟩ := hcarries
      cases hkind
    | insertion edit =>
      obtain ⟨k, declaration, description, -, hk, rfl⟩ := hcarries
      rw [h.text]
      exact ⟨k, by rwa [h.lines, Index.parse_lines] at hk, rfl, rfl⟩
    | removal i edit =>
      obtain ⟨e, description, -, rfl⟩ := hcarries
      cases hkind

end

/-- Behind every course of requests what is pending is sound for the script. -/
theorem sound_afterAll (options : ParseOptions) (editor : EditorOptions) (text : Text)
    (requests : List Request) :
    Sound text ((start (Index.parse options text) editor).removedSince [] requests)
      ((start (Index.parse options text) editor).afterAll requests) := by
  refine (coherent_afterAll _ editor requests).sound fun i => ?_
  refine isRemoved_afterAll (fun j => ?_) requests i
  simp [isRemoved, start]

end Session

end BuildScript
