import Mathlib.Data.List.Find
import BuildScript.Proofs.Session.Coherence
/-!
# Pending changes line by line

What a session will write can be said without offsets: line by line, the declarations added in
front of the line, and the line itself, updated, or left out if it is removed. `outputLines` says
so, and is what the rendered text is measured against.

Every pending change belongs to one line of the script, the line of its entry or the line that it
adds a declaration in front of. Edits of later lines are made before edits of earlier ones, so the
order of application falls apart into one piece for each line.

Results:
* `additions_afterAll`: declarations are added where the requests since the last clear put them.
* `applicationOrder_upTo_succ`: the edits of a line are made before those of the lines above it.
-/
namespace BuildScript

namespace Change

/-- The line that a change adds a declaration in front of, and the text of the declaration. -/
def addition? : Change → Option (Nat × Text)
  | insertion edit => some (edit.region.line, edit.newText.dropLast)
  | _ => none

@[simp] theorem addition?_update (i : Nat) (edit : Edit) : (update i edit).addition? = none := rfl

@[simp] theorem addition?_insertion (edit : Edit) :
    (insertion edit).addition? = some (edit.region.line, edit.newText.dropLast) := rfl

@[simp] theorem addition?_removal (i : Nat) (edit : Edit) : (removal i edit).addition? = none := rfl

end Change

namespace Session

/-! ## What is to be written -/

/-- The declarations to be added, each with the line it goes in front of, in the order of
submission. -/
def additions (s : Session) : List (Nat × Text) := s.changes.filterMap Change.addition?

/-- The declarations to be added in front of a line. -/
def additionsAt (s : Session) (k : Nat) : List Text :=
  (s.additions.filter fun a => a.1 = k).map (·.2)

/-- Whether a line holds an entry whose line is to be deleted. -/
def isLineRemoved (s : Session) (k : Nat) : Bool :=
  s.index.entries.zipIdx.any fun (e, i) => e.line = k && s.isRemoved i

/-- The pending replacement on a line. -/
def replacementAt? (s : Session) (k : Nat) : Option Edit :=
  s.edits.find? fun edit => edit.kind = .replace && edit.region.line = k

/-- A line with the pending replacement made in it. -/
def shownLine (s : Session) (k : Nat) (line : Text) : Text :=
  match s.replacementAt? k with
  | some edit =>
    line.take edit.region.column ++ edit.newText ++
      line.drop (edit.region.column + edit.region.length.toNat)
  | none => line

/-- What is to be written for a line of the script. -/
def outputAt (s : Session) (k : Nat) : List Text :=
  s.additionsAt k ++
    if s.isLineRemoved k then [] else [s.shownLine k (s.index.lines.getD k [])]

/-- What is to be written for the first lines of the script. -/
def outputUpTo (s : Session) (k : Nat) : List Text := (List.range k).flatMap s.outputAt

def outputLines (s : Session) : List Text := s.outputUpTo s.index.lines.length

theorem outputUpTo_succ (s : Session) (k : Nat) :
    s.outputUpTo (k + 1) = s.outputUpTo k ++ s.outputAt k := by
  simp [outputUpTo, List.range_succ]

end Session

/-! ## Additions -/

namespace Request

/-- The requests behind the last clear. -/
def sinceClear (requests : List Request) : List Request :=
  (requests.reverse.takeWhile (· ≠ .clear)).reverse

theorem sinceClear_concat (requests : List Request) (r : Request) :
    sinceClear (requests ++ [r]) = if r = .clear then [] else sinceClear requests ++ [r] := by
  by_cases h : r = .clear <;> simp [sinceClear, h]

/-- The lines that declarations are added in front of since the last clear. -/
def additionLines (lines : List Text) (requests : List Request) : List Nat :=
  (sinceClear requests).filterMap fun r => r.addition? lines

end Request

namespace Session

theorem filterMap_addition?_filter (changes : List Change) (i : Nat) :
    (changes.filter fun c => !c.updates i).filterMap Change.addition? =
      changes.filterMap Change.addition? := by
  rw [List.filterMap_filter]
  congr 1
  funext c
  cases c with
  | update j edit => exact ite_self none
  | insertion edit => rfl
  | removal j edit => rfl

theorem additions_record (s : Session) (i : Nat) (e : Entry) (value : Declaration)
    (newText description : Text) :
    (s.record i e value newText description).additions = s.additions := by
  by_cases h : newText = s.parsedText i
  · rw [additions, changes_record_of_eq h, filterMap_addition?_filter]
    rfl
  · rw [additions, changes_record_of_ne h, List.filterMap_append, filterMap_addition?_filter]
    exact List.append_nil _

theorem additions_recordRemoval (s : Session) (i : Nat) (edit : Edit) :
    (s.recordRemoval i edit).additions = s.additions := by
  show (List.filter _ _ ++ [_]).filterMap _ = _
  rw [List.filterMap_append, filterMap_addition?_filter]
  exact List.append_nil _

theorem additions_recordInsertion (s : Session) (k : Nat) (declaration description : Text) :
    (s.recordInsertion (lineInsertion s.index.text k declaration description)).additions =
      s.additions ++ [(k, declaration)] := by
  show (_ ++ [_]).filterMap _ = _
  rw [List.filterMap_append]
  simp [additions, Change.addition?, lineInsertion, Region.point, Position.point, Region.line]

theorem additions_step {s s' : Session} {r : Request} (hstep : Step s r s') :
    s'.additions.map (·.1) = if r = .clear then [] else
      s.additions.map (·.1) ++ (r.addition? s.index.lines).toList := by
  cases hstep with
  | stay hr => simp [hr.clear, hr.addition]
  | clear hr => simp [hr, clear, additions]
  | record hr => simp [hr.clear, hr.addition, additions_record]
  | remove hclear hr hadd => simp [hclear, hadd, additions_recordRemoval]
  | insert hclear hr => simp [hclear, hr, additions_recordInsertion]

/-- Declarations are added where the requests since the last clear put them. -/
theorem additions_afterAll (base : Index) (options : EditorOptions) (requests : List Request) :
    ((start base options).afterAll requests).additions.map (·.1) =
      Request.additionLines base.lines requests := by
  induction requests using List.reverseRecOn with
  | nil => rfl
  | append_singleton requests r ih =>
    have hlines := (coherent_afterAll base options requests).lines
    have hstep := step_after ((start base options).afterAll requests) r
    rw [afterAll, List.foldl_concat, ← afterAll, additions_step hstep, ih, hlines,
      Request.additionLines, Request.additionLines, Request.sinceClear_concat]
    split
    · rfl
    · rw [List.filterMap_append]
      cases h : r.addition? base.lines <;> simp [h]

/-! ## The line of a change -/

/-- The line that a change belongs to. -/
def lineOf (s : Session) (c : Change) : Nat :=
  match c.subject? with
  | some i => ((s.index.entries[i]?).map Entry.line).getD 0
  | none => c.edit.region.line

/-- The pending changes that belong to a line. -/
def changesOn (s : Session) (k : Nat) : List Change := s.changes.filter fun c => s.lineOf c = k

/-- The pending changes that belong to lines above a given one. -/
def changesUpTo (s : Session) (k : Nat) : List Change :=
  s.changes.filter fun c => s.lineOf c < k

/-- What a pending change on line `k` looks like. -/
inductive Placed (s : Session) (text : Text) (k : Nat) : Change → Prop
  | update {i : Nat} {e : Entry} {u m v : Text} (he : s.index.entries[i]? = some e)
      (hcov : e.region.Covers text k u m v) (hm : m ≠ []) (newText description : Text) :
      Placed s text k (.update i ⟨.replace, e.region, m, newText, description⟩)
  | insertion (hpos : 0 < k) (hk : k < (Text.lines text).length) (declaration description : Text) :
      Placed s text k (.insertion (lineInsertion text k declaration description))
  | removal {i : Nat} {e : Entry} {u m v : Text} (he : s.index.entries[i]? = some e)
      (hcov : e.region.Covers text k u m v) (hm : m ≠ []) (description : Text) :
      Placed s text k (.removal i (lineRemoval text k description))

section
variable {options : ParseOptions} {text : Text} {s : Session} {c c' : Change} {i k : Nat}
  {e : Entry}

theorem lineOf_of_subject? (hi : c.subject? = some i) (he : s.index.entries[i]? = some e) :
    s.lineOf c = e.line := by
  rw [lineOf, hi]
  dsimp only
  rw [he]
  rfl

theorem Coherent.placed (h : Coherent (Index.parse options text) s)
    (hne : ∀ e ∈ (Index.parse options text).entries, e.rawText ≠ []) (hc : c ∈ s.changes) :
    Placed s text (s.lineOf c) c := by
  have hparsed : ∀ {i : Nat} {e : Entry}, s.index.entries[i]? = some e → s.parsedText i ≠ [] := by
    intro i e he
    obtain ⟨e₀, he₀, -, htext⟩ := h.parsed he
    rw [htext]
    exact hne e₀ (List.mem_of_getElem? he₀)
  have hcarries := h.carries c hc
  cases c with
  | update i edit =>
    obtain ⟨e, description, he, -, rfl⟩ := hcarries
    obtain ⟨u, v, hcov⟩ := h.covers he
    rw [lineOf_of_subject? rfl he]
    exact .update he hcov (hparsed he) e.rawText description
  | insertion edit =>
    obtain ⟨k, declaration, description, hpos, hk, rfl⟩ := hcarries
    have hline : s.lineOf (.insertion (lineInsertion s.index.text k declaration description)) = k :=
      by simp [lineOf, Change.subject?, Change.edit, lineInsertion, Region.line, Region.point,
        Position.point]
    rw [hline, h.text]
    exact .insertion hpos (by rwa [h.lines] at hk) declaration description
  | removal i edit =>
    obtain ⟨e, description, he, rfl⟩ := hcarries
    obtain ⟨u, v, hcov⟩ := h.covers he
    rw [lineOf_of_subject? rfl he, h.text]
    exact .removal he hcov (hparsed he) description

theorem Placed.lt (h : Placed s text k c) : k < (Text.lines text).length := by
  cases h with
  | update _ hcov => exact hcov.lt
  | insertion _ hk => exact hk
  | removal _ hcov => exact hcov.lt

/-- An edit starts on its line, or right in front of it if it deletes the last line. -/
theorem Placed.start (h : Placed s text k c) : (Text.lineStart text k : Int) ≤ c.edit.start ∨
    (c.edit.kind ≠ .insert ∧ c.edit.start = (Text.lineStart text k : Int) - 1) := by
  cases h with
  | @update i e u m v he hcov hm newText description =>
    left
    show (Text.lineStart text k : Int) ≤ e.region.start
    rw [hcov.start_eq]
    omega
  | insertion => exact Or.inl (Int.le_refl _)
  | @removal i e u m v he hcov hm description =>
    cases deletesLine_lineRemoval hcov.lt description with
    | inner _ _ hstart => exact Or.inl (Int.le_of_eq hstart.symm)
    | last hbefore hline hn hstart =>
      right
      refine ⟨EditKind.noConfusion, hstart.trans ?_⟩
      rw [Text.lineStart_succ hbefore (by omega)]
      omega
    | only _ hstart => exact Or.inl (Int.le_of_eq hstart.symm)

/-- An edit starts in front of the lines below, and insertions alone can start at the very end of
their line. -/
theorem Placed.start_lt {j : Nat} (h : Placed s text k c) (hkj : k < j)
    (hj : j < (Text.lines text).length) : c.edit.start < Text.lineStart text j ∧
      (c.edit.kind ≠ .insert → c.edit.start + 1 < Text.lineStart text j) := by
  cases h with
  | @update i e u m v he hcov hm newText description =>
    have hlt := Text.lineStart_add_length_lt hcov.line hkj hj
    have hpos := List.length_pos_iff.2 hm
    have hstart : e.region.start < (Text.lineStart text j : Int) - 1 := by
      rw [hcov.start_eq]
      simp only [List.length_append] at hlt
      omega
    show e.region.start < _ ∧ (_ → e.region.start + 1 < _)
    omega
  | @insertion hpos hk declaration description =>
    refine ⟨?_, fun hkind => absurd rfl hkind⟩
    exact Int.ofNat_lt.2 (Text.lineStart_lt hkj hj)
  | @removal i e u m v he hcov hm description =>
    have hlt := Text.lineStart_add_length_lt hcov.line hkj hj
    have hpos := List.length_pos_iff.2 hm
    have hstart : (lineRemoval text k description).start < (Text.lineStart text j : Int) - 1 := by
      simp only [List.length_append] at hlt
      show ((removalBounds text k).1 : Int) < _
      rw [removalBounds_of_lt (by omega)]
      omega
    show (lineRemoval text k description).start < _ ∧
      (_ → (lineRemoval text k description).start + 1 < _)
    omega

theorem Placed.outranks {j : Nat} (h : Placed s text j c) (h' : Placed s text k c') (hkj : k < j) :
    c.edit.outranks c'.edit = true := by
  obtain ⟨hlt, hother⟩ := h'.start_lt hkj h.lt
  refine Edit.outranks_iff.2 ?_
  rcases h.start with hstart | ⟨hkind, hstart⟩
  · exact Or.inl (by omega)
  · by_cases hkind' : c'.edit.kind = .insert
    · by_cases htie : c.edit.start = c'.edit.start
      · exact Or.inr ⟨htie, hkind, hkind'⟩
      · exact Or.inl (by omega)
    · have := hother hkind'
      exact Or.inl (by omega)

/-- The edits of a line are made before those of the lines above it. -/
theorem Coherent.applicationOrder_upTo_succ (h : Coherent (Index.parse options text) s)
    (hne : ∀ e ∈ (Index.parse options text).entries, e.rawText ≠ []) (k : Nat) :
    Edit.applicationOrder ((s.changesUpTo (k + 1)).map (·.edit)) =
      Edit.applicationOrder ((s.changesOn k).map (·.edit)) ++
        Edit.applicationOrder ((s.changesUpTo k).map (·.edit)) := by
  have hpart := Edit.applicationOrder_partition (·.edit) (fun c => s.lineOf c = k)
    (l := s.changesUpTo (k + 1)) ?_
  · have hon : (s.changesUpTo (k + 1)).filter (fun c => s.lineOf c = k) = s.changesOn k := by
      rw [changesUpTo, changesOn, List.filter_filter]
      refine List.filter_congr fun c _ => ?_
      by_cases hk : s.lineOf c = k <;> simp [hk]
    have hup : (s.changesUpTo (k + 1)).filter (fun c => !decide (s.lineOf c = k)) =
        s.changesUpTo k := by
      rw [changesUpTo, changesUpTo, List.filter_filter]
      refine List.filter_congr fun c _ => ?_
      rw [Bool.eq_iff_iff]
      simp only [Bool.and_eq_true, Bool.not_eq_true', decide_eq_false_iff_not, decide_eq_true_eq]
      omega
    rw [hpart, hon, hup]
  · intro a ha b hb hak hbk
    have ha := List.mem_filter.1 ha
    have hb := List.mem_filter.1 hb
    refine (h.placed hne ha.1).outranks (h.placed hne hb.1) ?_
    simp only [decide_eq_true_eq, decide_eq_false_iff_not] at ha hb hak hbk
    omega

/-! ## The changes of one line -/

/-- The update or removal pending on a line, if there is one. -/
def ownChanges (s : Session) (k : Nat) : List Change :=
  (s.changesOn k).filter fun c => c.subject?.isSome

def insertionsAt (s : Session) (k : Nat) : List Change :=
  (s.changesOn k).filter fun c => !c.subject?.isSome

theorem Coherent.eq_of_mem_ownChanges (h : Coherent (Index.parse options text) s)
    (hne : ∀ e ∈ (Index.parse options text).entries, e.rawText ≠ [])
    (hc : c ∈ s.ownChanges k) (hc' : c' ∈ s.ownChanges k) : c = c' := by
  have hentry : ∀ c ∈ s.ownChanges k, c ∈ s.changes ∧
      ∃ i e, c.subject? = some i ∧ s.index.entries[i]? = some e ∧ e.line = k := by
    intro c hc
    obtain ⟨hon, hsome⟩ := List.mem_filter.1 hc
    obtain ⟨hmem, hline⟩ := List.mem_filter.1 hon
    have hplaced := h.placed hne hmem
    rw [decide_eq_true_eq] at hline
    rw [hline] at hplaced
    refine ⟨hmem, ?_⟩
    cases hplaced with
    | update he hcov => exact ⟨_, _, rfl, he, hcov.line_eq⟩
    | insertion => cases hsome
    | removal he hcov => exact ⟨_, _, rfl, he, hcov.line_eq⟩
  obtain ⟨hmem, i, e, hi, he, hline⟩ := hentry c hc
  obtain ⟨hmem', i', e', hi', he', hline'⟩ := hentry c' hc'
  have hii : i = i' := h.index_of_line he he' (hline.trans hline'.symm)
  exact h.eq_of_subject hmem hmem' hi (hii ▸ hi')

theorem Coherent.ownChanges_cases (h : Coherent (Index.parse options text) s)
    (hne : ∀ e ∈ (Index.parse options text).entries, e.rawText ≠ []) (k : Nat) :
    s.ownChanges k = [] ∨ ∃ c, s.ownChanges k = [c] := by
  have hsub : (s.ownChanges k).Sublist s.changes :=
    List.filter_sublist.trans List.filter_sublist
  have hpair := (List.pairwise_filterMap.1 h.subjects).sublist hsub
  cases hown : s.ownChanges k with
  | nil => exact Or.inl rfl
  | cons c rest =>
    cases rest with
    | nil => exact Or.inr ⟨c, rfl⟩
    | cons c' rest =>
      have hc : c ∈ s.ownChanges k := hown ▸ List.mem_cons_self
      have hc' : c' ∈ s.ownChanges k := hown ▸ List.mem_cons_of_mem c List.mem_cons_self
      obtain ⟨i, hi⟩ := Option.isSome_iff_exists.1 (List.mem_filter.1 hc).2
      have heq := h.eq_of_mem_ownChanges hne hc hc'
      rw [hown] at hpair
      have := (List.pairwise_cons.1 hpair).1 c' List.mem_cons_self i hi i (heq ▸ hi)
      exact absurd rfl this

theorem Coherent.isLineRemoved_iff (h : Coherent (Index.parse options text) s) :
    s.isLineRemoved k = true ↔ ∃ c ∈ s.ownChanges k, ∃ i edit, c = .removal i edit := by
  rw [isLineRemoved, List.any_eq_true]
  constructor
  · rintro ⟨⟨e, i⟩, hmem, hline⟩
    obtain ⟨hline, hrem⟩ := Bool.and_eq_true_iff.1 hline
    obtain ⟨c, hc, hci⟩ := List.any_eq_true.1 hrem
    have hsub : c.subject? = some i := Change.subject?_eq_some_iff.2 (Or.inr hci)
    have hon := (lineOf_of_subject? hsub (List.mem_zipIdx_iff_getElem?.1 hmem)).trans
      (of_decide_eq_true hline)
    refine ⟨c, List.mem_filter.2 ⟨List.mem_filter.2 ⟨hc, decide_eq_true hon⟩, ?_⟩, ?_⟩
    · rw [hsub]
      rfl
    · cases c with
      | update j edit => cases hci
      | insertion edit => cases hci
      | removal j edit => exact ⟨j, edit, rfl⟩
  · rintro ⟨c, hc, i, edit, rfl⟩
    obtain ⟨hmem, hline⟩ := List.mem_filter.1 (List.mem_filter.1 hc).1
    obtain ⟨e, -, he, -⟩ := h.carries _ hmem
    refine ⟨(e, i), List.mem_zipIdx_iff_getElem?.2 he, ?_⟩
    have hrem : s.isRemoved i = true :=
      List.any_eq_true.2 ⟨_, hmem, decide_eq_true rfl⟩
    have hon : e.line = k := by
      rw [← lineOf_of_subject? (c := .removal i edit) rfl he]
      exact of_decide_eq_true hline
    exact Bool.and_eq_true_iff.2 ⟨decide_eq_true hon, hrem⟩

/-- The replacement on a line is the edit of the update pending on it. -/
theorem Coherent.replacementAt?_eq (h : Coherent (Index.parse options text) s)
    (hne : ∀ e ∈ (Index.parse options text).entries, e.rawText ≠ []) :
    s.replacementAt? k = ((s.ownChanges k).find? fun c => c.edit.kind = .replace).map (·.edit) := by
  have hmember : ∀ c ∈ s.changes,
      (decide (c.edit.kind = .replace) && decide (c.edit.region.line = k)) =
        (decide (s.lineOf c = k) && (c.subject?.isSome && decide (c.edit.kind = .replace))) := by
    intro c hc
    have hplaced := h.placed hne hc
    generalize s.lineOf c = j at hplaced
    cases hplaced with
    | @update i e u m v he hcov hm newText description =>
      have hline : e.region.line = j := hcov.line_eq
      simp [Change.edit, Change.subject?, hline]
    | insertion => simp [Change.subject?, Change.edit, lineInsertion]
    | removal => simp [Change.edit, lineRemoval]
  rw [replacementAt?, edits, List.find?_map, ownChanges, changesOn, List.find?_filter,
    List.find?_filter]
  congr 1
  refine List.find?_congr fun c hc => ?_
  rw [Function.comp_apply, hmember c hc]
  simp

theorem Coherent.replacementAt?_cases (h : Coherent (Index.parse options text) s)
    (k : Nat) : s.replacementAt? k = none ∨ ∃ (i : Nat) (e : Entry) (edit : Edit),
      s.index.entries[i]? = some e ∧ e.line = k ∧ s.replacementAt? k = some edit ∧
      edit.region = e.region ∧ edit.newText = e.rawText := by
  cases hedit : s.replacementAt? k with
  | none => exact Or.inl rfl
  | some edit =>
    right
    have hfits := List.find?_some hedit
    simp only [Bool.and_eq_true, decide_eq_true_eq] at hfits
    obtain ⟨c, hc, rfl⟩ := List.mem_map.1 (List.mem_of_find?_eq_some hedit)
    obtain ⟨i, e, -, -, he, -, hregion, -, hnew⟩ := h.update_of_replace hc hfits.1
    refine ⟨i, e, c.edit, he, ?_, rfl, hregion, hnew⟩
    rw [Entry.line, ← hregion]
    exact hfits.2

theorem Coherent.point_of_mem_insertionsAt (h : Coherent (Index.parse options text) s)
    (hne : ∀ e ∈ (Index.parse options text).entries, e.rawText ≠ [])
    (hc : c ∈ s.insertionsAt k) : c.edit.kind = .insert ∧
      c.edit.start = Text.lineStart text k ∧ c.edit.stop = Text.lineStart text k := by
  obtain ⟨hon, hnone⟩ := List.mem_filter.1 hc
  obtain ⟨hmem, hline⟩ := List.mem_filter.1 hon
  have hplaced := h.placed hne hmem
  rw [of_decide_eq_true hline] at hplaced
  cases hplaced with
  | update => cases hnone
  | insertion => exact ⟨rfl, rfl, rfl⟩
  | removal => cases hnone

/-- The insertions in front of a line put in the declarations to be added, each on a line of its
own. -/
theorem Coherent.newText_insertionsAt (h : Coherent (Index.parse options text) s)
    (hne : ∀ e ∈ (Index.parse options text).entries, e.rawText ≠ []) (k : Nat) :
    (s.insertionsAt k).flatMap (·.edit.newText) = Text.terminated (s.additionsAt k) := by
  have hlist : ∀ l : List Change, (∀ c ∈ l, Placed s text (s.lineOf c) c) →
      ((l.filter fun c => s.lineOf c = k).filter fun c => !c.subject?.isSome).flatMap
        (·.edit.newText) =
        Text.terminated (((l.filterMap Change.addition?).filter fun a => a.1 = k).map (·.2)) := by
    intro l
    induction l with
    | nil => exact fun _ => rfl
    | cons c l ih =>
      intro hplaced
      have ih := ih fun c hc => hplaced c (List.mem_cons_of_mem _ hc)
      have hc := hplaced c List.mem_cons_self
      cases c with
      | update i edit =>
        rw [List.filterMap_cons_none rfl, ← ih]
        by_cases hk : s.lineOf (.update i edit) = k <;> simp [hk]
      | insertion edit =>
        have hline : s.lineOf (.insertion edit) = edit.region.line := rfl
        rw [hline] at hc
        have hnew : edit.newText = edit.newText.dropLast ++ ['\n'] := by
          generalize edit.region.line = j at hc
          cases hc with
          | insertion hpos hk declaration description => simp [lineInsertion]
        rw [List.filterMap_cons_some (Change.addition?_insertion edit)]
        by_cases hk : edit.region.line = k
        · have hk' : s.lineOf (.insertion edit) = k := hk
          rw [List.filter_cons_of_pos (by exact decide_eq_true hk'),
            List.filter_cons_of_pos (by rfl), List.flatMap_cons, ih,
            List.filter_cons_of_pos (by exact decide_eq_true hk), List.map_cons,
            Text.terminated_cons, ← List.singleton_append, ← List.append_assoc, ← hnew]
          rfl
        · have hk' : s.lineOf (.insertion edit) ≠ k := hk
          rw [List.filter_cons_of_neg (by simpa using hk'), ih,
            List.filter_cons_of_neg (by simpa using hk)]
      | removal i edit =>
        rw [List.filterMap_cons_none rfl, ← ih]
        by_cases hk : s.lineOf (.removal i edit) = k <;> simp [hk]
  exact hlist s.changes fun c hc => h.placed hne hc

/-- Insertions at one point are made from the last to the first. -/
theorem Coherent.applicationOrder_insertionsAt (h : Coherent (Index.parse options text) s)
    (hne : ∀ e ∈ (Index.parse options text).entries, e.rawText ≠ []) (k : Nat) :
    Edit.applicationOrder ((s.insertionsAt k).map (·.edit)) =
      ((s.insertionsAt k).map (·.edit)).reverse := by
  refine Edit.applicationOrder_of_ties fun a ha b hb => ?_
  obtain ⟨c, hc, rfl⟩ := List.mem_map.1 ha
  obtain ⟨c', hc', rfl⟩ := List.mem_map.1 hb
  have hpoint := h.point_of_mem_insertionsAt hne hc
  have hpoint' := h.point_of_mem_insertionsAt hne hc'
  exact Edit.not_outranks_iff.2 ⟨by omega, fun _ hkind => absurd hpoint.1 hkind⟩

theorem Coherent.applicationOrder_ownChanges (h : Coherent (Index.parse options text) s)
    (hne : ∀ e ∈ (Index.parse options text).entries, e.rawText ≠ []) (k : Nat) :
    Edit.applicationOrder ((s.ownChanges k).map (·.edit)) = (s.ownChanges k).map (·.edit) := by
  rcases h.ownChanges_cases hne k with hown | ⟨c, hown⟩ <;> rw [hown] <;> rfl

theorem Coherent.kind_of_mem_ownChanges (h : Coherent (Index.parse options text) s)
    (hne : ∀ e ∈ (Index.parse options text).entries, e.rawText ≠ []) (hc : c ∈ s.ownChanges k) :
    Placed s text k c ∧ c.edit.kind ≠ .insert := by
  obtain ⟨hon, hsome⟩ := List.mem_filter.1 hc
  obtain ⟨hmem, hline⟩ := List.mem_filter.1 hon
  have hplaced := h.placed hne hmem
  rw [of_decide_eq_true hline] at hplaced
  refine ⟨hplaced, ?_⟩
  cases hplaced with
  | update => exact EditKind.noConfusion
  | insertion => cases hsome
  | removal => exact EditKind.noConfusion

/-- What happens on a line is done before declarations are put in front of it. -/
theorem Coherent.applicationOrder_on (h : Coherent (Index.parse options text) s)
    (hne : ∀ e ∈ (Index.parse options text).entries, e.rawText ≠ [])
    (hstart : ∀ c ∈ s.ownChanges k, (Text.lineStart text k : Int) ≤ c.edit.start) :
    Edit.applicationOrder ((s.changesOn k).map (·.edit)) =
      (s.ownChanges k).map (·.edit) ++ ((s.insertionsAt k).map (·.edit)).reverse := by
  rw [Edit.applicationOrder_partition (fun c : Change => c.edit) fun c => c.subject?.isSome]
  · show Edit.applicationOrder ((s.ownChanges k).map _) ++
      Edit.applicationOrder ((s.insertionsAt k).map _) = _
    rw [h.applicationOrder_ownChanges hne, h.applicationOrder_insertionsAt hne]
  · intro a ha b hb hsome hnone
    have hown : a ∈ s.ownChanges k := List.mem_filter.2 ⟨ha, hsome⟩
    have hins : b ∈ s.insertionsAt k := List.mem_filter.2 ⟨hb, by rw [hnone]; rfl⟩
    obtain ⟨hkind, hpoint, -⟩ := h.point_of_mem_insertionsAt hne hins
    have hkind' := (h.kind_of_mem_ownChanges hne hown).2
    have hle := hstart a hown
    refine Edit.outranks_iff.2 ?_
    rcases Int.lt_or_eq_of_le hle with hlt | heq
    · exact Or.inl (by omega)
    · exact Or.inr ⟨by omega, hkind', hkind⟩

/-- The last line goes after declarations are put in front of it. -/
theorem Coherent.applicationOrder_on_last (h : Coherent (Index.parse options text) s)
    (hne : ∀ e ∈ (Index.parse options text).entries, e.rawText ≠ [])
    (hstart : ∀ c ∈ s.ownChanges k, c.edit.start < Text.lineStart text k) :
    Edit.applicationOrder ((s.changesOn k).map (·.edit)) =
      ((s.insertionsAt k).map (·.edit)).reverse ++ (s.ownChanges k).map (·.edit) := by
  rw [Edit.applicationOrder_partition (fun c : Change => c.edit) fun c => !c.subject?.isSome]
  · have hown : ((s.changesOn k).filter fun c => !!c.subject?.isSome) = s.ownChanges k := by
      simp [ownChanges]
    rw [hown, h.applicationOrder_ownChanges hne]
    show Edit.applicationOrder ((s.insertionsAt k).map _) ++ _ = _
    rw [h.applicationOrder_insertionsAt hne]
  · intro a ha b hb hnone hsome
    have hins : a ∈ s.insertionsAt k := List.mem_filter.2 ⟨ha, hnone⟩
    have hown : b ∈ s.ownChanges k := List.mem_filter.2 ⟨hb, by simpa using hsome⟩
    obtain ⟨-, hpoint, -⟩ := h.point_of_mem_insertionsAt hne hins
    have hlt := hstart b hown
    exact Edit.outranks_iff.2 (Or.inl (by omega))

end

end Session

end BuildScript
