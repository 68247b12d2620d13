import BuildScript.Proofs.Session.Coherence
/-!
# A session in four parts

A session holds one list of changes, each with what it is about. The same can be kept in four parts:
the edits in the order in which they were recorded, the update that is pending for an entry, the
text that a changed entry was parsed with, and the entries whose line is to be deleted. `Ledger` is
that bookkeeping, with the four operations on it.

**By value.** An update that is superseded is taken out of the list of edits by value, so it is the
first edit equal to it that goes. On a parsed script no other edit is equal to it, since entries
have lines of their own; that is what makes the two ways of keeping a session agree.

**Tandem.** A request makes the same entry in the books of both. `Follows` is a whole course of
requests kept in both ways, and `Reflects` is what the parts of a ledger say about the session.

Results:
* `erase_edits`: taking an update out by value takes out that update.
* `reflects_tandem`: each operation keeps the agreement.
* `reflects_afterAll`: every course can be kept in four parts, and these agree with the session.
-/
namespace BuildScript

/-- The changes pending on a script, in four parts. -/
structure Ledger where
  edits : List Edit := []
  /-- The update that is pending for an entry. -/
  pending : Nat → Option Edit := fun _ => none
  /-- The text of a changed entry as it was parsed. -/
  originals : Nat → Option Text := fun _ => none
  /-- The entries whose line is to be deleted. -/
  removed : List Nat := []

namespace Ledger

/-- Takes out the update of an entry, if one is pending. -/
def withdraw (l : Ledger) (i : Nat) : Ledger :=
  match l.pending i with
  | some edit =>
    { l with edits := l.edits.erase edit, pending := Function.update l.pending i none }
  | none => l

/-- Records the new text of an entry (`_record_replace`). The text that it was parsed with is
remembered when it is changed for the first time. -/
def replace (l : Ledger) (i : Nat) (entry : Entry) (newText description : Text) : Ledger :=
  let old := (l.originals i).getD entry.rawText
  let rest := { l.withdraw i with originals := Function.update l.originals i (some old) }
  if newText = old then rest
  else
    let edit : Edit := ⟨.replace, entry.region, old, newText, description⟩
    { rest with
      edits := rest.edits ++ [edit]
      pending := Function.update rest.pending i (some edit) }

/-- Records the deletion of the line of an entry (`remove_dependency`). -/
def remove (l : Ledger) (i : Nat) (edit : Edit) : Ledger :=
  let rest := l.withdraw i
  { rest with edits := rest.edits ++ [edit], removed := i :: rest.removed }

/-- Records an insertion (`_insert_into_block`). -/
def insert (l : Ledger) (edit : Edit) : Ledger := { l with edits := l.edits ++ [edit] }

/-- Drops all that is pending and keeps the texts. -/
def clear (l : Ledger) : Ledger := { originals := l.originals }

end Ledger

namespace Session

/-- What a request does to a session and to the ledger that is kept beside it. -/
inductive Tandem (s : Session) (l : Ledger) (r : Request) : Session → Ledger → Prop
  | stay : Tandem s l r s l
  | clear (hr : r = .clear) : Tandem s l r s.clear l.clear
  | replace {e : Entry} {i : Nat} (h : (e, i) ∈ s.remaining) (value : Declaration)
      (newText description : Text) :
      Tandem s l r (s.record i e value newText description) (l.replace i e newText description)
  | remove {e : Entry} {i : Nat} (h : (e, i) ∈ s.remaining) (edit : Edit) :
      Tandem s l r (s.recordRemoval i edit) (l.remove i edit)
  | insert (edit : Edit) : Tandem s l r (s.recordInsertion edit) (l.insert edit)

/-- A course of requests on a session, and the ledger that comes of it. -/
inductive Follows : Session → Ledger → List Request → Ledger → Prop
  | nil (s : Session) (l : Ledger) : Follows s l [] l
  | cons {s : Session} {l l' l'' : Ledger} {r : Request} {requests : List Request}
      (head : Tandem s l r (s.after r) l') (tail : Follows (s.after r) l' requests l'') :
      Follows s l (r :: requests) l''

/-- The four parts of a ledger say what the changes of a session say. -/
structure Reflects (s : Session) (l : Ledger) : Prop where
  edits : l.edits = s.edits
  pending : ∀ i edit, l.pending i = some edit ↔ .update i edit ∈ s.changes
  originals : ∀ i e, s.index.entries[i]? = some e →
    (l.originals i).getD e.rawText = s.parsedText i
  removed : ∀ i, i ∈ l.removed ↔ s.isRemoved i = true

theorem exists_tandem (s : Session) (l : Ledger) (r : Request) :
    ∃ l', Tandem s l r (s.after r) l' := by
  have hstep := step_after s r
  generalize s.after r = s' at hstep
  cases hstep with
  | stay => exact ⟨l, .stay⟩
  | clear hr => exact ⟨l.clear, .clear hr⟩
  | record _ h value newText description => exact ⟨_, .replace h value newText description⟩
  | remove _ _ _ h description => exact ⟨_, .remove h _⟩
  | insert _ _ _ _ declaration description => exact ⟨_, .insert _⟩

theorem exists_follows (s : Session) (l : Ledger) (requests : List Request) :
    ∃ l', Follows s l requests l' := by
  induction requests generalizing s l with
  | nil => exact ⟨l, .nil s l⟩
  | cons r requests ih =>
    obtain ⟨l', hhead⟩ := exists_tandem s l r
    obtain ⟨l'', htail⟩ := ih (s.after r) l'
    exact ⟨l'', .cons hhead htail⟩

theorem reflects_start {index : Index} (options : EditorOptions) :
    Reflects (start index options) {} where
  edits := rfl
  pending i edit := by simp [start]
  originals i e he := (parsedText_start he options).symm
  removed i := by simp [start, isRemoved]

variable {options : ParseOptions} {text : Text} {s s' : Session} {l l' : Ledger} {i : Nat}

/-! ## Taking out an update -/

/-- No change but the update of an entry is about that entry. -/
theorem Coherent.subject?_ne (h : Coherent (Index.parse options text) s) {front back : List Change}
    {edit : Edit} (hsplit : s.changes = front ++ .update i edit :: back) :
    ∀ c ∈ front ++ back, c.subject? ≠ some i := by
  intro c hc hsubject
  have hnodup := h.subjects
  rw [hsplit, List.filterMap_append, List.filterMap_cons_some (Change.subject?_update i edit),
    List.perm_middle.nodup_iff, List.nodup_cons, ← List.filterMap_append] at hnodup
  exact hnodup.1 (List.mem_filterMap.2 ⟨c, hc, hsubject⟩)

/-- The update of an entry is the only pending edit equal to it, so that it is taken out by value as
it is by what it is about. -/
theorem erase_edits (h : Coherent (Index.parse options text) s) {edit : Edit}
    (hmem : .update i edit ∈ s.changes) :
    s.edits.erase edit = (s.changes.filter fun c => !c.updates i).map (·.edit) := by
  obtain ⟨front, back, hsplit⟩ := List.append_of_mem hmem
  have hother := h.subject?_ne hsplit
  have hkept : ∀ c ∈ front ++ back, (!c.updates i) = true := by
    intro c hc
    have hupdates : c.updates i ≠ true := fun hu =>
      hother c hc (Change.subject?_eq_some_iff.2 (.inl hu))
    simpa using hupdates
  have hfront : edit ∉ front.map (·.edit) := by
    intro hfound
    obtain ⟨c, hc, hedit⟩ := List.mem_map.1 hfound
    obtain ⟨e, description, he, -, rfl⟩ := h.carries _ hmem
    have hcmem : c ∈ s.changes := hsplit ▸ List.mem_append_left _ hc
    obtain ⟨j, e', hj, -, he', -, hregion, -, -⟩ :=
      h.update_of_replace hcmem (congrArg Edit.kind hedit)
    rw [hedit] at hregion
    -- the entries have one region, so they are one
    have hij : i = j := h.index_of_line he he' (congrArg Region.line hregion)
    exact hother c (List.mem_append_left _ hc) (hij ▸ hj)
  rw [Session.edits, hsplit, List.map_append, List.map_cons, List.erase_append_right _ hfront,
    List.filter_append, List.filter_cons_of_neg (by simp [Change.updates]), List.map_append]
  rw [List.filter_eq_self.2 fun c hc => hkept c (List.mem_append_left _ hc),
    List.filter_eq_self.2 fun c hc => hkept c (List.mem_append_right _ hc)]
  exact congrArg _ (List.erase_cons_head ..)

theorem edits_withdraw (h : Coherent (Index.parse options text) s) (hl : Reflects s l) (i : Nat) :
    (l.withdraw i).edits = (s.changes.filter fun c => !c.updates i).map (·.edit) := by
  unfold Ledger.withdraw
  split
  · next edit hpending =>
    rw [hl.edits]
    exact erase_edits h ((hl.pending i edit).1 hpending)
  · next hpending =>
    rw [hl.edits, Session.edits, List.filter_eq_self.2 fun c hc => ?_]
    cases c with
    | update j edit =>
      have hij : j ≠ i := by
        rintro rfl
        rw [(hl.pending j edit).2 hc] at hpending
        cases hpending
      simpa [Change.updates] using hij
    | _ => rfl

theorem pending_withdraw (l : Ledger) (i : Nat) :
    (l.withdraw i).pending = Function.update l.pending i none := by
  unfold Ledger.withdraw
  split
  · rfl
  · next hpending => rw [← hpending, Function.update_eq_self]

@[simp] theorem originals_withdraw (l : Ledger) (i : Nat) :
    (l.withdraw i).originals = l.originals := by
  unfold Ledger.withdraw
  split <;> rfl

@[simp] theorem removed_withdraw (l : Ledger) (i : Nat) : (l.withdraw i).removed = l.removed := by
  unfold Ledger.withdraw
  split <;> rfl

theorem pending_withdraw_iff (hl : Reflects s l) {j : Nat} {edit : Edit} :
    (l.withdraw i).pending j = some edit ↔
      .update j edit ∈ s.changes.filter fun c => !c.updates i := by
  rw [pending_withdraw, Function.update_apply, List.mem_filter, ← hl.pending]
  by_cases hij : j = i
  · simp [hij, Change.updates]
  · simp [hij, Change.updates]

/-! ## Keeping both -/

theorem reflects_replace (h : Coherent (Index.parse options text) s) (hl : Reflects s l)
    {e : Entry} (he : s.index.entries[i]? = some e) (value : Declaration)
    (newText description : Text) :
    Reflects (s.record i e value newText description) (l.replace i e newText description) := by
  have hold : (l.originals i).getD e.rawText = s.parsedText i := hl.originals i e he
  have hedits := edits_withdraw h hl i
  obtain ⟨hi, -⟩ := List.getElem?_eq_some_iff.1 he
  have horiginals (l' : Ledger)
      (horiginals : l'.originals = Function.update l.originals i (some (s.parsedText i))) (j : Nat)
      (e' : Entry)
      (he' : (s.record i e value newText description).index.entries[j]? = some e') :
      (l'.originals j).getD e'.rawText = s.parsedText j := by
    rw [horiginals, Function.update_apply]
    rcases (getElem?_record_iff hi).1 he' with ⟨rfl, -⟩ | ⟨hij, he'⟩
    · rw [if_pos rfl]
      rfl
    · rw [if_neg hij]
      exact hl.originals j e' he'
  have hremoved (j : Nat) : j ∈ l.removed ↔
      (s.record i e value newText description).isRemoved j = true := by
    rw [isRemoved_record]
    exact hl.removed j
  unfold Ledger.replace
  dsimp only
  rw [hold]
  by_cases hsame : newText = s.parsedText i
  · rw [if_pos hsame]
    refine ⟨?_, fun j edit => ?_, horiginals _ rfl, by simpa using hremoved⟩
    · rw [Session.edits, changes_record_of_eq hsame]
      exact hedits
    · rw [changes_record_of_eq hsame]
      exact pending_withdraw_iff hl
  · rw [if_neg hsame]
    refine ⟨?_, fun j edit => ?_, horiginals _ rfl, by simpa using hremoved⟩
    · rw [Session.edits, changes_record_of_ne hsame, List.map_append, ← hedits]
      rfl
    · rw [changes_record_of_ne hsame, List.mem_append, ← pending_withdraw_iff hl]
      show Function.update (l.withdraw i).pending i _ j = _ ↔ _
      rw [Function.update_apply]
      by_cases hij : j = i
      · subst hij
        simp [pending_withdraw, eq_comm]
      · simp [hij]

theorem reflects_remove (h : Coherent (Index.parse options text) s) (hl : Reflects s l) (i : Nat)
    (edit : Edit) : Reflects (s.recordRemoval i edit) (l.remove i edit) := by
  refine ⟨?_, fun j edit' => ?_, fun j e he => ?_, fun j => ?_⟩
  · show (l.withdraw i).edits ++ [edit] = List.map _ (List.filter _ _ ++ [_])
    rw [edits_withdraw h hl, List.map_append]
    rfl
  · show (l.withdraw i).pending j = some edit' ↔ _ ∈ List.filter _ _ ++ [_]
    rw [pending_withdraw_iff hl, List.mem_append]
    simp
  · show ((l.withdraw i).originals j).getD _ = _
    rw [originals_withdraw]
    exact hl.originals j e he
  · show j ∈ i :: (l.withdraw i).removed ↔ _
    rw [isRemoved_recordRemoval, removed_withdraw, List.mem_cons, hl.removed, Bool.or_eq_true,
      decide_eq_true_iff, or_comm, @eq_comm _ i]

theorem reflects_insert (hl : Reflects s l) (edit : Edit) :
    Reflects (s.recordInsertion edit) (l.insert edit) := by
  refine ⟨?_, fun j edit' => ?_, hl.originals, fun j => ?_⟩
  · show l.edits ++ [edit] = List.map _ (s.changes ++ [_])
    rw [hl.edits, List.map_append]
    rfl
  · show l.pending j = some edit' ↔ _ ∈ s.changes ++ [_]
    rw [hl.pending, List.mem_append]
    simp
  · rw [isRemoved_recordInsertion]
    exact hl.removed j

theorem reflects_clear (hl : Reflects s l) : Reflects s.clear l.clear where
  edits := rfl
  pending i edit := by simp [Session.clear, Ledger.clear]
  originals := hl.originals
  removed i := by simp [Session.clear, Ledger.clear, isRemoved]

/-- Each operation keeps the agreement. -/
theorem reflects_tandem {r : Request} (h : Coherent (Index.parse options text) s)
    (hl : Reflects s l) (htandem : Tandem s l r s' l') : Reflects s' l' := by
  cases htandem with
  | stay => exact hl
  | clear => exact reflects_clear hl
  | replace hmem value newText description =>
    exact reflects_replace h hl (mem_remaining hmem).1 value newText description
  | remove _ edit => exact reflects_remove h hl _ edit
  | insert edit => exact reflects_insert hl edit

theorem Follows.reflects {requests : List Request} (hfollows : Follows s l requests l')
    (h : Coherent (Index.parse options text) s) (hl : Reflects s l) :
    Reflects (s.afterAll requests) l' := by
  induction hfollows with
  | nil s l => exact hl
  | cons head _ ih => exact ih (coherent_step h (step_after _ _)) (reflects_tandem h hl head)

/-- However a session on a parsed script came about, it can be kept in four parts, and these say
what its changes say: the pending edits in their order, which of them is the update of an entry,
what the entries were parsed with and which are removed. -/
theorem reflects_afterAll (options : ParseOptions) (editor : EditorOptions) (text : Text)
    (requests : List Request) :
    let s := start (Index.parse options text) editor
    (∃ l, Follows s {} requests l) ∧
      ∀ l, Follows s {} requests l → Reflects (s.afterAll requests) l :=
  ⟨exists_follows _ _ requests,
    fun _ hfollows => hfollows.reflects (coherent_start _ editor) (reflects_start editor)⟩

end Session

end BuildScript
