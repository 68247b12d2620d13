import BuildScript.Edit.Replay
import BuildScript.Proofs.Edit.Order
/-!
# The order of submission

Two edits are of one rank if they start at one place and are both insertions or both not. Neither
outranks the other then, and the order of submission alone says which is made first. Between edits
of different ranks it says nothing: what a replay does with a list of edits depends on which edits
there are and, rank by rank, on the order in which they were submitted.

Nothing is asked of the edits. They may overlap, expect texts that are not there or leave the
script, and where a replay relocates an edit or refuses one it does so for either list.

Results:
* `filter_applicationOrder`: edits of one rank are made against the order of submission.
* `applicationOrder_eq_iff`: lists are made in one order if and only if they are rearranged.
* `replay_rearranged`: rearranging a list changes nothing about its replay.
-/
namespace BuildScript

namespace Edit

/-! ## Ranks -/

/-- Whether two edits start at one place and are both insertions or both not. -/
def sameRank (a b : Edit) : Bool :=
  decide (a.start = b.start ∧ (a.kind = .insert ↔ b.kind = .insert))

theorem sameRank_iff {a b : Edit} :
    a.sameRank b = true ↔ a.outranks b = false ∧ b.outranks a = false := by
  rw [sameRank, decide_eq_true_iff, not_outranks_iff, not_outranks_iff]
  constructor
  · rintro ⟨hstart, hkind⟩
    exact ⟨⟨by omega, fun _ => mt hkind.2⟩, ⟨by omega, fun _ => mt hkind.1⟩⟩
  · rintro ⟨⟨hab, tab⟩, ⟨hba, tba⟩⟩
    have hstart : a.start = b.start := by omega
    exact ⟨hstart, not_iff_not.1 ⟨tab hstart, tba hstart.symm⟩⟩

theorem sameRank_refl (e : Edit) : e.sameRank e = true := by simp [sameRank]

theorem sameRank_congr {a b : Edit} (h : a.sameRank b = true) : a.sameRank = b.sameRank := by
  obtain ⟨hstart, hkind⟩ := of_decide_eq_true h
  funext c
  simp only [sameRank, hstart, hkind]

theorem mem_filter_sameRank {e : Edit} {l : List Edit} : e ∈ l.filter e.sameRank ↔ e ∈ l := by
  rw [List.mem_filter, and_iff_left e.sameRank_refl]

/-! ## What the order of submission decides -/

theorem filter_insertOrdered (b e : Edit) (l : List Edit) :
    (insertOrdered b l).filter e.sameRank = ([b] ++ l).filter e.sameRank := by
  induction l with
  | nil => rfl
  | cons a l ih =>
    rw [insertOrdered]
    split
    · next hab =>
      -- `a` and `b` differ in rank, so at most one of the two is kept
      have hdiffer : a.sameRank b = false := by
        rw [← Bool.not_eq_true, sameRank_iff]
        exact fun h => Bool.false_ne_true (h.1.symm.trans hab)
      rw [List.filter_cons, ih]
      by_cases ha : e.sameRank a = true
      · have hb : e.sameRank b = false := by rw [sameRank_congr ha, hdiffer]
        simp [ha, hb]
      · simp [ha, List.filter_cons]
    · rfl

/-- Edits of one rank are made against the order of submission. -/
theorem filter_applicationOrder (edits : List Edit) (e : Edit) :
    (applicationOrder edits).filter e.sameRank = (edits.filter e.sameRank).reverse := by
  induction edits using List.reverseRecOn with
  | nil => rfl
  | append_singleton edits b ih =>
    rw [applicationOrder_concat, filter_insertOrdered, List.filter_append, List.filter_append, ih,
      List.reverse_append]
    congr 1
    rw [List.filter_cons]
    split <;> rfl

/-- Where no edit stands before one that outranks it, the edits of each rank fix the list. -/
theorem eq_of_filter_sameRank {l l' : List Edit}
    (h : l.Pairwise fun a b => b.outranks a = false)
    (h' : l'.Pairwise fun a b => b.outranks a = false)
    (hranks : ∀ e : Edit, l.filter e.sameRank = l'.filter e.sameRank) : l = l' := by
  have hmem : ∀ e, e ∈ l ↔ e ∈ l' := fun e => by
    rw [← mem_filter_sameRank, hranks, mem_filter_sameRank]
  induction l generalizing l' with
  | nil =>
    refine (List.eq_nil_iff_forall_not_mem.2 fun e he => ?_).symm
    exact List.not_mem_nil ((hmem e).2 he)
  | cons a l ih =>
    cases l' with
    | nil => exact absurd ((hmem a).1 List.mem_cons_self) List.not_mem_nil
    | cons b l' =>
      obtain ⟨ha, hl⟩ := List.pairwise_cons.1 h
      obtain ⟨hb, hl'⟩ := List.pairwise_cons.1 h'
      have hself : ∀ e : Edit, e.outranks e = false := fun e => (sameRank_iff.1 e.sameRank_refl).1
      have hba : b.outranks a = false := by
        rcases List.mem_cons.1 ((hmem b).2 List.mem_cons_self) with rfl | hmem
        · exact hself b
        · exact ha b hmem
      have hab : a.outranks b = false := by
        rcases List.mem_cons.1 ((hmem a).1 List.mem_cons_self) with rfl | hmem
        · exact hself a
        · exact hb a hmem
      -- both lists begin with the first edit of the rank that `a` and `b` share
      have hfirst := hranks a
      rw [List.filter_cons_of_pos a.sameRank_refl,
        List.filter_cons_of_pos (sameRank_iff.2 ⟨hab, hba⟩)] at hfirst
      obtain rfl := (List.cons.inj hfirst).1
      have hrest : ∀ e : Edit, l.filter e.sameRank = l'.filter e.sameRank := by
        intro e
        have he := hranks e
        rw [List.filter_cons, List.filter_cons] at he
        split at he
        · exact (List.cons.inj he).2
        · exact he
      rw [ih hl hl' hrest fun e => by rw [← mem_filter_sameRank, hrest, mem_filter_sameRank]]

/-! ## Rearranging -/

/-- Two lists hold the same edits, and those of one rank in the same order. -/
structure Rearranged (edits edits' : List Edit) : Prop where
  perm : edits.Perm edits'
  ranks : ∀ e ∈ edits, edits.filter e.sameRank = edits'.filter e.sameRank

variable {edits edits' : List Edit}

theorem Rearranged.filter_eq (h : Rearranged edits edits') (e : Edit) :
    edits.filter e.sameRank = edits'.filter e.sameRank := by
  by_cases hany : ∃ a ∈ edits, e.sameRank a = true
  · obtain ⟨a, ha, hea⟩ := hany
    rw [sameRank_congr hea]
    exact h.ranks a ha
  · have hnone : ∀ a ∈ edits, ¬ e.sameRank a = true := fun a ha hea => hany ⟨a, ha, hea⟩
    rw [List.filter_eq_nil_iff.2 hnone, List.filter_eq_nil_iff.2 fun a ha =>
      hnone a (h.perm.mem_iff.2 ha)]

/-- Lists are made in one order if and only if they are rearranged. -/
theorem applicationOrder_eq_iff :
    applicationOrder edits = applicationOrder edits' ↔ Rearranged edits edits' := by
  constructor
  · intro h
    refine ⟨(applicationOrder_perm edits).symm.trans (h ▸ applicationOrder_perm edits'), ?_⟩
    intro e _
    rw [← List.reverse_inj, ← filter_applicationOrder, h, filter_applicationOrder]
  · intro h
    refine eq_of_filter_sameRank (pairwise_applicationOrder edits)
      (pairwise_applicationOrder edits') fun e => ?_
    rw [filter_applicationOrder, filter_applicationOrder, h.filter_eq]

end Edit

/-- Rearranging a list changes nothing about its replay: neither the text or the fault that comes
of it, nor what is reported on the way. -/
theorem replay_rearranged {edits edits' : List Edit} (h : Edit.Rearranged edits edits')
    (text : Text) : replay text edits = replay text edits' := by
  have hnil : edits = [] ↔ edits' = [] :=
    ⟨fun he => (he ▸ h.perm).nil_eq.symm, fun he => (he ▸ h.perm).eq_nil⟩
  rw [replay, replay, Edit.applicationOrder_eq_iff.2 h, h.perm.length_eq]
  simp only [hnil]

/-- Edits of one line: two insertions at one place, a replacement there and one that starts further
on, and a deletion of a text that stands elsewhere on the line. -/
def scatteredEdits : List Edit :=
  [⟨.insert, .point 1 4 3, [], "<".toList, []⟩,
    ⟨.delete, .onLine 1 0 0 2, "bc".toList, [], []⟩,
    ⟨.insert, .point 1 4 3, [], ">".toList, []⟩,
    ⟨.replace, .onLine 1 0 3 5, "de".toList, "DE".toList, []⟩,
    ⟨.replace, .onLine 1 0 5 6, "f".toList, "F".toList, []⟩]

/-- The same edits, of which only the two insertions come in the same order. -/
def gatheredEdits : List Edit :=
  [⟨.replace, .onLine 1 0 5 6, "f".toList, "F".toList, []⟩,
    ⟨.replace, .onLine 1 0 3 5, "de".toList, "DE".toList, []⟩,
    ⟨.insert, .point 1 4 3, [], "<".toList, []⟩,
    ⟨.insert, .point 1 4 3, [], ">".toList, []⟩,
    ⟨.delete, .onLine 1 0 0 2, "bc".toList, [], []⟩]

/-- Either way the insertions stand in their order and the deletion is relocated. -/
theorem replay_gatheredEdits : Edit.Rearranged scatteredEdits gatheredEdits ∧
    replay "abcdef".toList scatteredEdits = replay "abcdef".toList gatheredEdits ∧
    (replay "abcdef".toList gatheredEdits).result = .ok "a<>DEF".toList := by
  have h : Edit.Rearranged scatteredEdits gatheredEdits := ⟨by decide, by decide⟩
  exact ⟨h, replay_rearranged h _, rfl⟩

end BuildScript
