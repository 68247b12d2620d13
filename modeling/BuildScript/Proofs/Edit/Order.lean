import Mathlib.Data.List.Induction
import BuildScript.Edit
/-!
# The order of application

`outranks` compares start and kind alone; edits that neither puts first keep the reverse of the
order in which they were submitted. Hence the order is determined piece by piece: edits that all
outrank the others are made first, in the order they would have on their own.

`readingOrder` is the other way to list edits, from the beginning of the script to its end, with
the insertions at a place in front of what is replaced there.

Results:
* `applicationOrder_partition`: edits that outrank all others come first.
* `applicationOrder_middle`: leaving an edit out does not change the order of the others.
* `applicationOrder_eq_reverse`: edits are applied against the reading order.
* `pairwise_applicationOrder`: no edit is made before one that outranks it.
-/
namespace BuildScript.Edit

theorem outranks_iff {a b : Edit} : a.outranks b = true ↔
    b.start < a.start ∨ (a.start = b.start ∧ a.kind ≠ .insert ∧ b.kind = .insert) := by
  simp [outranks, and_assoc]

theorem not_outranks_iff {a b : Edit} : a.outranks b = false ↔
    a.start ≤ b.start ∧ (a.start = b.start → a.kind ≠ .insert → b.kind ≠ .insert) := by
  rw [← Bool.not_eq_true, outranks_iff, not_or, Int.not_lt]
  exact and_congr_right fun _ => ⟨fun h e k i => h ⟨e, k, i⟩, fun h ⟨e, k, i⟩ => h e k i⟩

theorem outranks_asymm {a b : Edit} (h : a.outranks b = true) : b.outranks a = false := by
  rw [outranks_iff] at h
  rw [not_outranks_iff]
  rcases h with h | ⟨he, ha, hb⟩
  · exact ⟨by omega, fun e => absurd e (by omega)⟩
  · exact ⟨by omega, fun _ hk => absurd hb hk⟩

theorem not_outranks_trans {a b c : Edit} (hab : a.outranks b = false)
    (hbc : b.outranks c = false) : a.outranks c = false := by
  rw [not_outranks_iff] at hab hbc ⊢
  obtain ⟨hab, tab⟩ := hab
  obtain ⟨hbc, tbc⟩ := hbc
  exact ⟨by omega, fun e k => tbc (by omega) (tab (by omega) k)⟩

/-! ## Adding the last edit -/

theorem applicationOrder_concat (edits : List Edit) (e : Edit) :
    applicationOrder (edits ++ [e]) = insertOrdered e (applicationOrder edits) := by
  simp [applicationOrder]

theorem insertOrdered_append_of_not_outranks {e : Edit} {l m : List Edit}
    (h : ∀ b ∈ m, b.outranks e = false) : insertOrdered e (l ++ m) = insertOrdered e l ++ m := by
  induction l with
  | nil =>
    cases m with
    | nil => rfl
    | cons b m =>
      have hb : ¬ b.outranks e = true := by
        rw [h b List.mem_cons_self]
        exact Bool.false_ne_true
      exact if_neg hb
  | cons a l ih =>
    rw [List.cons_append, insertOrdered, insertOrdered, ih]
    split <;> rfl

theorem insertOrdered_append_of_outranks {e : Edit} {l m : List Edit}
    (h : ∀ a ∈ l, a.outranks e = true) : insertOrdered e (l ++ m) = l ++ insertOrdered e m := by
  induction l with
  | nil => rfl
  | cons a l ih =>
    rw [List.cons_append, insertOrdered, if_pos (h a List.mem_cons_self),
      ih fun b hb => h b (List.mem_cons_of_mem a hb), List.cons_append]

theorem insertOrdered_perm (e : Edit) (l : List Edit) : (insertOrdered e l).Perm (e :: l) := by
  induction l with
  | nil => exact List.Perm.refl [e]
  | cons a l ih =>
    rw [insertOrdered]
    split
    · exact (ih.cons a).trans (List.Perm.swap e a l)
    · exact List.Perm.refl _

theorem applicationOrder_perm (edits : List Edit) : (applicationOrder edits).Perm edits := by
  induction edits using List.reverseRecOn with
  | nil => exact List.Perm.refl []
  | append_singleton edits e ih =>
    rw [applicationOrder_concat]
    exact (insertOrdered_perm e _).trans
      ((ih.cons e).trans (List.perm_append_singleton e edits).symm)

/-! ## Pieces of the order -/

/-- Edits that outrank all others come first. -/
theorem applicationOrder_partition {α : Type} (edit : α → Edit) (p : α → Bool) {l : List α}
    (h : ∀ a ∈ l, ∀ b ∈ l, p a = true → p b = false → (edit a).outranks (edit b) = true) :
    applicationOrder (l.map edit) = applicationOrder ((l.filter p).map edit) ++
      applicationOrder ((l.filter fun a => !p a).map edit) := by
  induction l using List.reverseRecOn with
  | nil => rfl
  | append_singleton l e ih =>
    have ih := ih fun a ha b hb => h a (List.mem_append_left [e] ha) b (List.mem_append_left [e] hb)
    have he : e ∈ l ++ [e] := List.mem_append_right l List.mem_cons_self
    rw [List.map_append, List.map_singleton, applicationOrder_concat, ih, List.filter_append,
      List.filter_append]
    cases hp : p e with
    | true =>
      have hlow : ∀ b ∈ applicationOrder ((l.filter fun a => !p a).map edit),
          b.outranks (edit e) = false := by
        intro b hb
        rw [mem_applicationOrder, List.mem_map] at hb
        obtain ⟨c, hc, rfl⟩ := hb
        rw [List.mem_filter, Bool.not_eq_true'] at hc
        exact outranks_asymm (h e he c (List.mem_append_left [e] hc.1) hp hc.2)
      rw [insertOrdered_append_of_not_outranks hlow]
      simp [hp, applicationOrder_concat]
    | false =>
      have hhigh : ∀ a ∈ applicationOrder ((l.filter p).map edit),
          a.outranks (edit e) = true := by
        intro a ha
        rw [mem_applicationOrder, List.mem_map] at ha
        obtain ⟨c, hc, rfl⟩ := ha
        rw [List.mem_filter] at hc
        exact h c (List.mem_append_left [e] hc.1) e he hc.2 hp
      rw [insertOrdered_append_of_outranks hhigh]
      simp [hp, applicationOrder_concat]

/-- Edits of one rank are made in the reverse of the order of submission. -/
theorem applicationOrder_of_ties {edits : List Edit}
    (h : ∀ a ∈ edits, ∀ b ∈ edits, a.outranks b = false) :
    applicationOrder edits = edits.reverse := by
  induction edits using List.reverseRecOn with
  | nil => rfl
  | append_singleton edits e ih =>
    have ih := ih fun a ha b hb =>
      h a (List.mem_append_left [e] ha) b (List.mem_append_left [e] hb)
    have hlow : ∀ b ∈ edits.reverse, b.outranks e = false := fun b hb =>
      h b (List.mem_append_left [e] (List.mem_reverse.1 hb)) e
        (List.mem_append_right edits List.mem_cons_self)
    rw [applicationOrder_concat, ih, List.reverse_append]
    exact insertOrdered_append_of_not_outranks (l := []) hlow

/-- No edit is made before one that outranks it. -/
theorem pairwise_applicationOrder (edits : List Edit) :
    (applicationOrder edits).Pairwise fun a b => b.outranks a = false := by
  induction edits using List.reverseRecOn with
  | nil => exact List.Pairwise.nil
  | append_singleton edits e ih =>
    rw [applicationOrder_concat]
    generalize applicationOrder edits = l at ih
    induction l with
    | nil => exact List.pairwise_singleton _ e
    | cons a l ihl =>
      obtain ⟨ha, hl⟩ := List.pairwise_cons.1 ih
      rw [insertOrdered]
      split
      · next hae =>
        refine List.pairwise_cons.2 ⟨fun b hb => ?_, ihl hl⟩
        rcases mem_insertOrdered.1 hb with rfl | hb
        · exact outranks_asymm hae
        · exact ha b hb
      · next hae =>
        rw [Bool.not_eq_true] at hae
        refine List.pairwise_cons.2 ⟨fun b hb => ?_, ih⟩
        rcases List.mem_cons.1 hb with rfl | hb
        · exact hae
        · exact not_outranks_trans (ha b hb) hae

/-! ## Leaving an edit out -/

theorem insertOrdered_split (e : Edit) (l : List Edit) :
    ∃ first last, insertOrdered e l = first ++ e :: last ∧ l = first ++ last := by
  induction l with
  | nil => exact ⟨[], [], rfl, rfl⟩
  | cons a l ih =>
    by_cases ha : a.outranks e = true
    · obtain ⟨first, last, hmade, rfl⟩ := ih
      exact ⟨a :: first, last, (if_pos ha).trans (congrArg (a :: ·) hmade), rfl⟩
    · exact ⟨[], a :: l, if_neg ha, rfl⟩

theorem insertOrdered_middle {e b : Edit} {first last : List Edit}
    (h : (first ++ e :: last).Pairwise fun x y => y.outranks x = false) :
    ∃ first' last', insertOrdered b (first ++ e :: last) = first' ++ e :: last' ∧
      insertOrdered b (first ++ last) = first' ++ last' := by
  induction first with
  | nil =>
    by_cases he : e.outranks b = true
    · exact ⟨[], insertOrdered b last, if_pos he, rfl⟩
    · refine ⟨[b], last, if_neg he, ?_⟩
      -- what stands behind `e` does not outrank `b` either
      have hlast : ∀ c ∈ last, c.outranks b = false := fun c hc =>
        not_outranks_trans ((List.pairwise_cons.1 h).1 c hc) (Bool.eq_false_iff.2 he)
      exact insertOrdered_append_of_not_outranks (l := []) hlast
  | cons a first ih =>
    by_cases ha : a.outranks b = true
    · obtain ⟨first', last', hwith, hwithout⟩ := ih (List.pairwise_cons.1 h).2
      refine ⟨a :: first', last', ?_, ?_⟩
      · exact (if_pos ha).trans (congrArg (a :: ·) hwith)
      · exact (if_pos ha).trans (congrArg (a :: ·) hwithout)
    · exact ⟨b :: a :: first, last, if_neg ha, if_neg ha⟩

/-- Leaving an edit out does not change the order of the others. -/
theorem applicationOrder_middle (front back : List Edit) (e : Edit) :
    ∃ first last, applicationOrder (front ++ e :: back) = first ++ e :: last ∧
      applicationOrder (front ++ back) = first ++ last := by
  induction back using List.reverseRecOn with
  | nil =>
    rw [applicationOrder_concat, List.append_nil]
    exact insertOrdered_split e (applicationOrder front)
  | append_singleton back b ih =>
    obtain ⟨first, last, hwith, hwithout⟩ := ih
    have horder := pairwise_applicationOrder (front ++ e :: back)
    rw [hwith] at horder
    rw [← List.append_assoc front back, applicationOrder_concat, hwithout, ← List.cons_append,
      ← List.append_assoc front, applicationOrder_concat, hwith]
    exact insertOrdered_middle horder

/-! ## The reading order -/

/-- Whether the start offset and the kind alone put `a` in front of `b` for a reader of the
script. -/
def precedes (a b : Edit) : Bool :=
  a.start < b.start || (a.start == b.start && a.kind == .insert && b.kind != .insert)

/-- Edits from the beginning of the script to its end: at one place the insertions in the order of
submission, then the rest. -/
def readingOrder (edits : List Edit) : List Edit := sortStable precedes edits

theorem precedes_eq (a b : Edit) : a.precedes b = b.outranks a := by
  rw [Bool.eq_iff_iff, outranks_iff]
  simp only [precedes, Bool.or_eq_true, Bool.and_eq_true, decide_eq_true_eq, beq_iff_eq, bne_iff_ne]
  constructor
  · rintro (h | ⟨⟨h, ha⟩, hb⟩)
    · exact Or.inl h
    · exact Or.inr ⟨h.symm, hb, ha⟩
  · rintro (h | ⟨h, hb, ha⟩)
    · exact Or.inl h
    · exact Or.inr ⟨⟨h.symm, ha⟩, hb⟩

theorem readingOrder_concat (edits : List Edit) (e : Edit) :
    readingOrder (edits ++ [e]) = insertLast precedes e (readingOrder edits) := by
  simp [readingOrder, sortStable]

theorem insertLast_append_of_precedes {e a : Edit} (l : List Edit) (h : e.precedes a = true) :
    insertLast precedes e (l ++ [a]) = insertLast precedes e l ++ [a] := by
  induction l with
  | nil => exact if_pos h
  | cons b l ih =>
    rw [List.cons_append, insertLast, insertLast, ih]
    split <;> rfl

theorem insertLast_of_not_precedes {e : Edit} {l : List Edit}
    (h : ∀ b ∈ l, e.precedes b = false) : insertLast precedes e l = l ++ [e] := by
  induction l with
  | nil => rfl
  | cons b l ih =>
    rw [insertLast, h b List.mem_cons_self, ih fun c hc => h c (List.mem_cons_of_mem b hc)]
    rfl

theorem insertOrdered_eq_reverse {e : Edit} {l : List Edit}
    (h : l.Pairwise fun a b => b.outranks a = false) :
    insertOrdered e l = (insertLast precedes e l.reverse).reverse := by
  induction l with
  | nil => rfl
  | cons a l ih =>
    obtain ⟨ha, hl⟩ := List.pairwise_cons.1 h
    rw [List.reverse_cons, insertOrdered]
    split
    · next hae =>
      rw [insertLast_append_of_precedes _ (by rw [precedes_eq, hae]), ih hl]
      simp
    · next hae =>
      rw [Bool.not_eq_true] at hae
      have hnone : ∀ b ∈ l.reverse ++ [a], e.precedes b = false := by
        intro b hb
        rw [precedes_eq]
        rcases List.mem_append.1 hb with hb | hb
        · exact not_outranks_trans (ha b (List.mem_reverse.1 hb)) hae
        · rw [List.mem_singleton.1 hb, hae]
      rw [insertLast_of_not_precedes hnone]
      simp

/-- Edits are applied against the reading order. -/
theorem applicationOrder_eq_reverse (edits : List Edit) :
    applicationOrder edits = (readingOrder edits).reverse := by
  induction edits using List.reverseRecOn with
  | nil => rfl
  | append_singleton edits e ih =>
    rw [applicationOrder_concat, readingOrder_concat,
      insertOrdered_eq_reverse (pairwise_applicationOrder edits), ih, List.reverse_reverse]

end BuildScript.Edit
