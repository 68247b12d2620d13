import BuildScript.Edit.Replay
import BuildScript.Edit.Review
import BuildScript.Proofs.Edit.Order
import BuildScript.Proofs.Text.Location
/-!
# Splicing from the end

A replay makes edits from the end of a script to its beginning and keeps no account of how much it
has moved. It need not: an edit changes nothing in front of its start, and the edits still to come
stop at or in front of it. `run_eq_weave` is that invariant. The text in hand is always a part `u`
of the script that no edit has touched yet, with finished text `v` behind it, and every edit to
come fits `u`.

`weave` is the reference: a reader goes through the script once from the left, copies what stands
between the edits and puts down their new texts.

Results:
* `review_eq_nil_iff`, `problems_eq_nil_iff`: an edit without problems fits the script.
* `splice_of_not_fits`: an edit that expects a line feed is made in place or not at all.
* `run_append`: an edit whose text stands where it should is made there.
* `run_eq_weave`: edits that fit and lie one behind the other give the reference splice.
* `replay_side_by_side`: so do edits that a review passes and that keep out of each other's way.
-/
namespace BuildScript

namespace Edit

/-! ## Review -/

theorem problems_eq_nil_iff {text : Text} {e : Edit} : e.problems text = [] ↔
    0 ≤ e.start ∧ e.start ≤ e.stop ∧ e.stop ≤ text.length ∧
      (e.kind ≠ .insert → Text.slice text e.start e.stop = e.oldText) := by
  have one : ∀ (p : Prop) [Decidable p] (c : ProblemCause),
      (if p then [c] else []) = [] ↔ ¬ p := by simp
  unfold problems
  rw [List.append_eq_nil_iff, List.append_eq_nil_iff, List.append_eq_nil_iff, one, one, one]
  constructor
  · rintro ⟨⟨⟨h0, h2⟩, h1⟩, h⟩
    refine ⟨by omega, by omega, by omega, fun hk => ?_⟩
    rw [if_pos ⟨hk, by omega, by omega, by omega⟩] at h
    exact Decidable.byContradiction fun hne => by
      rw [if_neg hne] at h
      cases h
  · rintro ⟨h0, h1, h2, h⟩
    refine ⟨⟨⟨by omega, by omega⟩, by omega⟩, ?_⟩
    by_cases hk : e.kind ≠ .insert
    · rw [if_pos ⟨hk, h0, h1, h2⟩]
      exact if_pos (h hk)
    · exact if_neg fun hc => hk hc.1

theorem reviewFrom_eq_nil_iff {text : Text} {index : Nat} {edits : List Edit} :
    reviewFrom text index edits = [] ↔ ∀ e ∈ edits, e.problems text = [] := by
  induction edits generalizing index with
  | nil => simp [reviewFrom]
  | cons e edits ih =>
    rw [reviewFrom, List.append_eq_nil_iff, List.map_eq_nil_iff, ih, List.forall_mem_cons]

/-- A review passes when no edit has a problem. -/
theorem review_eq_nil_iff {text : Text} {edits : List Edit} :
    review text edits = [] ↔ ∀ e ∈ edits, e.problems text = [] := reviewFrom_eq_nil_iff

/-! ## One edit -/

/-- What an edit expects stands in its region of a text. -/
def Fits (e : Edit) (text : Text) : Prop :=
  ∃ u v, text = u ++ e.expected ++ v ∧ e.start = u.length ∧
    e.stop = u.length + e.expected.length

/-- The region of an edit lies within a text of the given length. -/
def InBounds (e : Edit) (length : Int) : Prop :=
  0 ≤ e.start ∧ e.start ≤ e.stop ∧ e.stop ≤ length

instance (e : Edit) (length : Int) : Decidable (e.InBounds length) :=
  inferInstanceAs (Decidable (_ ∧ _ ∧ _))

theorem Fits.inBounds {e : Edit} {text : Text} (h : e.Fits text) : e.InBounds text.length := by
  obtain ⟨u, v, rfl, hstart, hstop⟩ := h
  have hle : u.length + e.expected.length ≤ (u ++ e.expected ++ v).length := by
    simp only [List.length_append]
    omega
  exact ⟨by omega, by omega, by omega⟩

theorem fits_of_slice_eq {text : Text} {e : Edit} (hbounds : e.InBounds text.length)
    (hslice : Text.slice text e.start e.stop = e.expected) : e.Fits text := by
  obtain ⟨h0, h1, h2⟩ := hbounds
  obtain ⟨i, hi⟩ := Int.eq_ofNat_of_zero_le h0
  obtain ⟨j, hj⟩ := Int.eq_ofNat_of_zero_le (Int.le_trans h0 h1)
  obtain ⟨u, m, v, htext, hu, hm, hcut⟩ := Text.exists_cut (s := text) (i := i) (j := j)
    (by omega) (by omega)
  rw [hi, hj, Text.slice_of_le, ← hcut] at hslice
  rw [hslice, List.length_append] at hm
  exact ⟨u, v, by rw [htext, hslice], by omega, by omega⟩

theorem fits_of_problems_eq_nil {text : Text} {e : Edit} (h : e.problems text = [])
    (hpoint : e.kind = .insert → e.start = e.stop) : e.Fits text := by
  obtain ⟨h0, h1, h2, hslice⟩ := problems_eq_nil_iff.1 h
  refine fits_of_slice_eq ⟨h0, h1, h2⟩ ?_
  by_cases hk : e.kind = .insert
  · rw [expected, if_pos hk, ← hpoint hk]
    simp [Text.slice]
  · rw [expected, if_neg hk, hslice hk]

theorem Fits.of_append {e : Edit} {u w : Text} (h : e.Fits (u ++ w)) (hstop : e.stop ≤ u.length) :
    e.Fits u := by
  obtain ⟨w₁, w₂, hw, hstart, hlength⟩ := h
  have hfront : w₁ ++ e.expected <+: u ++ w := hw ▸ List.prefix_append _ w₂
  have hlen : (w₁ ++ e.expected).length ≤ u.length := by
    rw [List.length_append]
    omega
  obtain ⟨w₃, hw₃⟩ := List.prefix_of_prefix_length_le hfront (List.prefix_append u w) hlen
  exact ⟨w₁, w₃, hw₃.symm, hstart, hlength⟩

theorem Fits.append {e : Edit} {u : Text} (h : e.Fits u) (w : Text) : e.Fits (u ++ w) := by
  obtain ⟨w₁, w₂, rfl, hstart, hlength⟩ := h
  exact ⟨w₁, w₂ ++ w, List.append_assoc _ _ _, hstart, hlength⟩

theorem splice_append {e : Edit} {u v : Text} (hstart : e.start = u.length)
    (hstop : e.stop = u.length + e.expected.length) :
    e.splice (u ++ e.expected ++ v) = .ok (u ++ e.newText ++ v, none) := by
  have hslice : Text.slice (u ++ e.expected ++ v) e.start e.stop = e.expected := by
    rw [hstart, hstop, ← Int.natCast_add, Text.slice_of_le, ← List.length_append,
      List.take_left, List.drop_left]
  rw [splice_of_match (by omega) (by omega) (by simp only [List.length_append]; omega) hslice, put,
    hstart, hstop, Int.toNat_natCast, ← Int.natCast_add, Int.toNat_natCast, Text.replace_middle]

/-! ## Relocation -/

end Edit

namespace Text

theorem disjointCountFrom_eq_zero {part s : Text} {c : Char} (hpart : c ∈ part) (hs : c ∉ s)
    (skip : Nat) : disjointCountFrom part skip s = 0 := by
  fun_induction disjointCountFrom part skip s with
  | case1 => rfl
  | case2 k d s ih => exact ih fun h => hs (List.mem_cons_of_mem d h)
  | case3 d s hstarts ih =>
    obtain ⟨r, hr⟩ := Option.isSome_iff_exists.1 hstarts
    refine absurd ?_ hs
    rw [eq_append_of_after? hr]
    exact List.mem_append_left r hpart
  | case4 d s _ ih => exact ih fun h => hs (List.mem_cons_of_mem d h)

theorem not_mem_lineAt (s : Text) (offset : Int) : '\n' ∉ lineAt s offset :=
  not_mem_of_mem_lines (lineAt_mem_lines s offset)

end Text

namespace Edit

/-- An edit that expects a line feed is made in place or not at all. -/
theorem splice_of_not_fits {e : Edit} {text : Text} (hkind : e.kind ≠ .insert)
    (hlf : '\n' ∈ e.oldText) (h : ¬ e.Fits text) : ∃ fault, e.splice text = .error fault := by
  have hexp : e.expected = e.oldText := if_neg hkind
  have hreloc : e.relocation? text = none := by
    have hcount : Text.disjointCount e.expected (Text.lineAt text e.start) = 0 :=
      Text.disjointCountFrom_eq_zero (hexp ▸ hlf) (Text.not_mem_lineAt text e.start) 0
    refine if_neg fun hone => ?_
    have := hcount.symm.trans hone.2
    cases this
  unfold splice
  split
  · exact ⟨_, rfl⟩
  · next hbounds =>
    dsimp only
    split
    · next hactual =>
      refine absurd (fits_of_problems_eq_nil ?_ fun k => absurd k hkind) h
      exact problems_eq_nil_iff.2 ⟨by omega, by omega, by omega, fun _ => hexp ▸ hactual⟩
    · rw [hreloc]
      exact ⟨_, rfl⟩

/-! ## The reference -/

/-- A text from `offset` on with edits in reading order made in it: what stands in front of the
next edit, its new text, and so on from where it stops. -/
def weave (text : Text) (offset : Nat) : List Edit → Text
  | [] => text.drop offset
  | e :: rest =>
    (text.take e.start.toNat).drop offset ++ e.newText ++ weave text e.stop.toNat rest

theorem weave_concat {text : Text} {offset : Nat} {edits : List Edit} {e : Edit}
    (h : ∀ f ∈ edits, f.start ≤ e.start) :
    weave text offset (edits ++ [e]) =
      weave (text.take e.start.toNat) offset edits ++ e.newText ++ text.drop e.stop.toNat := by
  induction edits generalizing offset with
  | nil => rfl
  | cons f edits ih =>
    have hf := h f List.mem_cons_self
    have htake : (text.take e.start.toNat).take f.start.toNat = text.take f.start.toNat := by
      rw [List.take_take, Nat.min_eq_left (by omega)]
    rw [List.cons_append, weave, ih fun g hg => h g (List.mem_cons_of_mem f hg), weave, htake]
    simp only [List.append_assoc]

end Edit

/-! ## A run -/

/-- An edit whose text stands where it should is made there. -/
theorem Replay.run_append {e : Edit} {u : Text} (hstart : e.start = u.length)
    (hstop : e.stop = u.length + e.expected.length) (v : Text) (rest : List Edit) :
    run (u ++ e.expected ++ v) (e :: rest) = run (u ++ e.newText ++ v) rest := by
  rw [run, Edit.splice_append hstart hstop]

/-- An edit that expects a line feed and does not fit stops the run. -/
theorem Replay.run_of_not_fits {e : Edit} {text : Text} (hkind : e.kind ≠ .insert)
    (hlf : '\n' ∈ e.oldText) (h : ¬ e.Fits text) (rest : List Edit) (new : Text) :
    (run text (e :: rest)).result ≠ .ok new := by
  obtain ⟨fault, hfault⟩ := Edit.splice_of_not_fits hkind hlf h
  rw [run, hfault]
  exact fun he => by cases he

/-- Insertions at one point, made from the last to the first, come to stand in their order. -/
theorem Replay.run_points {u v : Text} {edits rest : List Edit}
    (h : ∀ e ∈ edits, e.kind = .insert ∧ e.start = u.length ∧ e.stop = u.length) :
    run (u ++ v) (edits.reverse ++ rest) = run (u ++ (edits.flatMap (·.newText) ++ v)) rest := by
  induction edits using List.reverseRecOn generalizing v with
  | nil => rfl
  | append_singleton edits e ih =>
    obtain ⟨hkind, hstart, hstop⟩ := h e (List.mem_append_right edits List.mem_cons_self)
    have hexp : e.expected = [] := if_pos hkind
    have hmade := run_append hstart (by rw [hexp, hstop]; exact (Int.add_zero _).symm) v
      (edits.reverse ++ rest)
    rw [hexp, List.append_nil] at hmade
    rw [List.reverse_concat, List.cons_append, hmade, List.append_assoc,
      ih fun a ha => h a (List.mem_append_left [e] ha)]
    simp

/-- Edits that fit a text and lie one behind the other are made in place, whatever stands behind
the text. -/
theorem Replay.run_eq_weave {u v : Text} {edits : List Edit} (hfit : ∀ e ∈ edits, e.Fits u)
    (hbehind : edits.Pairwise fun a b => b.stop ≤ a.start) :
    run (u ++ v) edits = ⟨.ok (Edit.weave u 0 edits.reverse ++ v), []⟩ := by
  induction edits generalizing u v with
  | nil => rfl
  | cons e edits ih =>
    obtain ⟨u₁, u₂, rfl, hstart, hstop⟩ := hfit e List.mem_cons_self
    obtain ⟨hlast, hrest⟩ := List.pairwise_cons.1 hbehind
    -- the edits to come stop where `u₁` does, so they fit it as they fit the whole
    have hfit₁ : ∀ f ∈ edits, f.Fits u₁ := by
      intro f hf
      have hwhole := hfit f (List.mem_cons_of_mem e hf)
      rw [List.append_assoc] at hwhole
      have := hlast f hf
      exact hwhole.of_append (by omega)
    have hstarts : ∀ f ∈ edits.reverse, f.start ≤ e.start := by
      intro f hf
      rw [List.mem_reverse] at hf
      obtain ⟨w₁, w₂, -, hfstart, hfstop⟩ := hfit₁ f hf
      have := hlast f hf
      omega
    have hstartNat : e.start.toNat = u₁.length := by omega
    have hstopNat : e.stop.toNat = (u₁ ++ e.expected).length := by
      rw [List.length_append]
      omega
    rw [List.append_assoc (u₁ ++ e.expected), run_append hstart hstop, List.append_assoc,
      ih hfit₁ hrest, List.reverse_cons, Edit.weave_concat hstarts, hstartNat, hstopNat,
      List.drop_left, List.append_assoc u₁, List.take_left]
    simp only [List.append_assoc]

theorem result_replay (text : Text) (edits : List Edit) :
    (replay text edits).result = (Replay.run text (Edit.applicationOrder edits)).result := by
  unfold replay
  split
  · next h =>
    rw [h]
    rfl
  · dsimp only
    split <;> rfl

/-! ## Edits that keep out of each other's way -/

/-- Insertions are made at points, replaced and deleted spans have no character and no start in
common, and no point lies strictly inside such a span. -/
structure SideBySide (edits : List Edit) : Prop where
  point : ∀ e ∈ edits, e.kind = .insert → e.start = e.stop
  apart : edits.Pairwise fun a b =>
    a.kind ≠ .insert → b.kind ≠ .insert → ¬ (a.start < b.stop ∧ b.start < a.stop)
  outside : ∀ a ∈ edits, ∀ b ∈ edits, a.start = a.stop → b.kind ≠ .insert →
    ¬ (b.start < a.start ∧ a.start < b.stop)
  starts : edits.Pairwise fun a b => a.kind ≠ .insert → b.kind ≠ .insert → a.start ≠ b.start

theorem SideBySide.pairwise_applicationOrder {edits : List Edit} (h : SideBySide edits)
    (hle : ∀ e ∈ edits, e.start ≤ e.stop) :
    (Edit.applicationOrder edits).Pairwise fun a b => b.stop ≤ a.start := by
  have hperm := Edit.applicationOrder_perm edits
  have hapart := (hperm.pairwise_iff fun {a b} hab ka kb => by
    have := hab kb ka
    omega).2 h.apart
  have hstarts := (hperm.pairwise_iff fun {a b} hab ka kb => (hab kb ka).symm).2 h.starts
  refine ((Edit.pairwise_applicationOrder edits).and (hapart.and hstarts)).imp_of_mem ?_
  rintro a b ha hb ⟨hrank, hab⟩
  rw [Edit.mem_applicationOrder] at ha hb
  have hlea := hle a ha
  have hleb := hle b hb
  obtain ⟨hba, htie⟩ := Edit.not_outranks_iff.1 hrank
  rcases Int.lt_or_eq_of_le hleb with hspan | hpoint
  · have hkb : b.kind ≠ .insert := fun k => by
      have := h.point b hb k
      omega
    by_cases hka : a.kind = .insert
    · have hin := h.outside a ha b hb (h.point a ha hka) hkb
      have hne : b.start ≠ a.start := fun e => htie e hkb hka
      omega
    · have hna := hab.2 hka hkb
      have hover := hab.1 hka hkb
      have hin := h.outside a ha b hb
      omega
  · omega

/-- Edits that a review passes and that keep out of each other's way are all made in place, and the
result is what a reader of the script puts together from left to right. -/
theorem replay_side_by_side {text : Text} {edits : List Edit}
    (hreview : Edit.review text edits = [])
    (h : SideBySide edits) :
    (replay text edits).result = .ok (Edit.weave text 0 (Edit.readingOrder edits)) ∧
      ∀ e place, Event.relocated e place ∉ (replay text edits).events := by
  have hproblems := Edit.review_eq_nil_iff.1 hreview
  have hle : ∀ e ∈ edits, e.start ≤ e.stop := fun e he =>
    (Edit.problems_eq_nil_iff.1 (hproblems e he)).2.1
  have hfit : ∀ e ∈ Edit.applicationOrder edits, e.Fits text := by
    intro e he
    rw [Edit.mem_applicationOrder] at he
    exact Edit.fits_of_problems_eq_nil (hproblems e he) (h.point e he)
  have hrun := Replay.run_eq_weave (v := []) hfit (h.pairwise_applicationOrder hle)
  rw [List.append_nil, List.append_nil, Edit.applicationOrder_eq_reverse, List.reverse_reverse,
    ← Edit.applicationOrder_eq_reverse] at hrun
  refine ⟨by rw [result_replay, hrun], fun e place => ?_⟩
  unfold replay
  split
  · exact List.not_mem_nil
  · simp [hrun]

/-- Edits of one short line that touch one another on both sides. -/
def touchingEdits : List Edit :=
  [⟨.replace, .onLine 1 0 1 3, "bc".toList, "X".toList, []⟩,
   ⟨.insert, .point 1 4 3, [], "k".toList, []⟩,
   ⟨.delete, .onLine 1 0 3 5, "de".toList, [], []⟩,
   ⟨.insert, .point 1 2 1, [], "i".toList, []⟩,
   ⟨.insert, .point 1 4 3, [], "l".toList, []⟩]

theorem replay_touchingEdits :
    Edit.review "abcdef".toList touchingEdits = [] ∧ SideBySide touchingEdits ∧
      (replay "abcdef".toList touchingEdits).result = .ok "aiXklf".toList := by
  have hreview : Edit.review "abcdef".toList touchingEdits = [] := by decide
  have hside : SideBySide touchingEdits := ⟨by decide, by decide, by decide, by decide⟩
  exact ⟨hreview, hside, (replay_side_by_side hreview hside).1.trans rfl⟩

end BuildScript
