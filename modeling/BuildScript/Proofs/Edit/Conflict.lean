import BuildScript.Proofs.Edit.Bounds
/-!
# Edits that want the same text

A review looks at each edit alone, against the script. Two edits of one span both pass it, but only
the first to be made finds the text it expects; the second either is refused or, where the same text
is met elsewhere on its line, is made there.

Two things keep an edit from being made elsewhere.

**Reach.** Edits are made from the end, so the script in front of an edit is untouched at its turn.
An edit that does not reach past the start of one made before it therefore finds its text, and an
edit that expects a line feed is never looked for on a line.

**Supply.** Every edit made uses up the characters that it expects and leaves those of its new text.
Where two edits want one character, and the script and the edits made before them have no second
one to offer, the replay is refused.

Results:
* `no_relocation_of_run`: edits out of each other's reach are made in place or refused.
* `supplied_of_run`: in a run that is not refused no character is used more often than it is there.
* `replay_refused_or_in_place`: edits that a review passes are made in place or the replay is
  refused, unless they are in each other's reach and well supplied.
-/
namespace BuildScript

namespace Edit

/-! ## Reach -/

/-- An edit cannot lose its text to one made before it, or is not looked for elsewhere. -/
def OutOfReach (made e : Edit) : Prop :=
  e.kind ≠ .insert → '\n' ∈ e.oldText ∨ e.stop ≤ made.start

instance (made e : Edit) : Decidable (OutOfReach made e) :=
  inferInstanceAs (Decidable (_ → _))

/-- An edit that fits a text fits every text that begins as this does, up to where it stops. -/
theorem Fits.of_take_eq {e : Edit} {u w : Text} {k : Nat} (h : e.Fits u)
    (htake : w.take k = u.take k) (hstop : e.stop ≤ k) : e.Fits w := by
  have hle : e.stop ≤ (u.take k).length := by
    have := h.inBounds.2.2
    rw [List.length_take]
    omega
  rw [← List.take_append_drop k u] at h
  have hfront := h.of_append hle
  rw [← htake] at hfront
  have := hfront.append (w.drop k)
  rwa [List.take_append_drop] at this

/-- An edit that fits the script is not made elsewhere in a text that begins as the script does. -/
theorem not_relocated_of_fits {e : Edit} {script text : Text} {k : Nat}
    (htake : text.take k = script.take k) (hfit : e.kind ≠ .insert → e.Fits script)
    (hreach : e.kind ≠ .insert → '\n' ∈ e.oldText ∨ e.stop ≤ k) (new : Text) (place : Nat) :
    e.splice text ≠ .ok (new, some place) := by
  intro hmade
  obtain ⟨-, u, v, -, -, ⟨hnone, -⟩ | ⟨-, hreloc⟩⟩ := splice_spec hmade
  · cases hnone
  · obtain ⟨hexpected, hlf, -⟩ := relocation?_spec hreloc
    have hkind : e.kind ≠ .insert := fun h => hexpected (if_pos h)
    rw [expected, if_neg hkind] at hlf
    have hstop : e.stop ≤ k := (hreach hkind).resolve_left hlf
    obtain ⟨w, x, rfl, hstart, hlength⟩ := (hfit hkind).of_take_eq htake hstop
    rw [splice_append hstart hlength] at hmade
    cases hmade

/-! ## Supply -/

/-- A text holds a character often enough for every edit at its turn, when it is counted off by what
the edits in front expect and up by what they put. -/
def Supplied (c : Char) : Nat → List Edit → Prop
  | _, [] => True
  | supply, e :: rest =>
    e.expected.count c ≤ supply ∧
      Supplied c (supply - e.expected.count c + e.newText.count c) rest

instance (c : Char) : (supply : Nat) → (edits : List Edit) → Decidable (Supplied c supply edits)
  | _, [] => inferInstanceAs (Decidable True)
  | supply, e :: rest =>
    have : Decidable (Supplied c (supply - e.expected.count c + e.newText.count c) rest) :=
      instDecidableSupplied c _ rest
    inferInstanceAs (Decidable (_ ∧ _))

theorem count_of_splice {e : Edit} {text new : Text} {place? : Option Nat}
    (h : e.splice text = .ok (new, place?)) (c : Char) :
    new.count c + e.expected.count c = text.count c + e.newText.count c := by
  obtain ⟨-, u, v, rfl, rfl, -⟩ := splice_spec h
  simp only [List.count_append]
  omega

end Edit

namespace Replay

/-- Edits out of each other's reach are made in place or refused. The text in hand begins as the
script does, up to the start of the edit made last. -/
theorem no_relocation_of_run {script text : Text} {edits : List Edit} {k : Nat}
    (htake : text.take k = script.take k) (hfit : ∀ e ∈ edits, e.kind ≠ .insert → e.Fits script)
    (hstart : ∀ e ∈ edits, e.start ≤ k)
    (hreach : ∀ e ∈ edits, e.kind ≠ .insert → '\n' ∈ e.oldText ∨ e.stop ≤ k)
    (hpair : edits.Pairwise fun made e => e.start ≤ made.start ∧ Edit.OutOfReach made e) :
    ∀ e place, Event.relocated e place ∉ (run text edits).events := by
  induction edits generalizing text k with
  | nil => simp [run]
  | cons a rest ih =>
    cases hmade : a.splice text with
    | error fault => simp [run, hmade]
    | ok made =>
      obtain ⟨new, _ | place⟩ := made
      · obtain ⟨-, u, v, rfl, rfl, ⟨-, hu, -⟩ | ⟨hsome, -⟩⟩ := Edit.splice_spec hmade
        · obtain ⟨hlast, hrest⟩ := List.pairwise_cons.1 hpair
          have hle : u.length ≤ k := by
            have := hstart a List.mem_cons_self
            omega
          have htake' : (u ++ a.newText ++ v).take u.length = script.take u.length := by
            have := congrArg (List.take u.length) htake
            rw [List.take_take, List.take_take, Nat.min_eq_left hle] at this
            rw [← this]
            simp
          rw [run, hmade]
          refine ih htake' (fun e he => hfit e (List.mem_cons_of_mem a he)) ?_ ?_ hrest
          · exact fun e he => hu ▸ (hlast e he).1
          · exact fun e he => hu ▸ (hlast e he).2
        · cases hsome
      · exact absurd hmade (Edit.not_relocated_of_fits htake (hfit a List.mem_cons_self)
          (hreach a List.mem_cons_self) new place)

/-- In a run that is not refused no character is used more often than it is there. -/
theorem supplied_of_run {text new : Text} {edits : List Edit}
    (h : (run text edits).result = .ok new) (c : Char) :
    Edit.Supplied c (text.count c) edits := by
  induction edits generalizing text with
  | nil => trivial
  | cons e rest ih =>
    cases hmade : e.splice text with
    | error fault =>
      rw [result_run_cons_error hmade] at h
      cases h
    | ok made =>
      obtain ⟨next, place?⟩ := made
      have hcount := Edit.count_of_splice hmade c
      have hused : e.expected.count c ≤ text.count c := by
        obtain ⟨-, u, v, rfl, -⟩ := Edit.splice_spec hmade
        simp only [List.count_append]
        omega
      have hnext : text.count c - e.expected.count c + e.newText.count c = next.count c := by
        omega
      rw [result_run_cons hmade] at h
      refine ⟨hused, ?_⟩
      rw [hnext]
      exact ih h

end Replay

theorem mem_run_of_mem_replay {text : Text} {edits : List Edit} {e : Edit} {place : Nat}
    (h : Event.relocated e place ∈ (replay text edits).events) :
    Event.relocated e place ∈ (Replay.run text (Edit.applicationOrder edits)).events := by
  unfold replay at h
  split at h
  · cases h
  · dsimp only at h
    split at h
    · simpa using h
    · exact h

/-- Edits that a review passes are made in place, or the replay is refused, if they are out of each
other's reach or if some character is not there as often as they use it. -/
theorem replay_refused_or_in_place {text : Text} {edits : List Edit}
    (hreview : Edit.review text edits = [])
    (h : (Edit.applicationOrder edits).Pairwise Edit.OutOfReach ∨
      ∃ c, ¬ Edit.Supplied c (text.count c) (Edit.applicationOrder edits)) :
    (∃ fault, (replay text edits).result = .error fault) ∨
      ∀ e place, Event.relocated e place ∉ (replay text edits).events := by
  rcases h with hreach | ⟨c, hshort⟩
  · right
    have hproblems : ∀ e ∈ Edit.applicationOrder edits, e.problems text = [] := fun e he =>
      Edit.review_eq_nil_iff.1 hreview e (Edit.mem_applicationOrder.1 he)
    have hbounds := fun e he => Edit.problems_eq_nil_iff.1 (hproblems e he)
    have horder := (Edit.pairwise_applicationOrder edits).imp fun hrank =>
      (Edit.not_outranks_iff.1 hrank).1
    have hrun := Replay.no_relocation_of_run (k := text.length) rfl
      (fun e he hkind => Edit.fits_of_problems_eq_nil (hproblems e he) fun k => absurd k hkind)
      (fun e he => by have := hbounds e he; omega)
      (fun e he _ => Or.inr (hbounds e he).2.2.1) (horder.and hreach)
    exact fun e place hmem => hrun e place (mem_run_of_mem_replay hmem)
  · left
    rw [result_replay]
    cases hresult : (Replay.run text (Edit.applicationOrder edits)).result with
    | error fault => exact ⟨fault, rfl⟩
    | ok new => exact absurd (Replay.supplied_of_run hresult c) hshort

/-- One replacement of a version, submitted twice. -/
def repeatedEdits : List Edit :=
  [⟨.replace, .onLine 1 0 4 5, "1".toList, "2".toList, "first".toList⟩,
   ⟨.replace, .onLine 1 0 4 5, "1".toList, "2".toList, "second".toList⟩]

theorem replay_repeatedEdits_unsupplied : Edit.review "x = 1".toList repeatedEdits = [] ∧
    ¬ Edit.Supplied '1' ("x = 1".toList.count '1') (Edit.applicationOrder repeatedEdits) ∧
    ((∃ fault, (replay "x = 1".toList repeatedEdits).result = .error fault) ∨
      ∀ e place, Event.relocated e place ∉ (replay "x = 1".toList repeatedEdits).events) := by
  have hreview : Edit.review "x = 1".toList repeatedEdits = [] := by decide
  have hshort : ¬ Edit.Supplied '1' ("x = 1".toList.count '1')
      (Edit.applicationOrder repeatedEdits) := by decide
  exact ⟨hreview, hshort, replay_refused_or_in_place hreview (Or.inr ⟨'1', hshort⟩)⟩

/-- A second assignment on the line supplies the second replacement. -/
theorem replay_repeatedEdits : Edit.review "x = 1, y = 1".toList repeatedEdits = [] ∧
    (replay "x = 1, y = 1".toList repeatedEdits).result = .ok "x = 2, y = 2".toList ∧
    ∃ e ∈ repeatedEdits, Event.relocated e 11 ∈
      (replay "x = 1, y = 1".toList repeatedEdits).events := by
  decide

end BuildScript
