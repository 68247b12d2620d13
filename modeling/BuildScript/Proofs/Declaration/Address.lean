import BuildScript.Session.Update
import BuildScript.Proofs.Declaration.Steps
import BuildScript.Proofs.Text.Argument
/-!
# Addresses in their declarations

A repository is declared by `url` and a quoted address. When the address is set, the declaration is
searched for the old one, and where that is found first the new one is put. In front of the address
there is only what `url`, an equals sign, the opening of a call of `uri` and a mark are made of, so
an address that begins with `http` or `file` is found in its place. A text that is no address may be
found in front of it.

Results:
* `Addressed.exists_of_readUrl?`: what a repository with an address is read from.
* `Addressed.setUrl_of_stands`: a text that is found in its place is replaced there.
* `Addressed.stands_of_isAddress`: addresses are.
* `Addressed.setUrl_ne_of_not_stands`: where another place is found, other texts do not get there.
-/
namespace BuildScript.Repository

open Text

/-! ## Fronts -/

/-- What may stand in front of an address: blanks, and what `url`, an equals sign and the opening of
a call of `uri` are made of. -/
def isFrontChar (c : Char) : Bool := isBlank c || "url=i(".toList.contains c

/-- A text ends with another one that has only such characters in front of it. -/
def Fronts (s t : Text) : Prop := ∃ w, s = w ++ t ∧ ∀ c ∈ w, isFrontChar c = true

namespace Fronts

variable {s t u : Text}

theorem refl (s : Text) : Fronts s s := ⟨[], rfl, fun _ hc => absurd hc List.not_mem_nil⟩

theorem trans (h : Fronts s t) (h' : Fronts t u) : Fronts s u := by
  obtain ⟨w, rfl, hw⟩ := h
  obtain ⟨w', rfl, hw'⟩ := h'
  exact ⟨w ++ w', (List.append_assoc w w' u).symm,
    fun c hc => (List.mem_append.1 hc).elim (hw c) (hw' c)⟩

theorem of_after? {word : Text} (hword : word.all isFrontChar = true) (h : after? word s = some t) :
    Fronts s t := ⟨word, eq_append_of_after? h, List.all_eq_true.1 hword⟩

theorem trimLeft (s : Text) : Fronts s (trimLeft s) :=
  ⟨s.takeWhile isBlank, List.takeWhile_append_dropWhile.symm,
    fun c hc => Bool.or_eq_true_iff.2 (Or.inl (List.all_eq_true.1 List.all_takeWhile c hc))⟩

theorem skipEquals (s : Text) : Fronts s (skipEquals s) := by
  unfold Repository.skipEquals
  split
  · next t =>
    have hequals : Fronts ('=' :: t) t := of_after? (rfl : ['='].all isFrontChar = true) rfl
    exact hequals.trans (trimLeft t)
  · exact refl s

theorem skipUriOpening (s : Text) : Fronts s (skipUriOpening s) := by
  unfold Repository.skipUriOpening
  split
  · next r hr => exact (of_after? rfl hr).trans (trimLeft r)
  · exact refl s

end Fronts

/-! ## Declarations with an address -/

/-- What stands around the address of a repository: the word `url`, with blanks, an equals sign and
the opening of a call of `uri` where they are written, a mark, and what a call closes with. -/
structure Addressed where
  front : Text
  mark : Char
  behind : Text
  opens : ∀ c ∈ front, isFrontChar c = true
  isQuote_mark : isQuote mark = true
  isClosing : IsClosing behind

namespace Addressed

/-- The declaration with a text in the place of the address. -/
def text (a : Addressed) (url : Text) : Text := a.front ++ a.mark :: (url ++ a.mark :: a.behind)

theorem text_eq (a : Addressed) (url : Text) :
    a.text url = a.front ++ [a.mark] ++ url ++ a.mark :: a.behind := by simp [text]

theorem exists_of_readUrl? {before : Option Char} {raw rest : Text} {r : Repository}
    (h : readUrl? before (raw ++ rest) = some (r, rest)) : ∃ a : Addressed,
      raw = a.text r.url ∧ isAddress r.url = true ∧ ∀ c ∈ r.url, isQuote c = false := by
  obtain ⟨-, q, ⟨u, hu, mark, url, ⟨haddress, rfl⟩, hread⟩, hclosing⟩ := readUrl?_eq_some_iff.1 h
  obtain ⟨hmark, t, ht, hbody, hq⟩ := readQuoted?_eq_some_iff.1 hread
  obtain ⟨front, hfront, hopens⟩ : Fronts (raw ++ rest) (mark :: t) := by
    rw [← List.singleton_append, ← eq_append_of_after? ht]
    exact (Fronts.of_after? rfl hu).trans ((Fronts.trimLeft u).trans
      ((Fronts.skipEquals _).trans (Fronts.skipUriOpening _)))
  obtain ⟨behind, hbehind, hq'⟩ := exists_closing q
  rw [hclosing] at hq'
  have hplain : ∀ c ∈ url, isQuote c = false := by
    intro c hc
    rw [← hbody] at hc
    simpa using List.all_eq_true.1 List.all_takeWhile c hc
  have htext : t = url ++ mark :: (behind ++ rest) := by
    rw [← List.takeWhile_append_dropWhile (p := (!isQuote ·)) (l := t), hbody,
      eq_append_of_after? hq, hq']
    rfl
  refine ⟨⟨front, mark, behind, hopens, hmark, hbehind⟩, ?_, haddress, hplain⟩
  have hraw : raw ++ rest = front ++ mark :: (url ++ mark :: behind) ++ rest := by
    rw [hfront, htext]
    simp
  exact List.append_cancel_right hraw

/-! ## Setting an address -/

/-- Whether a search for a text finds it where the address stands. -/
def Stands (a : Addressed) (url : Text) : Prop :=
  Text.find? url (a.text url) = some (a.front.length + 1)

instance (a : Addressed) (url : Text) : Decidable (a.Stands url) :=
  inferInstanceAs (Decidable (_ = _))

theorem setUrl_of_stands (a : Addressed) {r : Repository} (h : a.Stands r.url) (new : Text) :
    r.setUrl (a.text r.url) new = a.text new := by
  have hlength : a.front.length + 1 = (a.front ++ [a.mark]).length := by simp
  unfold Stands at h
  unfold setUrl
  rw [h]
  dsimp only
  rw [text_eq, text_eq, hlength]
  exact replace_middle (a.front ++ [a.mark]) r.url (a.mark :: a.behind) new

theorem stands_of_isAddress (a : Addressed) {url : Text} (h : isAddress url = true) :
    a.Stands url := by
  obtain ⟨c, rest, rfl, hc⟩ : ∃ c rest, url = c :: rest ∧ (c = 'h' ∨ c = 'f') := by
    obtain ⟨scheme, hscheme, h⟩ := List.any_eq_true.1 h
    split at h
    · next d t hafter =>
      rw [eq_append_of_after? hafter]
      simp only [schemes, List.mem_cons, List.not_mem_nil, or_false] at hscheme
      rcases hscheme with rfl | rfl | rfl
      · exact ⟨'h', _, rfl, Or.inl rfl⟩
      · exact ⟨'h', _, rfl, Or.inl rfl⟩
      · exact ⟨'f', _, rfl, Or.inr rfl⟩
    · cases h
  -- neither letter stands in front of an address
  have hfront : c ∉ a.front ++ [a.mark] := by
    rw [List.mem_append, List.mem_singleton, not_or]
    refine ⟨fun hmem => ?_, ?_⟩
    · have := a.opens c hmem
      rcases hc with rfl | rfl <;> exact absurd this (by decide)
    · rintro rfl
      rcases hc with h | h <;> exact absurd a.isQuote_mark (by rw [h]; decide)
  unfold Stands
  rw [text_eq, find?_append_of_head hfront]
  simp

/-- Where a text is found elsewhere, no text that begins with another character gets into its
place. -/
theorem setUrl_ne_of_not_stands (a : Addressed) {r : Repository} (h : ¬ a.Stands r.url)
    (hurl : r.url ≠ []) {new : Text} (hne : new ≠ []) (hhead : new.head? ≠ r.url.head?) :
    r.setUrl (a.text r.url) new ≠ a.text new := by
  obtain ⟨i, hi, hle⟩ := exists_find?_le r.url (a.front ++ [a.mark]) (a.mark :: a.behind)
  rw [← text_eq] at hi
  have hlt : i < (a.front ++ [a.mark]).length := by
    refine Nat.lt_of_le_of_ne hle fun heq => h ?_
    rw [Stands, hi, heq]
    simp
  obtain ⟨u, v, hcut, rfl⟩ := find?_spec hi
  unfold setUrl
  rw [hi]
  dsimp only
  rw [hcut, replace_middle]
  intro heq
  -- both declarations are the same up to the address, and the new text stands in front of it
  have hat (m w : Text) (hm : m ≠ []) : (u ++ m ++ w)[u.length]? = m.head? := by
    obtain ⟨c, t, rfl⟩ := List.exists_cons_of_ne_nil hm
    simp
  have hfront (url : Text) : (a.text url)[u.length]? = (a.front ++ [a.mark])[u.length]? := by
    rw [text_eq, List.append_assoc (a.front ++ [a.mark]), List.getElem?_append_left hlt]
  have hold := hat r.url v hurl
  rw [← hcut, hfront] at hold
  have hnew := hat new v hne
  rw [heq, hfront, hold] at hnew
  exact hhead hnew.symm

end Addressed

end BuildScript.Repository
