import Mathlib.Data.List.Chain
import BuildScript.Proofs.Declaration.Address
import BuildScript.Proofs.Declaration.Trailer
import BuildScript.Proofs.Session.Refusal
import BuildScript.Proofs.Session.Setting
/-!
# Setting the address of a repository

A repository that is declared by its address is set to one address after the other. The session
looks for the address that it wrote last and puts the next one where it finds it first. As long as
that is the place of the address, the declaration is in the end the parsed one with the last address
in its place; every address of a known scheme is found there. A text such as `url` is accepted as
well, and is found in the word in front of the address.

Results:
* `Index.exists_addressed`: what a repository with an address is declared by.
* `Shows.setRepositoryUrls`: the declaration behind a course of addresses that are found in place.
* `replacesAddress_of_repository`: what addresses make of a declaration, and when.
* `replacesAddress_keyword`: an address that is the word in front of it.
-/
namespace BuildScript

open Text Repository

/-- A repository of a script that has an address is declared by it. -/
theorem Index.exists_addressed {kinds : List Kind} {skipComments : Bool} {text : Text} {e : Entry}
    {r : Repository} (h : e ∈ (parse ⟨kinds.map Recognizer.ofKind, skipComments⟩ text).entries)
    (hr : e.declaration = .repository r) (hurl : r.url ≠ []) : ∃ a : Addressed,
      e.rawText = a.text r.url ∧ isAddress r.url = true ∧ ∀ c ∈ r.url, isQuote c = false := by
  obtain ⟨found, u, v, -, hfind, hfound, hstart, hstop⟩ := exists_find?_of_mem_parse h
  rw [Entry.kind, hr] at hfind
  obtain ⟨b, hb, rfl⟩ := Option.map_eq_some_iff.1 hfind
  obtain rfl : r = b.value := Declaration.repository.inj (hr.symm.trans hfound)
  rcases Option.or_eq_some_iff.1 hb with hb | ⟨-, hb⟩
  · -- a well-known repository has no address
    obtain ⟨_, _, _, _, -, hread, -⟩ := search_spec hb
    rw [readWellKnown?_eq] at hread
    split at hread
    · obtain ⟨name, -, hname⟩ := List.exists_of_findSome?_eq_some hread
      obtain ⟨_, -, hname⟩ := Option.map_eq_some_iff.1 hname
      exact absurd (congrArg (fun a => a.1.url) hname).symm hurl
    · cases hread
  · obtain ⟨before, rest, hread⟩ := exists_read_of_searchIn
      (fun b s r t hr => (steady_readUrl b r).suffix hr) hb
    have hraw : b.text (u ++ e.rawText ++ v) = e.rawText := Found.text_eq hstart hstop
    rw [hraw] at hread
    exact Addressed.exists_of_readUrl? hread

namespace Session

/-! ## Writing addresses -/

namespace Shows

variable {base : Index} {i : Nat} {e : Entry} {r : Repository} {raw : Text} {s : Session}

/-- Setting the address of a repository that has one gives it the address and writes it, unless it
has the address. -/
theorem setRepositoryUrl (h : Shows base i e (.repository r) raw s)
    (he : base.entries[i]? = some e) (hurl : r.url ≠ [])
    (hfirst : ∀ j < i, ∀ e' r', base.entries[j]? = some e' → e'.declaration = .repository r' →
      r'.name = r.name → r'.url = []) (url : Text) :
    (s.attempt (.setRepositoryUrl r.name url)).fault = none ∧
      Shows base i e (.repository { r with url }) (if r.url = url then raw else r.setUrl raw url)
        (s.after (.setRepositoryUrl r.name url)) := by
  have hread : ((Declaration.repository r).repository?.filter fun r' =>
      r'.name = r.name && r'.url != []) = some r := by
    simp [Declaration.repository?, hurl]
  have hnone : ∀ j < i, ∀ e', base.entries[j]? = some e' →
      (e'.declaration.repository?.filter fun r' => r'.name = r.name && r'.url != []) = none := by
    intro j hj e' he'
    cases hd : e'.declaration with
    | repository r' =>
      have hother := hfirst j hj e' r' he' hd
      simpa [Declaration.repository?, Option.filter_eq_none_iff] using hother
    | _ => rfl
  have hsel : (s.select? fun d => d.repository?.filter fun r' => r'.name = r.name && r'.url != []) =
      some ({ e with declaration := .repository r, rawText := raw }, r, i) :=
    h.select? he hread hnone
  have hattempt : s.attempt (.setRepositoryUrl r.name url) = s.setRepositoryUrl r.name url := rfl
  rw [after, hattempt, Session.setRepositoryUrl, hsel]
  dsimp only
  split
  · next hsame =>
    subst hsame
    exact ⟨rfl, h⟩
  · exact ⟨rfl, h.record he _ _ _⟩

theorem accepted_setRepositoryUrls (h : Shows base i e (.repository r) raw s)
    (he : base.entries[i]? = some e) (hurl : r.url ≠ [])
    (hfirst : ∀ j < i, ∀ e' r', base.entries[j]? = some e' → e'.declaration = .repository r' →
      r'.name = r.name → r'.url = []) {urls : List Text} (hurls : ∀ u ∈ urls, u ≠ []) :
    ∀ a ∈ s.attempts (urls.map (.setRepositoryUrl r.name)), a.fault = none := by
  induction urls generalizing s r raw with
  | nil => exact fun a ha => absurd ha List.not_mem_nil
  | cons u urls ih =>
    rw [List.forall_mem_cons] at hurls
    obtain ⟨hfault, hstep⟩ := h.setRepositoryUrl he hurl hfirst u
    have hfaults := ih hstep hurls.1 hfirst hurls.2
    exact List.forall_mem_cons.2 ⟨hfault, hfaults⟩

/-- Addresses set one after the other are each replaced in their place, if each is found there that
another one is written over. -/
theorem setRepositoryUrls {a : Addressed} (h : Shows base i e (.repository r) (a.text r.url) s)
    (he : base.entries[i]? = some e) (hurl : r.url ≠ [])
    (hfirst : ∀ j < i, ∀ e' r', base.entries[j]? = some e' → e'.declaration = .repository r' →
      r'.name = r.name → r'.url = []) {urls : List Text} (hurls : ∀ u ∈ urls, u ≠ [])
    (hstands : (r.url :: urls).IsChain fun u v => u ≠ v → a.Stands u) :
    Shows base i e (.repository { r with url := urls.getLastD r.url })
      (a.text (urls.getLastD r.url)) (s.afterAll (urls.map (.setRepositoryUrl r.name))) := by
  induction urls generalizing s r with
  | nil => exact h
  | cons u urls ih =>
    rw [List.forall_mem_cons] at hurls
    obtain ⟨hstand, hstands⟩ := List.isChain_cons_cons.1 hstands
    obtain ⟨-, hstep⟩ := h.setRepositoryUrl he hurl hfirst u
    have hraw : (if r.url = u then a.text r.url else r.setUrl (a.text r.url) u) = a.text u := by
      split
      · next hsame => rw [hsame]
      · next hne => exact a.setUrl_of_stands (hstand hne) u
    rw [hraw] at hstep
    rw [List.getLastD_cons]
    exact ih hstep hurls.1 hfirst hurls.2 hstands

end Shows

/-! ## What they leave -/

/-- What becomes of a repository that is declared as `a` when addresses are set one after the other:
they are accepted, and the last one stands in the place of the parsed one if those it was written
over were found there. Nothing less will do, for a text that is found elsewhere keeps some next one
from its place. -/
structure ReplacesAddress (base : Session) (i : Nat) (e : Entry) (r : Repository)
    (a : Addressed) : Prop where
  rawText : e.rawText = a.text r.url
  unquoted : ∀ c ∈ r.url, isQuote c = false
  accepted : ∀ urls : List Text, (∀ u ∈ urls, u ≠ []) →
    ∀ attempt ∈ base.attempts (urls.map (.setRepositoryUrl r.name)), attempt.fault = none
  shown : ∀ urls : List Text, (∀ u ∈ urls, u ≠ []) →
    urls.IsChain (fun u v => u ≠ v → a.Stands u) →
      (base.afterAll (urls.map (.setRepositoryUrl r.name))).index.entries[i]? = some { e with
        declaration := .repository { r with url := urls.getLastD r.url }
        rawText := a.text (urls.getLastD r.url) }
  pending : ∀ urls : List Text, (∀ u ∈ urls, u ≠ []) →
    urls.IsChain (fun u v => u ≠ v → a.Stands u) →
      (base.afterAll (urls.map (.setRepositoryUrl r.name))).edits.map Edit.bare =
        if a.text (urls.getLastD r.url) = e.rawText then []
        else [⟨.replace, e.region, e.rawText, a.text (urls.getLastD r.url), []⟩]
  addresses : ∀ u, isAddress u = true → a.Stands u
  sharp : ∀ u ≠ [], a.Stands u ↔ ∀ v ≠ [],
    (base.afterAll [.setRepositoryUrl r.name u, .setRepositoryUrl r.name v]).index.entries[i]?.map
      (·.rawText) = some (a.text v)

/-- Addresses that are not empty, set one after the other for a repository that has one, the first
of its name that has, in a session without changes. -/
theorem replacesAddress_of_repository (kinds : List Kind) (enabled : Option (List Kind))
    (skipComments : Bool) (editor : EditorOptions) (text : Text) {i : Nat} {e : Entry}
    {r : Repository}
    (he : (Index.parse (.builtIn kinds enabled skipComments) text).entries[i]? = some e)
    (hr : e.declaration = .repository r) (hurl : r.url ≠ [])
    (hfirst : ∀ j < i, ∀ e' r', (Index.parse (.builtIn kinds enabled skipComments)
      text).entries[j]? = some e' → e'.declaration = .repository r' → r'.name = r.name →
        r'.url = []) :
    ∃ a, ReplacesAddress (start (Index.parse (.builtIn kinds enabled skipComments) text) editor)
      i e r a := by
  obtain ⟨used, hused⟩ := ParseOptions.exists_builtIn_eq kinds enabled skipComments
  rw [hused] at he hfirst ⊢
  obtain ⟨a, hraw, haddress, hplain⟩ := Index.exists_addressed (List.mem_of_getElem? he) hr hurl
  generalize Index.parse ⟨used.map Recognizer.ofKind, skipComments⟩ text = index at he hfirst ⊢
  have hstart : Shows index i e (.repository r) (a.text r.url) (start index editor) := by
    rw [← hraw, ← hr]
    exact Shows.start he editor
  have hshows {urls : List Text} (hurls : ∀ u ∈ urls, u ≠ [])
      (h : urls.IsChain fun u v => u ≠ v → a.Stands u) :=
    hstart.setRepositoryUrls he hurl hfirst hurls
      (h.cons fun _ _ _ => a.stands_of_isAddress haddress)
  refine ⟨a, {
    rawText := hraw
    unquoted := hplain
    accepted := fun urls hurls => hstart.accepted_setRepositoryUrls he hurl hfirst hurls
    shown := fun urls hurls h => (hshows hurls h).entry he
    pending := fun urls hurls h => (hshows hurls h).bare_edits
    addresses := fun u hu => a.stands_of_isAddress hu
    sharp := fun u hu => ⟨fun h v hv => ?_, fun h => ?_⟩ }⟩
  · have hpair : ∀ w ∈ [u, v], w ≠ [] := by simp [hu, hv]
    have hlast := hshows hpair (by simp [h])
    exact congrArg (Option.map (·.rawText)) (hlast.entry he)
  · -- a text that begins with another character shows that one was found elsewhere
    by_contra hnot
    obtain ⟨c, hc⟩ : ∃ c, [c].head? ≠ u.head? := by
      by_cases hx : u.head? = some 'x'
      · exact ⟨'y', by simp [hx]⟩
      · exact ⟨'x', fun heq => hx heq.symm⟩
    have hne : u ≠ [c] := fun heq => hc (by rw [heq])
    have hsingle : ∀ w ∈ [u], w ≠ [] := by simp [hu]
    have hone := hshows hsingle (List.isChain_singleton u)
    obtain ⟨-, htwo⟩ := hone.setRepositoryUrl he hu hfirst [c]
    have hentry := congrArg (Option.map (·.rawText)) (htwo.entry he)
    let r' : Repository := { r with url := u }
    have htext : (if u = [c] then a.text u else r'.setUrl (a.text u) [c]) = a.text [c] :=
      Option.some.inj (hentry.symm.trans (h [c] (List.cons_ne_nil c [])))
    rw [if_neg hne] at htext
    exact a.setUrl_ne_of_not_stands (r := r') hnot hu (List.cons_ne_nil c []) hc htext

/-- A script with an address in a call. -/
def calledScript : Text := "maven \x7b url = uri(\"https://a.b/c\") \x7d".toList

/-- There a second address stands in the place of the first. -/
theorem replacesAddress_calledScript :
    let base := Index.parse (.builtIn Kind.all none true) calledScript
    ∃ e r, base.entries[0]? = some e ∧ e.declaration = .repository r ∧ r.url ≠ [] ∧
      ((start base {}).afterAll [.setRepositoryUrl r.name "https://x.y".toList,
        .setRepositoryUrl r.name "file://z".toList]).index.entries[0]?.map (·.rawText) =
          some "url = uri(\"file://z\")".toList ∧
      ∃ a, ReplacesAddress (start base {}) 0 e r a := by
  intro base
  obtain ⟨e, r, he, hr, hurl, hraw⟩ : ∃ e r, base.entries[0]? = some e ∧
      e.declaration = .repository r ∧ r.url ≠ [] ∧
      ((start base {}).afterAll [.setRepositoryUrl r.name "https://x.y".toList,
        .setRepositoryUrl r.name "file://z".toList]).index.entries[0]?.map (·.rawText) =
          some "url = uri(\"file://z\")".toList := ⟨_, _, rfl, rfl, List.cons_ne_nil _ _, rfl⟩
  have h := replacesAddress_of_repository Kind.all none true {} calledScript he hr hurl
    (fun j hj => absurd hj (Nat.not_lt_zero j))
  exact ⟨e, r, he, hr, hurl, hraw, h⟩

/-- A script with a quoted address behind the word. -/
def keywordScript : Text := "maven \x7b url 'https://a.b/c' \x7d".toList

/-- There the word itself is accepted as an address, and the next address is put in the place of the
word in front of it. -/
theorem replacesAddress_keyword :
    let base := start (Index.parse (.builtIn Kind.all none true) keywordScript) {}
    let s := base.afterAll [.setRepositoryUrl "a.b".toList "url".toList,
      .setRepositoryUrl "a.b".toList "https://x.y/z".toList]
    ∃ e r, base.index.entries[0]? = some e ∧ e.declaration = .repository r ∧
      r.name = "a.b".toList ∧ r.url = "https://a.b/c".toList ∧
      e.rawText = "url 'https://a.b/c'".toList ∧
      s.index.entries[0]?.map (·.rawText) = some "https://x.y/z 'url'".toList ∧
      s.edits.map Edit.bare =
        [⟨.replace, e.region, e.rawText, "https://x.y/z 'url'".toList, []⟩] :=
  ⟨_, _, rfl, rfl, rfl, rfl, rfl, rfl, rfl⟩

end Session

end BuildScript
