import BuildScript.Proofs.Declaration.Steps
import BuildScript.Proofs.Session.Lines
/-!
# Texts of one line

What a session has to write is put together from the script, from what the requests ask for and from
the way the editor writes. If none of the latter has a line feed, then neither has what is to be
written for a declaration: an update stays on the line of its entry, and a declaration that is added
takes one line.

Results:
* `Dependency.mem_setVersion`, `Plugin.mem_setVersion?`, `Property.mem_setValue`,
  `Repository.mem_setUrl`: where the characters of a text come from that has been given a value.
* `oneLine_afterAll`: behind a course of requests everything to be written is of one line.
-/
namespace BuildScript

open Text

/-! ## Where characters come from -/

variable {c : Char} {raw : Text}

theorem Text.mem_take_append_drop {new : Text} {i j : Nat}
    (h : c ∈ raw.take i ++ new ++ raw.drop j) : c ∈ raw ∨ c ∈ new := by
  simp only [List.mem_append] at h
  rcases h with (h | h) | h
  · exact Or.inl (List.mem_of_mem_take h)
  · exact Or.inr h
  · exact Or.inl (List.mem_of_mem_drop h)

theorem Dependency.mem_setVersion {d : Dependency} {version : Text}
    (h : c ∈ d.setVersion raw version) : c ∈ raw ∨ c ∈ version ∨ c = ':' := by
  unfold setVersion at h
  split at h
  · rcases mem_take_append_drop h with h | h
    · exact Or.inl h
    · exact Or.inr (List.mem_cons.1 h).symm
  · exact (mem_take_append_drop h).imp_right Or.inl

theorem Plugin.isQuote_of_readIdCall? {before : Option Char} {s r name : Text} {mark : Char}
    (h : readIdCall? before s = some ((mark, name), r)) : isQuote mark = true := by
  obtain ⟨u, hu, -⟩ := readIdCall?_eq_some_iff.1 h
  obtain ⟨-, v, -, hv⟩ := readId?_eq_some_iff.1 hu
  exact (readQuoted?_eq_some_iff.1 hv).1

theorem Plugin.mem_setVersion? {version new : Text} (h : setVersion? raw version = some new)
    (hc : c ∈ new) : c ∈ raw ∨ c ∈ version ∨ c ∈ " version ".toList ∨ isQuote c = true := by
  unfold setVersion? at h
  split at h
  · cases h
    exact (mem_take_append_drop hc).imp_right Or.inl
  · split at h
    · next found hfound =>
      obtain ⟨w, v, b, rest, -, hread, -, -⟩ := search_spec hfound
      have hmark := isQuote_of_readIdCall? hread
      cases h
      simp only [List.mem_append, List.mem_cons] at hc
      rcases hc with ((hc | hc) | rfl | hc) | rfl | hc
      · exact Or.inl (List.mem_of_mem_take hc)
      · exact Or.inr (Or.inr (Or.inl hc))
      · exact Or.inr (Or.inr (Or.inr hmark))
      · exact Or.inr (Or.inl hc)
      · exact Or.inr (Or.inr (Or.inr hmark))
      · exact Or.inl (List.mem_of_mem_drop hc)
    · cases h

/-- A version without a line feed adds none. -/
theorem Plugin.not_mem_setVersion? {version new : Text} (h : setVersion? raw version = some new)
    (hraw : '\n' ∉ raw) (hversion : '\n' ∉ version) : '\n' ∉ new := by
  intro hlf
  rcases mem_setVersion? h hlf with hlf | hlf | hlf | hlf
  · exact hraw hlf
  · exact hversion hlf
  · exact absurd hlf (by decide)
  · exact absurd hlf (by decide)

theorem Property.mem_setValue {value : Text} (h : c ∈ setValue raw value) :
    c ∈ raw ∨ c ∈ value := by
  unfold setValue at h
  dsimp only at h
  generalize hcurrent : trim ((raw.dropWhile (· != '=')).drop 1) = current at h
  cases current with
  | nil => exact (List.mem_append.1 h).imp_left List.mem_of_mem_take
  | cons mark s =>
    have hmark : mark ∈ raw := by
      have hmem : mark ∈ trim ((raw.dropWhile (· != '=')).drop 1) := by
        rw [hcurrent]
        exact List.mem_cons_self
      have hmem := (List.dropWhile_suffix isBlank).subset ((prefix_trimRight _).subset hmem)
      exact (List.dropWhile_suffix _).subset (List.mem_of_mem_drop hmem)
    dsimp only at h
    split at h
    · simp only [List.mem_append, List.mem_cons, List.not_mem_nil, or_false] at h
      rcases h with (h | rfl | h) | rfl
      · exact Or.inl (List.mem_of_mem_take h)
      · exact Or.inl hmark
      · exact Or.inr h
      · exact Or.inl hmark
    · exact (List.mem_append.1 h).imp_left List.mem_of_mem_take

theorem Repository.mem_setUrl {r : Repository} {url : Text} (h : c ∈ r.setUrl raw url) :
    c ∈ raw ∨ c ∈ url := by
  unfold setUrl at h
  split at h
  · exact mem_take_append_drop h
  · exact Or.inl h

/-! ## Requests of one line -/

/-- The texts that a request asks with. -/
def Request.texts : Request → List Text
  | setDependencyVersion group name version scope => [group, name, version] ++ scope.toList
  | setPluginVersion id version => [id, version]
  | setProperty key value => [key, value]
  | setRepositoryUrl name url => [name, url]
  | addDependency group name version scope => [group, name, version] ++ scope.toList
  | addPlugin id version => [id, version]
  | addRepository nameOrUrl => [nameOrUrl]
  | removeDependency group name scope => [group, name] ++ scope.toList
  | clear => []

/-- The texts that the editor writes with. -/
def EditorOptions.texts (options : EditorOptions) : List Text :=
  [options.indent, options.defaultScope, options.mark]

namespace Session

/-- Everything that a session shows or has to add is of one line. -/
structure OneLine (s : Session) : Prop where
  options : ∀ t ∈ s.options.texts, '\n' ∉ t
  entries : ∀ e ∈ s.index.entries, '\n' ∉ e.rawText
  additions : ∀ a ∈ s.additions, '\n' ∉ a.2

theorem oneLine_start {parsing : ParseOptions} {text : Text} {editor : EditorOptions}
    (heditor : ∀ t ∈ editor.texts, '\n' ∉ t) :
    (start (Index.parse parsing text) editor).OneLine where
  options := heditor
  entries e he hlf := by
    obtain ⟨u, v, hcov⟩ := Index.covers_of_mem_parse he
    have hline := not_mem_of_mem_lines (List.mem_of_getElem? hcov.line)
    exact hline (List.mem_append_left _ (List.mem_append_right _ hlf))
  additions a ha := absurd ha List.not_mem_nil

namespace OneLine

variable {s : Session} {e : Entry} {i : Nat}

theorem rawText (h : s.OneLine) (hmem : (e, i) ∈ s.remaining) : '\n' ∉ e.rawText :=
  h.entries e (List.mem_of_getElem? (mem_remaining hmem).1)

theorem record (h : s.OneLine) {newText : Text} (hnew : '\n' ∉ newText) (e : Entry)
    (value : Declaration) (description : Text) :
    (s.record i e value newText description).OneLine where
  options := h.options
  entries e' he' := by
    rcases List.mem_or_eq_of_mem_set he' with he' | rfl
    · exact h.entries e' he'
    · exact hnew
  additions := by
    rw [additions_record]
    exact h.additions

theorem insertInto (h : s.OneLine) {declaration : Text} (hnew : '\n' ∉ declaration)
    (block description : Text) :
    (s.insertInto block declaration description).session.OneLine := by
  unfold Session.insertInto
  split
  · exact h
  · next k _ =>
    refine ⟨h.options, h.entries, ?_⟩
    have hindent := h.options s.options.indent (by simp [EditorOptions.texts])
    show ∀ a ∈ (s.recordInsertion (lineInsertion s.index.text k
      (s.options.indent ++ declaration) description)).additions, _
    rw [additions_recordInsertion]
    intro a ha
    rcases List.mem_append.1 ha with ha | ha
    · exact h.additions a ha
    · rw [List.mem_singleton.1 ha, List.mem_append, not_or]
      exact ⟨hindent, hnew⟩

theorem setDependencyVersion (h : s.OneLine) {version : Text} (hversion : '\n' ∉ version)
    (group name : Text) (scope : Option Text) :
    (s.setDependencyVersion group name version scope).session.OneLine := by
  unfold Session.setDependencyVersion
  split
  · exact h
  · next e d i warnings hsel =>
    split
    · exact h
    · refine h.record (fun hlf => ?_) e _ _
      rcases Dependency.mem_setVersion hlf with hlf | hlf | hlf
      · exact h.rawText (selectDependency_spec (congrArg Prod.fst hsel)).1 hlf
      · exact hversion hlf
      · exact absurd hlf (by decide)

theorem setPluginVersion (h : s.OneLine) {version : Text} (hversion : '\n' ∉ version)
    (id : Text) : (s.setPluginVersion id version).session.OneLine := by
  unfold Session.setPluginVersion
  split
  · exact h
  · next e p i hsel =>
    split
    · exact h
    · split
      · exact h
      · next newText hnew =>
        exact h.record (Plugin.not_mem_setVersion? hnew (h.rawText (select?_spec hsel).1) hversion)
          e _ _

theorem setProperty (h : s.OneLine) {value : Text} (hvalue : '\n' ∉ value) (key : Text) :
    (s.setProperty key value).session.OneLine := by
  unfold Session.setProperty
  split
  · exact h
  · next e p i hsel =>
    split
    · exact h
    · refine h.record (fun hlf => ?_) e _ _
      rcases Property.mem_setValue hlf with hlf | hlf
      · exact h.rawText (select?_spec hsel).1 hlf
      · exact hvalue hlf

theorem setRepositoryUrl (h : s.OneLine) {url : Text} (hurl : '\n' ∉ url) (name : Text) :
    (s.setRepositoryUrl name url).session.OneLine := by
  unfold Session.setRepositoryUrl
  split
  · exact h
  · next e r i hsel =>
    split
    · exact h
    · refine h.record (fun hlf => ?_) e _ _
      rcases Repository.mem_setUrl hlf with hlf | hlf
      · exact h.rawText (select?_spec hsel).1 hlf
      · exact hurl hlf

theorem marked (h : s.OneLine) {body : Text} (hbody : '\n' ∉ body) : '\n' ∉ s.marked body := by
  have hmark := h.options s.options.mark (by simp [EditorOptions.texts])
  simp [Session.marked, hmark, hbody]

theorem addDependency (h : s.OneLine) {group name version : Text} {scope : Option Text}
    (hr : ∀ t ∈ (Request.addDependency group name version scope).texts, '\n' ∉ t) :
    (s.addDependency group name version scope).session.OneLine := by
  have hcoordinate : '\n' ∉ joinWith [':'] ([group, name, version].filter (· != [])) := by
    intro hlf
    rcases mem_joinWith hlf with hlf | ⟨part, hpart, hlf⟩
    · exact absurd hlf (by decide)
    · exact hr part (List.mem_append_left _ (List.mem_filter.1 hpart).1) hlf
  have hdeclaration (written : Text) (hwritten : '\n' ∉ written) : '\n' ∉
      if s.usesCalls then written ++ '(' ::
        doubleQuoted (joinWith [':'] ([group, name, version].filter (· != []))) ++ [')']
      else
        written ++ ' ' :: s.marked (joinWith [':'] ([group, name, version].filter (· != []))) := by
    split
    · simp only [List.mem_append, List.mem_cons, not_or]
      exact ⟨⟨hwritten, by decide, by simp [doubleQuoted, hcoordinate]⟩, by decide⟩
    · rw [List.mem_append, List.mem_cons, not_or, not_or]
      exact ⟨hwritten, by decide, h.marked hcoordinate⟩
  have hdefault := h.options s.options.defaultScope (by simp [EditorOptions.texts])
  cases scope with
  | none => exact h.insertInto (hdeclaration _ hdefault) _ _
  | some scope =>
    refine h.insertInto (hdeclaration _ ?_) _ _
    dsimp only
    split
    · exact hdefault
    · exact hr scope (by simp [Request.texts])

theorem addPlugin (h : s.OneLine) {id version : Text} (hid : '\n' ∉ id)
    (hversion : '\n' ∉ version) : (s.addPlugin id version).session.OneLine := by
  have hclause (argument : Text) (hargument : '\n' ∉ argument) :
      '\n' ∉ if version = [] then [] else " version ".toList ++ argument := by
    split
    · exact List.not_mem_nil
    · rw [List.mem_append, not_or]
      exact ⟨by decide, hargument⟩
  refine h.insertInto ?_ _ _
  split
  · have hversion := hclause (doubleQuoted version) (by simp [doubleQuoted, hversion])
    have hword : '\n' ∉ "id(".toList := by decide
    simp only [List.mem_append, List.mem_cons, not_or]
    exact ⟨⟨hword, by simp [doubleQuoted, hid]⟩, by decide, hversion⟩
  · have hword : '\n' ∉ "id ".toList := by decide
    simp only [List.mem_append, not_or]
    exact ⟨⟨hword, h.marked hid⟩, hclause _ (h.marked hversion)⟩

theorem addRepository (h : s.OneLine) {nameOrUrl : Text} (hr : '\n' ∉ nameOrUrl) :
    (s.addRepository nameOrUrl).session.OneLine := by
  unfold Session.addRepository
  split
  · exact h.insertInto (by simp [hr]) _ _
  · have haddress : '\n' ∉ (if s.usesCalls then
        "= uri(".toList ++ doubleQuoted nameOrUrl ++ [')'] else s.marked nameOrUrl) := by
      split
      · simp only [List.mem_append, not_or]
        exact ⟨⟨by decide, by simp [doubleQuoted, hr]⟩, by decide⟩
      · exact h.marked hr
    refine h.insertInto ?_ _ _
    simp only [List.mem_append, not_or]
    exact ⟨⟨by decide, haddress⟩, by decide⟩

theorem removeDependency (h : s.OneLine) (group name : Text) (scope : Option Text) :
    (s.removeDependency group name scope).session.OneLine := by
  unfold Session.removeDependency
  split
  · exact h
  · split
    · refine ⟨h.options, h.entries, ?_⟩
      rw [additions_recordRemoval]
      exact h.additions
    · exact h

theorem after (h : s.OneLine) {r : Request} (hr : ∀ t ∈ r.texts, '\n' ∉ t) :
    (s.after r).OneLine := by
  cases r with
  | setDependencyVersion group name version scope =>
    exact h.setDependencyVersion (hr version (by simp [Request.texts])) group name scope
  | setPluginVersion id version =>
    exact h.setPluginVersion (hr version (by simp [Request.texts])) id
  | setProperty key value => exact h.setProperty (hr value (by simp [Request.texts])) key
  | setRepositoryUrl name url => exact h.setRepositoryUrl (hr url (by simp [Request.texts])) name
  | addDependency => exact h.addDependency hr
  | addPlugin id version =>
    exact h.addPlugin (hr id (by simp [Request.texts])) (hr version (by simp [Request.texts]))
  | addRepository nameOrUrl => exact h.addRepository (hr nameOrUrl (by simp [Request.texts]))
  | removeDependency group name scope => exact h.removeDependency group name scope
  | clear => exact ⟨h.options, h.entries, fun a ha => absurd ha List.not_mem_nil⟩

end OneLine

/-- Behind a course of requests of one line everything to be written is of one line. -/
theorem oneLine_afterAll {s : Session} (h : s.OneLine) {requests : List Request}
    (hr : ∀ r ∈ requests, ∀ t ∈ r.texts, '\n' ∉ t) : (s.afterAll requests).OneLine := by
  induction requests generalizing s with
  | nil => exact h
  | cons r rs ih =>
    exact ih (h.after (hr r List.mem_cons_self)) fun r' hr' => hr r' (List.mem_cons_of_mem r hr')

end Session

end BuildScript
