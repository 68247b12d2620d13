import BuildScript.Proofs.Session.Standing
/-!
# What a session never changes of an entry

Requests revise declarations: they give a dependency or a plugin another version, a property another
value and a repository another address. All else of an entry is as it was parsed: its place, and of
a dependency the group, the name and the scope. References to other projects are never revised, so a
dependency that is none was none when it was parsed.

Results:
* `Declaration.Revised.of_dependency`: what a revised dependency was parsed as.
* `KeepsEntries.afterAll`: the entries behind a course of requests are those in front of it, in
  their places and at most revised.
-/
namespace BuildScript

/-- A declaration as a session may have revised it: with another version, value or address, and all
else as it was. A reference to another project is not revised. -/
inductive Declaration.Revised : Declaration → Declaration → Prop
  | refl (d : Declaration) : Revised d d
  | property (p : Property) (value : Text) : Revised (.property p) (.property { p with value })
  | dependency (d : Dependency) (version raw : Text) (own : d.isProjectReference = false) :
      Revised (.dependency d) (.dependency { d with version, raw })
  | plugin (p : Plugin) (version : Text) : Revised (.plugin p) (.plugin { p with version })
  | repository (r : Repository) (url : Text) : Revised (.repository r) (.repository { r with url })

theorem Declaration.Revised.trans {a b c : Declaration} (h : a.Revised b) (h' : b.Revised c) :
    a.Revised c := by
  cases h with
  | refl => exact h'
  | property p value => cases h' <;> exact .property p _
  | dependency d version raw own => cases h' <;> exact .dependency d _ _ own
  | plugin p version => cases h' <;> exact .plugin p _
  | repository r url => cases h' <;> exact .repository r _

/-- A dependency that is no reference to another project never was one, and has its group, name and
scope from the script. -/
theorem Declaration.Revised.of_dependency {a : Declaration} {d : Dependency}
    (h : a.Revised (.dependency d)) (hown : d.isProjectReference = false) :
    ∃ d₀ : Dependency, a = .dependency d₀ ∧ d₀.isProjectReference = false ∧ d₀.group = d.group ∧
      d₀.name = d.name ∧ d₀.scope = d.scope := by
  cases h with
  | refl => exact ⟨d, rfl, hown, rfl, rfl, rfl⟩
  | dependency d₀ version raw own => exact ⟨d₀, rfl, own, rfl, rfl, rfl⟩

namespace Session

/-- The entries of one session are those of another in their places, at most revised. -/
def KeepsEntries (s s' : Session) : Prop :=
  ∀ (i : Nat) (e' : Entry), s'.index.entries[i]? = some e' → ∃ e, s.index.entries[i]? = some e ∧
    e.region = e'.region ∧ e.declaration.Revised e'.declaration

namespace KeepsEntries

variable {s s' s'' : Session} {e : Entry} {i : Nat}

theorem of_index_eq (h : s'.index = s.index) : s.KeepsEntries s' :=
  fun _ e he => ⟨e, h ▸ he, rfl, .refl _⟩

theorem trans (h : s.KeepsEntries s') (h' : s'.KeepsEntries s'') : s.KeepsEntries s'' := by
  intro i e'' he''
  obtain ⟨e', he', hregion', hrevised'⟩ := h' i e'' he''
  obtain ⟨e, he, hregion, hrevised⟩ := h i e' he'
  exact ⟨e, he, hregion.trans hregion', hrevised.trans hrevised'⟩

theorem record (hmem : (e, i) ∈ s.remaining) {value : Declaration}
    (hvalue : e.declaration.Revised value) (newText description : Text) :
    s.KeepsEntries (s.record i e value newText description) := by
  obtain ⟨he, -⟩ := mem_remaining hmem
  intro j e' he'
  rcases (getElem?_record_iff (List.getElem?_eq_some_iff.1 he).1).1 he' with
    ⟨rfl, rfl⟩ | ⟨-, he'⟩
  · exact ⟨e, he, rfl, hvalue⟩
  · exact ⟨e', he', rfl, .refl _⟩

/-! ## One request -/

theorem setDependencyVersion (s : Session) (group name version : Text) (scope : Option Text) :
    s.KeepsEntries (s.setDependencyVersion group name version scope).session := by
  unfold Session.setDependencyVersion
  split
  · exact of_index_eq rfl
  · next hsel =>
    obtain ⟨hmem, hd, -, -, hown⟩ := selectDependency_spec (congrArg Prod.fst hsel)
    split
    · exact of_index_eq rfl
    · exact record hmem (hd ▸ .dependency _ _ _ hown) _ _

theorem setPluginVersion (s : Session) (id version : Text) :
    s.KeepsEntries (s.setPluginVersion id version).session := by
  unfold Session.setPluginVersion
  split
  · exact of_index_eq rfl
  · next hsel =>
    obtain ⟨hmem, hp⟩ := select?_spec hsel
    have hd := Declaration.eq_of_plugin? (Option.filter_eq_some_iff.1 hp).1
    split
    · exact of_index_eq rfl
    · split
      · exact of_index_eq rfl
      · exact record hmem (hd ▸ .plugin _ _) _ _

theorem setProperty (s : Session) (key value : Text) :
    s.KeepsEntries (s.setProperty key value).session := by
  unfold Session.setProperty
  split
  · exact of_index_eq rfl
  · next hsel =>
    obtain ⟨hmem, hp⟩ := select?_spec hsel
    have hd := Declaration.eq_of_property? (Option.filter_eq_some_iff.1 hp).1
    split
    · exact of_index_eq rfl
    · exact record hmem (hd ▸ .property _ _) _ _

theorem setRepositoryUrl (s : Session) (name url : Text) :
    s.KeepsEntries (s.setRepositoryUrl name url).session := by
  unfold Session.setRepositoryUrl
  split
  · exact of_index_eq rfl
  · next hsel =>
    obtain ⟨hmem, hr⟩ := select?_spec hsel
    have hd := Declaration.eq_of_repository? (Option.filter_eq_some_iff.1 hr).1
    split
    · exact of_index_eq rfl
    · exact record hmem (hd ▸ .repository _ _) _ _

/-- A request at most revises an entry. -/
theorem after (s : Session) (r : Request) : s.KeepsEntries (s.after r) := by
  cases hsel : s.selects? r with
  | none => exact of_index_eq (keepsTexts_of_selects? hsel).index
  | some i =>
    cases r with
    | setDependencyVersion group name version scope =>
      exact setDependencyVersion s group name version scope
    | setPluginVersion id version => exact setPluginVersion s id version
    | setProperty key value => exact setProperty s key value
    | setRepositoryUrl name url => exact setRepositoryUrl s name url
    | addDependency => cases hsel
    | addPlugin => cases hsel
    | addRepository => cases hsel
    | removeDependency => cases hsel
    | clear => cases hsel

/-! ## A course of requests -/

theorem afterAll (s : Session) (requests : List Request) :
    s.KeepsEntries (s.afterAll requests) := by
  induction requests generalizing s with
  | nil => exact of_index_eq rfl
  | cons r requests ih => exact (after s r).trans (ih (s.after r))

end KeepsEntries

end Session

end BuildScript
