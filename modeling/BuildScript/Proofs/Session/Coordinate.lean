import BuildScript.Proofs.Declaration.Parts
import BuildScript.Proofs.Session.Refusal
import BuildScript.Proofs.Session.Setting
/-!
# Setting the version of a dependency

A dependency that is declared by a coordinate is set to one version after the other. Each time the
session knows the version that it wrote last, and so it writes the next one over it, with the parts
behind it as they are. The one exception is a version that is empty: the session takes it for a
missing one, though its colon is there, and the next version is put in front of that colon.

Results:
* `Index.coordinate_of_dependency`: the coordinate that a dependency is declared by.
* `Shows.setDependencyVersions`: the parts of the coordinate behind a course of versions.
* `fields_setDependencyVersions_iff`: when only the third part has changed in the end.
* `fields_setDependencyVersions_hollow`: a classifier without a version.
-/
namespace BuildScript

open Text

/-- A dependency of a script that is no reference to another project is declared by a quoted
coordinate. -/
theorem Index.coordinate_of_dependency {kinds : List Kind} {skipComments : Bool} {text : Text}
    {e : Entry} {d : Dependency}
    (h : e ∈ (parse ⟨kinds.map Recognizer.ofKind, skipComments⟩ text).entries)
    (hd : e.declaration = .dependency d) (hown : d.isProjectReference = false) :
    ∃ mark parts, isQuote mark = true ∧ d.group ≠ [] ∧
      (∀ f ∈ d.group :: d.name :: parts, ∀ x ∈ f, isQuote x = false ∧ x ≠ ':') ∧
      e.rawText = d.quoted mark parts ∧ d = d.withParts mark parts := by
  obtain ⟨found, u, v, -, hfind, hfound, hstart, hstop⟩ := exists_find?_of_mem_parse h
  rw [Entry.kind, hd] at hfind
  obtain ⟨a, ha, rfl⟩ := Option.map_eq_some_iff.1 hfind
  have hvalue : d = a.value := Declaration.dependency.inj (hd.symm.trans hfound)
  obtain ⟨u', mark, body, v', c, hline, hquotes, -, ha⟩ := Dependency.find?_spec ha (hvalue ▸ hown)
  have hu : u.length = u'.length := hstart.symm.trans (by rw [ha]; rfl)
  have huraw : (u ++ e.rawText).length = (u' ++ mark :: (body ++ [mark])).length :=
    hstop.symm.trans (by rw [ha]; simp [Found.map])
  have hraw := (List.append_inj (List.append_inj hline huraw).1 hu).2
  obtain ⟨parts, rfl, hgroup, -, hversion, hchars, -⟩ := hquotes.fields_eq
  obtain rfl : d = ⟨c.group, c.name, parts.headD [], _, _⟩ :=
    hvalue.trans (by rw [ha, hversion])
  refine ⟨mark, parts, hquotes.quote, hgroup, fun f hf x hx => ?_, hraw, rfl⟩
  have hx := hchars f hf x hx
  simp only [Coordinate.isGroupChar, Bool.and_eq_true, Bool.not_eq_true', bne_iff_ne] at hx
  exact ⟨hx.1.1, hx.2⟩

namespace Session

/-! ## Writing versions -/

namespace Shows

variable {base : Index} {i : Nat} {e : Entry} {d : Dependency} {s : Session} {scope : Option Text}
  {mark : Char} {parts : List Text}

theorem setDependencyVersion
    (h : Shows base i e (.dependency (d.withParts mark parts)) (d.quoted mark parts) s)
    (he : base.entries[i]? = some e) (hgroup : d.group ≠ [])
    (hscope : ∀ asked ∈ scope, d.scope = asked)
    (hfirst : ∀ j < i, ∀ e' d', base.entries[j]? = some e' → e'.declaration = .dependency d' →
      ¬ d'.Fits d.group d.name scope) (version : Text) :
    (s.attempt (.setDependencyVersion d.group d.name version scope)).fault = none ∧
      Shows base i e (.dependency (d.withParts mark (Coordinate.writePart parts version)))
        (d.quoted mark (Coordinate.writePart parts version))
        (s.after (.setDependencyVersion d.group d.name version scope)) := by
  have hfits : (d.withParts mark parts).Fits d.group d.name scope :=
    ⟨rfl, rfl, hscope, by simp [Dependency.isProjectReference, Dependency.withParts, hgroup]⟩
  obtain ⟨warnings, hsel⟩ : ∃ warnings, s.selectDependency d.group d.name scope =
      (.ok ({ e with declaration := .dependency (d.withParts mark parts),
                     rawText := d.quoted mark parts }, d.withParts mark parts, i), warnings) :=
    ⟨_, Prod.ext (h.selectDependency he hfits hfirst) rfl⟩
  have hattempt : s.attempt (.setDependencyVersion d.group d.name version scope) =
      s.setDependencyVersion d.group d.name version scope := rfl
  have hversion : (d.withParts mark parts).version = parts.headD [] := rfl
  rw [after, hattempt, Session.setDependencyVersion, hsel, Coordinate.writePart]
  dsimp only
  rw [hversion]
  by_cases hsame : parts.headD [] = version
  · rw [if_pos hsame, if_pos hsame]
    exact ⟨rfl, h⟩
  · rw [if_neg hsame, if_neg hsame]
    have hset : (d.withParts mark parts).setVersion (d.quoted mark parts) version =
        d.quoted mark (Coordinate.setPart parts version) :=
      Dependency.setVersion_quoted (d := d.withParts mark parts) rfl mark version
    rw [hset]
    exact ⟨rfl, h.record he _ _ _⟩

theorem setDependencyVersions
    (h : Shows base i e (.dependency (d.withParts mark parts)) (d.quoted mark parts) s)
    (he : base.entries[i]? = some e) (hgroup : d.group ≠ [])
    (hscope : ∀ asked ∈ scope, d.scope = asked)
    (hfirst : ∀ j < i, ∀ e' d', base.entries[j]? = some e' → e'.declaration = .dependency d' →
      ¬ d'.Fits d.group d.name scope) (versions : List Text) :
    let requests := versions.map fun v => Request.setDependencyVersion d.group d.name v scope
    (∀ a ∈ s.attempts requests, a.fault = none) ∧
      Shows base i e (.dependency (d.withParts mark (Coordinate.writeParts parts versions)))
        (d.quoted mark (Coordinate.writeParts parts versions)) (s.afterAll requests) := by
  induction versions generalizing s parts with
  | nil => exact ⟨fun a ha => absurd ha List.not_mem_nil, h⟩
  | cons v versions ih =>
    obtain ⟨hfault, hshows⟩ := h.setDependencyVersion he hgroup hscope hfirst v
    obtain ⟨hfaults, hshows⟩ := ih hshows
    exact ⟨List.forall_mem_cons.2 ⟨hfault, hfaults⟩, hshows⟩

end Shows

/-! ## What they leave -/

/-- A session in which a dependency, declared by the coordinate `body` with `parts` behind the name,
has been given `versions`, the last one not empty: it is declared by `body'`, which has the last
version as third part, the parts that stood behind the third one at its end, and between them one
empty part for each time that a version was put in front of an empty one. -/
structure Reversioned (s : Session) (i : Nat) (e : Entry) (d : Dependency)
    (parts versions : List Text) (last : Text) (mark : Char) (body body' : Text) : Prop where
  isQuote_mark : isQuote mark = true
  rawText : e.rawText = mark :: (body ++ [mark])
  parsed : fields ':' body = d.group :: d.name :: parts
  unquoted : ∀ c ∈ body', isQuote c = false
  written : fields ':' body' = d.group :: d.name :: last ::
    (List.replicate (Coordinate.refills (Coordinate.thirds parts versions)) [] ++ parts.tail)
  shown : s.index.entries[i]? = some { e with
    declaration := .dependency { d with version := last, raw := mark :: (body' ++ [mark]) }
    rawText := mark :: (body' ++ [mark]) }
  pending : s.edits.map Edit.bare = if body' = body then []
    else [⟨.replace, e.region, e.rawText, mark :: (body' ++ [mark]), []⟩]

/-- Versions without marks and colons that end with one that is not empty, set one after the other
for a dependency that is declared by a coordinate, the first that fits, in a session without
changes. All are accepted, and in the end no part of the coordinate but the third has changed just
when the third part, from where there is one, was never empty. -/
theorem fields_setDependencyVersions_iff (kinds : List Kind) (enabled : Option (List Kind))
    (skipComments : Bool) (editor : EditorOptions) (text : Text) {i : Nat} {e : Entry}
    {d : Dependency} {scope : Option Text}
    (he : (Index.parse (.builtIn kinds enabled skipComments) text).entries[i]? = some e)
    (hd : e.declaration = .dependency d) (hown : d.isProjectReference = false)
    (hscope : ∀ asked ∈ scope, d.scope = asked)
    (hfirst : ∀ j < i, ∀ e' d', (Index.parse (.builtIn kinds enabled skipComments)
      text).entries[j]? = some e' → e'.declaration = .dependency d' →
        ¬ d'.Fits d.group d.name scope)
    {versions : List Text} (hversions : ∀ v ∈ versions, ∀ c ∈ v, isQuote c = false ∧ c ≠ ':')
    {last : Text} (hlast : versions.getLast? = some last) (hne : last ≠ []) :
    let base := start (Index.parse (.builtIn kinds enabled skipComments) text) editor
    let requests := versions.map fun v => Request.setDependencyVersion d.group d.name v scope
    (∀ a ∈ base.attempts requests, a.fault = none) ∧ ∃ parts mark body body',
      (base.afterAll requests).Reversioned i e d parts versions last mark body body' ∧
      (fields ':' body' = d.group :: d.name :: last :: parts.tail ↔
        [] ∉ Coordinate.thirds parts versions) := by
  obtain ⟨used, hused⟩ := ParseOptions.exists_builtIn_eq kinds enabled skipComments
  rw [hused] at he hfirst ⊢
  obtain ⟨mark, parts, hmark, hgroup, hchars, hraw, hparts⟩ :=
    Index.coordinate_of_dependency (List.mem_of_getElem? he) hd hown
  generalize Index.parse ⟨used.map Recognizer.ofKind, skipComments⟩ text = index at he hfirst ⊢
  intro base requests
  have hstart : Shows index i e (.dependency (d.withParts mark parts)) (d.quoted mark parts)
      base := by
    rw [← hparts, ← hraw, ← hd]
    exact Shows.start he editor
  obtain ⟨hfaults, hshows⟩ := hstart.setDependencyVersions he hgroup hscope hfirst versions
  -- what is written in the end are the last version, empty parts and parts that were parsed
  have hset := Coordinate.writeParts_eq parts hlast hne
  have hchars' : ∀ f ∈ d.group :: d.name :: Coordinate.writeParts parts versions,
      ∀ x ∈ f, isQuote x = false ∧ x ≠ ':' := by
    simp only [List.mem_cons] at hchars ⊢
    rintro f (rfl | rfl | hf)
    · exact hchars _ (Or.inl rfl)
    · exact hchars _ (Or.inr (Or.inl rfl))
    · rcases Coordinate.mem_writeParts hf with hf | hf
      · exact hchars f (Or.inr (Or.inr hf))
      · exact hversions f hf
  have hfields := Coordinate.fields_joinWith hchars (List.cons_ne_nil _ _)
  have hfields' := Coordinate.fields_joinWith hchars' (List.cons_ne_nil _ _)
  have hsame : d.quoted mark (Coordinate.writeParts parts versions) = e.rawText ↔
      joinWith [':'] (d.group :: d.name :: Coordinate.writeParts parts versions) =
        joinWith [':'] (d.group :: d.name :: parts) := by
    rw [hraw, Dependency.quoted, Dependency.quoted, List.cons_inj_right,
      List.append_cancel_right_eq]
    rfl
  refine ⟨hfaults, parts, mark, joinWith [':'] (d.group :: d.name :: parts),
    joinWith [':'] (d.group :: d.name :: Coordinate.writeParts parts versions), ?_, ?_⟩
  · exact {
      isQuote_mark := hmark
      rawText := hraw
      parsed := hfields
      unquoted := Coordinate.not_isQuote_of_mem_joinWith hchars'
      written := by rw [hfields', hset]
      shown := by rw [hshows.entry he, Dependency.withParts, hset]; rfl
      pending := by rw [hshows.bare_edits]; exact if_congr hsame rfl rfl }
  · rw [hfields', hset, ← Coordinate.refills_eq_zero_iff
      (Coordinate.getLast?_thirds parts hlast hne) hne]
    simp

/-- A script with a classifier behind a version. -/
def classifiedScript : Text := "implementation 'a:b:1:sources'".toList

/-- There the classifier is kept behind the versions that are set. -/
theorem fields_setDependencyVersions_classified :
    let index := Index.parse (.builtIn Kind.all none true) classifiedScript
    let versions := ["2".toList, "3".toList]
    ∃ e d, index.entries[0]? = some e ∧ e.declaration = .dependency d ∧
      d.isProjectReference = false ∧ (∀ v ∈ versions, ∀ c ∈ v, isQuote c = false ∧ c ≠ ':') ∧
      let s := (start index {}).afterAll
        (versions.map fun v => Request.setDependencyVersion d.group d.name v none)
      s.index.entries[0]?.map (·.rawText) = some "'a:b:3:sources'".toList ∧
      ∃ parts mark body body', s.Reversioned 0 e d parts versions "3".toList mark body body' ∧
        (fields ':' body' = d.group :: d.name :: "3".toList :: parts.tail ↔
          [] ∉ Coordinate.thirds parts versions) := by
  intro index versions
  obtain ⟨e, d, he, hd, hown, hraw⟩ : ∃ e d, index.entries[0]? = some e ∧
      e.declaration = .dependency d ∧ d.isProjectReference = false ∧
      ((start index {}).afterAll (versions.map fun v =>
        Request.setDependencyVersion d.group d.name v none)).index.entries[0]?.map (·.rawText) =
          some "'a:b:3:sources'".toList := ⟨_, _, rfl, rfl, rfl, rfl⟩
  have hall : (versions.all fun v => v.all fun c => !isQuote c && c != ':') = true := rfl
  have hplain : ∀ v ∈ versions, ∀ c ∈ v, isQuote c = false ∧ c ≠ ':' := by
    simpa only [List.all_eq_true, Bool.and_eq_true, Bool.not_eq_true', bne_iff_ne] using hall
  have hscope : ∀ asked ∈ (none : Option Text), d.scope = asked := fun _ h => nomatch h
  have h := fields_setDependencyVersions_iff Kind.all none true {} classifiedScript he hd hown
    hscope (fun j hj => absurd hj (Nat.not_lt_zero j)) hplain rfl (List.cons_ne_nil '3' [])
  exact ⟨e, d, he, hd, hown, hplain, hraw, h.2⟩

/-- A script with a classifier behind an empty version. -/
def hollowScript : Text := "implementation 'a:b::sources'".toList

/-- There a version is put in front of the empty one, and the classifier becomes the fifth part. -/
theorem fields_setDependencyVersions_hollow :
    let index := Index.parse (.builtIn Kind.all none true) hollowScript
    let s := (start index {}).after (.setDependencyVersion "a".toList "b".toList "2".toList none)
    ∃ e d, index.entries[0]? = some e ∧ e.declaration = .dependency d ∧
      e.rawText = "'a:b::sources'".toList ∧
      s.edits.map Edit.bare =
        [⟨.replace, e.region, e.rawText, "'a:b:2::sources'".toList, []⟩] ∧
      fields ':' "a:b::sources".toList = ["a".toList, "b".toList, [], "sources".toList] ∧
      fields ':' "a:b:2::sources".toList =
        ["a".toList, "b".toList, "2".toList, [], "sources".toList] :=
  ⟨_, _, rfl, rfl, rfl, rfl, rfl, rfl⟩

end Session

end BuildScript
