import BuildScript.Proofs.Declaration.Version
import BuildScript.Proofs.Session.Comment
/-!
# Setting the version of a plugin

A plugin that was declared by `id` with a version clause is found again by its name, and its version
is set in the text it was read from. The text is searched once more for the version, so the edit is
the one that puts another version in the place of the old one just when the name is not mistaken
for the clause.

Results:
* `Index.plugin_of_rawText`, `Index.exists_versioned_of_version`: what plugins with a version clause
  are read from.
* `setPluginVersion_eq_iff`: when the version, and nothing else, is replaced.
* `setPluginVersion_mistakenScript`: a name that ends in the word `version`.
-/
namespace BuildScript

open Text Plugin

/-! ## Plugins read again -/

namespace Index

variable {kinds : List Kind} {skipComments : Bool} {text : Text} {e : Entry}

theorem exists_read_of_plugin
    (h : e ∈ (parse ⟨kinds.map Recognizer.ofKind, skipComments⟩ text).entries)
    (hkind : e.kind = .plugin) : ∃ p before rest, e.declaration = .plugin p ∧
      (readDeclaration? before (e.rawText ++ rest) = some (p, rest) ∨
        readApplication? before (e.rawText ++ rest) = some (p, rest)) := by
  obtain ⟨found, u, v, -, hfind, hd, hstart, hstop⟩ := exists_find?_of_mem_parse h
  rw [hkind] at hfind
  obtain ⟨plugin, hplugin, rfl⟩ := Option.map_eq_some_iff.1 hfind
  have htext : plugin.text (u ++ e.rawText ++ v) = e.rawText := Found.text_eq hstart hstop
  have hdeclaration : ∀ b s p r, readDeclaration? b s = some (p, r) → r <:+ s := by
    intro b s p r hr
    obtain ⟨m, c, rfl, -⟩ := (settled_readDeclaration b).taken hr
    exact ⟨m ++ [c], by simp⟩
  have happlication : ∀ b s p r, readApplication? b s = some (p, r) → r <:+ s :=
    fun b s p r hr => (steady_readApplication b p).suffix hr
  rcases Option.or_eq_some_iff.1 hplugin with hsearch | ⟨-, hsearch⟩
  · obtain ⟨before, rest, hread⟩ := exists_read_of_searchIn hdeclaration hsearch
    exact ⟨plugin.value, before, rest, hd, Or.inl (htext ▸ hread)⟩
  · obtain ⟨before, rest, hread⟩ := exists_read_of_searchIn happlication hsearch
    exact ⟨plugin.value, before, rest, hd, Or.inr (htext ▸ hread)⟩

/-- A plugin whose text is a declaration with a version clause is declared with that name and
version. -/
theorem plugin_of_rawText
    (h : e ∈ (parse ⟨kinds.map Recognizer.ofKind, skipComments⟩ text).entries)
    (hkind : e.kind = .plugin) {d : Versioned} (hraw : e.rawText = d.text) :
    e.declaration = .plugin ⟨d.name.body, d.version.body, true⟩ := by
  obtain ⟨p, before, rest, hp, hread⟩ := exists_read_of_plugin h hkind
  rw [hraw] at hread
  rcases hread with hread | hread
  · rw [hp, d.value_of_readDeclaration? hread]
  · obtain ⟨-, r, hr, -⟩ := readApplication?_eq_some_iff.1 hread
    cases eq_append_of_after? hr

theorem exists_versioned_of_version
    (h : e ∈ (parse ⟨kinds.map Recognizer.ofKind, skipComments⟩ text).entries) {p : Plugin}
    (hp : e.declaration = .plugin p) (hversion : p.version ≠ []) :
    ∃ d : Versioned, e.rawText = d.text := by
  obtain ⟨q, before, rest, hq, hread⟩ :=
    exists_read_of_plugin h (show e.declaration.kind = _ by rw [hp]; rfl)
  obtain rfl : q = p := Declaration.plugin.inj (hq.symm.trans hp)
  rcases hread with hread | hread
  · obtain ⟨a, u, hcall, ⟨version, hclause, -⟩ | ⟨-, -, rfl⟩⟩ :=
      readDeclaration?_eq_some_iff.1 hread
    · obtain ⟨d, -, -, -, hd⟩ := Versioned.exists_of_readVersion? hcall hclause
      exact ⟨d, List.append_cancel_right hd⟩
    · exact absurd rfl hversion
  · obtain ⟨-, _, -, _, _, -, -, _, -, _, -, _, _, ⟨-, rfl⟩, -⟩ :=
      readApplication?_eq_some_iff.1 hread
    exact absurd rfl hversion

end Index

/-! ## Setting the version -/

namespace Session

theorem select?_plugin_start {base : Index} {e : Entry} {p : Plugin} {i : Nat}
    (he : base.entries[i]? = some e) (hp : e.declaration = .plugin p)
    (hfirst : ∀ j < i, ∀ e' p', base.entries[j]? = some e' → e'.declaration = .plugin p' →
      p'.id ≠ p.id) (editor : EditorOptions) :
    (start base editor).select? (fun d => d.plugin?.filter (·.id = p.id)) = some (e, p, i) := by
  have hread : (e.declaration.plugin?.filter (·.id = p.id)) = some p := by
    rw [hp]
    simp [Declaration.plugin?]
  have hnone : ∀ j < i, ∀ e', base.entries[j]? = some e' →
      (e'.declaration.plugin?.filter (·.id = p.id)) = none := by
    intro j hj e' he'
    cases hd : e'.declaration with
    | plugin p' => simp [Declaration.plugin?, hfirst j hj e' p' he' hd]
    | _ => rfl
  exact select?_of_first he rfl hread hnone

/-- A new version of a plugin is a replacement of the text that the plugin was read from. -/
theorem setPluginVersion_start {base : Index} {e : Entry} {p : Plugin} {i : Nat}
    (he : base.entries[i]? = some e) (hp : e.declaration = .plugin p)
    (hfirst : ∀ j < i, ∀ e' p', base.entries[j]? = some e' → e'.declaration = .plugin p' →
      p'.id ≠ p.id)
    {version newText : Text} (hne : p.version ≠ version)
    (hset : setVersion? e.rawText version = some newText) (editor : EditorOptions) :
    (start base editor).setPluginVersion p.id version =
      { session := (start base editor).record i e (.plugin { p with version }) newText
          (updateText ("plugin ".toList ++ p.id ++ " version".toList) p.version version) } := by
  rw [setPluginVersion, select?_plugin_start he hp hfirst]
  dsimp only
  rw [if_neg hne, hset]

/-- Another version for a plugin that is declared by `id` with a version clause, the first of its
name, in a session without changes. The request is accepted, and the edit that it records puts the
new version in the place of the one that was read, and keeps all else of the declaration, just when
the name is not mistaken for the clause. -/
theorem setPluginVersion_eq_iff (kinds : List Kind) (enabled : Option (List Kind))
    (skipComments : Bool) (editor : EditorOptions) (text : Text) {i : Nat} {e : Entry}
    (he : (Index.parse (.builtIn kinds enabled skipComments) text).entries[i]? = some e)
    (hkind : e.kind = .plugin) (d : Versioned) (hraw : e.rawText = d.text)
    (hfirst : ∀ j < i, ∀ e' p, (Index.parse (.builtIn kinds enabled skipComments)
      text).entries[j]? = some e' → e'.declaration = .plugin p → p.id ≠ d.name.body)
    {value : Text} (hvalue : ∀ c ∈ value, isQuote c = false) (hne : value ≠ d.version.body) :
    let base := start (Index.parse (.builtIn kinds enabled skipComments) text) editor
    let request := Request.setPluginVersion d.name.body value
    e.declaration = .plugin ⟨d.name.body, d.version.body, true⟩ ∧
    (base.attempt request).fault = none ∧
    ((base.after request).edits = [⟨.replace, e.region, e.rawText,
      (d.withVersion value hvalue).text,
      updateText ("plugin ".toList ++ d.name.body ++ " version".toList) d.version.body value⟩] ↔
        ¬ d.Mistaken) := by
  obtain ⟨used, hused⟩ := ParseOptions.exists_builtIn_eq kinds enabled skipComments
  rw [hused] at he hfirst ⊢
  intro base request
  have hp := Index.plugin_of_rawText (List.mem_of_getElem? he) hkind hraw
  obtain ⟨newText, hset⟩ : ∃ newText, setVersion? e.rawText value = some newText := by
    by_cases h : d.Mistaken
    · exact ⟨_, by rw [hraw, d.setVersion?_of_mistaken h]⟩
    · exact ⟨_, by rw [hraw, d.setVersion?_eq h hvalue]⟩
  have hattempt : base.attempt request = _ :=
    setPluginVersion_start he hp hfirst (Ne.symm hne) hset editor
  have hparsed : base.parsedText i = e.rawText := parsedText_start he editor
  refine ⟨hp, by rw [hattempt], ?_⟩
  rw [← d.setVersion?_eq_iff hvalue hne, ← hraw, hset, Option.some.injEq, after, hattempt, edits]
  dsimp only
  by_cases hsame : newText = base.parsedText i
  · -- the text stays as it was, so there is no edit, and the version has not been replaced
    have htext : newText ≠ (d.withVersion value hvalue).text := by
      rw [hsame, hparsed, hraw]
      exact (d.text_withVersion_ne hvalue hne).symm
    rw [changes_record_of_eq hsame]
    simp [base, start, htext]
  · rw [changes_record_of_ne hsame, hparsed]
    simp [base, start, Change.edit]

/-- A plugin that is named like the word and quoted by another mark than its version. -/
def markedPlugin : Versioned where
  name := ⟨['('], '"', "com.acme.version".toList, [')'], Or.inr ⟨[], [], by simp⟩, rfl,
    isQuote_eq_false_of_any rfl, Or.inr ⟨[], by simp⟩⟩
  gap := [' ']
  version := ⟨[' '], '\'', "1.0".toList, [], Or.inl (List.all_eq_true.1 rfl), rfl,
    isQuote_eq_false_of_any rfl, Or.inl rfl⟩
  name_ne_nil := by decide
  gap_ne_nil := by decide
  gap_blank := List.all_eq_true.1 rfl

/-- A script that declares it. -/
def markedScript : Text := "id(\"com.acme.version\") version '1.0'".toList

/-- The version of that plugin is set in its place. -/
theorem setPluginVersion_markedScript :
    let base := Index.parse (.builtIn Kind.all none true) markedScript
    ∃ e, base.entries[0]? = some e ∧ e.kind = .plugin ∧ e.rawText = markedPlugin.text ∧
      ∃ h : ∀ c ∈ "2.0".toList, isQuote c = false, "2.0".toList ≠ markedPlugin.version.body ∧
        (markedPlugin.withVersion "2.0".toList h).text =
          "id(\"com.acme.version\") version '2.0'".toList ∧
        ((start base {}).after (.setPluginVersion markedPlugin.name.body "2.0".toList)).edits =
          [⟨.replace, e.region, e.rawText, (markedPlugin.withVersion "2.0".toList h).text,
            updateText ("plugin ".toList ++ markedPlugin.name.body ++ " version".toList)
              markedPlugin.version.body "2.0".toList⟩] := by
  intro base
  obtain ⟨e, he, hkind, hraw⟩ : ∃ e, base.entries[0]? = some e ∧ e.kind = .plugin ∧
      e.rawText = markedPlugin.text := ⟨_, rfl, rfl, rfl⟩
  have hplain : ∀ c ∈ "2.0".toList, isQuote c = false := isQuote_eq_false_of_any rfl
  have hne : "2.0".toList ≠ markedPlugin.version.body := by decide
  have h := setPluginVersion_eq_iff Kind.all none true {} markedScript he hkind markedPlugin hraw
    (fun j hj => absurd hj (Nat.not_lt_zero j)) hplain hne
  exact ⟨e, he, hkind, hraw, hplain, hne, rfl, h.2.2.2 fun hm => absurd hm.1 (by decide)⟩

/-- A plugin of the same name, quoted by the mark of its version. -/
def mistakenPlugin : Versioned where
  name := ⟨[' '], '\'', "com.acme.version".toList, [], Or.inl (List.all_eq_true.1 rfl), rfl,
    isQuote_eq_false_of_any rfl, Or.inl rfl⟩
  gap := [' ']
  version := ⟨[' '], '\'', "1.0".toList, [], Or.inl (List.all_eq_true.1 rfl), rfl,
    isQuote_eq_false_of_any rfl, Or.inl rfl⟩
  name_ne_nil := by decide
  gap_ne_nil := by decide
  gap_blank := List.all_eq_true.1 rfl

/-- A script that declares it. -/
def mistakenScript : Text := "id 'com.acme.version' version '1.0'".toList

/-- The new version is put between the name and the version, where the word was. -/
theorem setPluginVersion_mistakenScript :
    let base := Index.parse (.builtIn Kind.all none true) mistakenScript
    ∃ e, base.entries[0]? = some e ∧ e.kind = .plugin ∧ e.rawText = mistakenPlugin.text ∧
      (mistakenPlugin.withVersion "2.0".toList (isQuote_eq_false_of_any rfl)).text =
        "id 'com.acme.version' version '2.0'".toList ∧
      ((start base {}).after (.setPluginVersion "com.acme.version".toList "2.0".toList)).edits =
        [⟨.replace, e.region, mistakenScript, "id 'com.acme.version'2.0'1.0'".toList,
          "Update plugin com.acme.version version from '1.0' to '2.0'".toList⟩] :=
  ⟨_, rfl, rfl, rfl, rfl, rfl⟩

end Session

end BuildScript
