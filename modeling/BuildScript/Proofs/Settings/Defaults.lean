import BuildScript.Proofs.Settings.Merge
import BuildScript.Proofs.Yaml.Proper
import BuildScript.Settings.Document
import Mathlib.Data.List.Basic
/-!
# Two sources of defaults

The defaults are written down twice: spelled out in the template, and beside the fields that are
read. A mapping that is laid over the template reads as it does alone, so the two agree, in what the
settings are and in what is complained about.

**Fields.** A field that is left out is found in the template, with the value that it would have
been given; one that is there is found as it is, unless it is a section. A section is laid over the
section of the template, and the same holds inside it.

**Strangers.** The template holds only names that are looked for, so the keys that nobody asked for
are those of the mapping, in their order.

**Loaders.** What a loader reads is its own affair, but not which fields make settings: `Lawful`
says that it accepts and refuses as `Settings.ofFields` does, in its own words.

Results:
* `onlyNamed_merge`, `optional_merge`: reading fields that are laid over others.
* `ofFields_merge_template`: reading settings that are laid over the template.
* `lawful_yamlLoader`: the laws of the loader that comes with the library.
* `defaults_agree`: so it is for every mapping, and for every file that holds one.
-/
namespace BuildScript

/-! ## Complaints about strangers -/

namespace Checked

/-- Nothing to read, only complaints, if there are any. -/
def report : List Complaint → Checked Unit
  | [] => .ok ()
  | complaints => .error complaints

theorem report_append (first second : List Complaint) :
    report (first ++ second) = ((report first).both (report second)).map fun _ => () := by
  cases first with
  | nil => cases second <;> rfl
  | cons complaint rest =>
    cases second with
    | nil => exact congrArg report (List.append_nil (complaint :: rest))
    | cons other others => rfl

theorem map_all_report (lists : List (List Complaint)) :
    (all (lists.map report)).map (fun _ => ()) = report lists.flatten := by
  induction lists with
  | nil => rfl
  | cons list lists ih =>
    rw [List.map_cons, all, List.flatten_cons, report_append, ← ih]
    cases report list <;> cases all (lists.map report) <;> rfl

end Checked

namespace Fields

variable {names : List String} {base upper : Fields}

/-- The complaint about a key, unless it is one of the names. -/
def stranger (names : List String) : Key → Option Complaint
  | .text name =>
    if name ∈ names.map String.toList then none else some ⟨[.name name], .extra⟩
  | key => some ⟨[key.pathPart], .keyNotText⟩

theorem exists_text_of_stranger_eq_none {key : Key} (h : stranger names key = none) :
    ∃ name, key = .text name := by
  cases key with
  | text name => exact ⟨name, rfl⟩
  | _ => cases h

/-- The complaints are about the keys that are none of the names, in their order. -/
theorem onlyNamed_eq (fields : Fields) (names : List String) :
    fields.onlyNamed names = Checked.report (fields.keys.filterMap (stranger names)) := by
  have hlists : fields.keys.filterMap (stranger names) =
      (fields.map fun field => (stranger names field.1).toList).flatten := by
    rw [keys, List.filterMap_map, List.filterMap_eq_flatMap_toList, List.flatMap]
    rfl
  rw [hlists, ← Checked.map_all_report, List.map_map, onlyNamed]
  congr 2
  refine List.map_congr_left fun field _ => ?_
  obtain ⟨key, value⟩ := field
  cases key with
  | text name =>
    dsimp only [Function.comp, stranger]
    split <;> rfl
  | _ => rfl

/-- Over a mapping of none but the names, the strangers are those of the upper mapping. -/
theorem onlyNamed_merge (hbase : ∀ key ∈ base.keys, stranger names key = none)
    (h : upper.Distinct) :
    (Settings.merge base upper).onlyNamed names = upper.onlyNamed names := by
  rw [onlyNamed_eq, onlyNamed_eq, Settings.keys_merge h, List.filterMap_append,
    List.filterMap_eq_nil_iff.2 hbase, List.nil_append, List.filterMap_filter]
  congr 2
  funext key
  cases hget : get? base key with
  | none => rfl
  | some value =>
    -- the key is there below, so it is one of the names
    obtain ⟨field, hfield, hsame⟩ := exists_of_get?_isSome (Option.isSome_iff_exists.2 ⟨_, hget⟩)
    have hknown : stranger names field.1 = none := hbase _ (List.mem_map_of_mem hfield)
    obtain ⟨name, hname⟩ := exists_text_of_stranger_eq_none hknown
    rw [hname, Key.same_comm] at hsame
    rw [Key.eq_of_same_text hsame, ← hname, hknown]
    rfl

/-! ## Fields with defaults -/

section Optional

variable {α : Type} {name : String} {default : α} {read : Value → Checked α} {lower : Value}

/-- A field reads as it does alone when the base spells its default out and a value that is laid
over the base reads as before. -/
theorem optional_merge (hlower : base.named? name.toList = some lower)
    (hdefault : read lower = .ok default) (h : upper.Distinct)
    (hread : ∀ value, upper.named? name.toList = some value →
      read (Settings.mergeValue (some lower) value) = read value) :
    (Settings.merge base upper).optional name default read =
      upper.optional name default read := by
  rw [named?] at hlower
  rw [optional, optional, named?, named?, Settings.get?_merge h, hlower]
  cases hvalue : get? upper (.text name.toList) with
  | none =>
    show (read lower).under _ = .ok default
    rw [hdefault]
    rfl
  | some value =>
    show (read (Settings.mergeValue (some lower) value)).under _ = _
    rw [hread value hvalue]

theorem optional_merge_scalar (hlower : base.named? name.toList = some lower)
    (hscalar : lower.fields? = none) (hdefault : read lower = .ok default) (h : upper.Distinct) :
    (Settings.merge base upper).optional name default read =
      upper.optional name default read :=
  optional_merge hlower hdefault h fun value _ => by
    rw [Settings.mergeValue_of_not_mapping hscalar]

end Optional

end Fields

/-! ## Sections -/

namespace Settings

/-- The fields of a section of the template. -/
def templateSection (name : String) : Fields :=
  ((template.named? name.toList).bind Value.fields?).getD []

variable {fields : Fields}

theorem parser_ofFields_merge (h : fields.Distinct) :
    ParserSettings.ofFields (merge (templateSection "parser") fields) =
      ParserSettings.ofFields fields := by
  have hflag (name : String)
      (hname : (templateSection "parser").named? name.toList = some (.bool true)) :
      (merge (templateSection "parser") fields).optional name true Value.readBool =
        fields.optional name true Value.readBool :=
    Fields.optional_merge_scalar hname rfl rfl h
  unfold ParserSettings.ofFields
  dsimp only
  rw [Fields.onlyNamed_merge (by decide) h, hflag "skip_comments" rfl,
    hflag "parse_dependencies" rfl, hflag "parse_plugins" rfl, hflag "parse_repositories" rfl,
    hflag "parse_tasks" rfl]

theorem editor_ofFields_merge (h : fields.Distinct) :
    EditorOptions.ofFields (merge (templateSection "editor") fields) =
      EditorOptions.ofFields fields := by
  have hfield (name : String) (read : Value → Checked Text) (default : Text)
      (hname : (templateSection "editor").named? name.toList = some (.text default))
      (hdefault : read (.text default) = .ok default) :
      (merge (templateSection "editor") fields).optional name default read =
        fields.optional name default read :=
    Fields.optional_merge_scalar hname rfl hdefault h
  unfold EditorOptions.ofFields
  dsimp only
  rw [Fields.onlyNamed_merge (by decide) h, hfield "indent" _ _ rfl rfl,
    hfield "default_scope" _ _ rfl rfl, hfield "quote" _ _ rfl rfl]

theorem logging_ofFields_merge (h : fields.Distinct) :
    LoggingSettings.ofFields (merge (templateSection "logging") fields) =
      LoggingSettings.ofFields fields := by
  have hlevel : (merge (templateSection "logging") fields).optional "level"
      ({} : LoggingSettings).level Value.readText =
      fields.optional "level" ({} : LoggingSettings).level Value.readText :=
    Fields.optional_merge_scalar rfl rfl rfl h
  unfold LoggingSettings.ofFields
  rw [Fields.onlyNamed_merge (by decide) h, hlevel]

theorem readSection_mergeValue {α : Type} {name : String} {read : Fields → Checked α}
    {base : Fields} {value : Value}
    (h : ∀ fields, value = .mapping fields → read (merge base fields) = read fields) :
    readSection name read (mergeValue (some (.mapping base)) value) =
      readSection name read value := by
  rw [mergeValue_mapping]
  cases value with
  | mapping fields => exact h fields rfl
  | _ => rfl

/-- Settings that are laid over the template read as they do alone. -/
theorem ofFields_merge_template (h : (Value.mapping fields).Proper) :
    ofFields (merge template fields) = ofFields fields := by
  have hsection {α : Type} (name title : String) (default : α) (read : Fields → Checked α)
      (hname : template.named? name.toList = some (.mapping (templateSection name)))
      (hdefault : read (templateSection name) = .ok default)
      (hread : ∀ upper : Fields, upper.Distinct →
        read (merge (templateSection name) upper) = read upper) :
      (merge template fields).optional name default (readSection title read) =
        fields.optional name default (readSection title read) := by
    refine Fields.optional_merge hname hdefault h.distinct fun value hvalue => ?_
    refine readSection_mergeValue fun upper hupper => hread upper ?_
    obtain ⟨field, hfield, rfl⟩ := Fields.mem_of_get?_eq_some hvalue
    have hproper := h.of_mem hfield
    rw [hupper] at hproper
    exact hproper.distinct
  unfold ofFields
  rw [Fields.onlyNamed_merge (by decide) h.distinct,
    hsection "parser" "ParserSettings" {} ParserSettings.ofFields rfl rfl fun _ =>
      parser_ofFields_merge,
    hsection "editor" "EditorSettings" {} EditorOptions.ofFields rfl rfl fun _ =>
      editor_ofFields_merge,
    hsection "logging" "LoggingSettings" {} LoggingSettings.ofFields rfl rfl fun _ =>
      logging_ofFields_merge]

/-- What is known of a loader: the mappings in its documents have one value for each key, and it
reads fields as settings, or complains about them, as their sections do. -/
structure Loader.Lawful (loader : Loader) : Prop where
  proper : ∀ content value, loader.document content = .ok value → value.Proper
  validate : ∀ fields, (loader.validate fields).mapError (·.complaints) =
    (ofFields fields).mapError Complaint.sorted

theorem lawful_yamlLoader : yamlLoader.Lawful where
  proper content value h := by
    change readDocument content = .ok value at h
    unfold readDocument at h
    split at h
    · cases h
    · next s _ =>
      cases hread : Yaml.read (unifyBreaks s.toList) with
      | error fault =>
        rw [hread] at h
        cases h
      | ok found =>
        rw [hread] at h
        cases h
        exact Yaml.proper_of_read hread
  validate fields := by
    show ((ofFields fields).mapError refusal).mapError _ = _
    cases ofFields fields <;> rfl

/-- A file that holds a mapping is read as the mapping alone would be. -/
theorem load_of_document {loader : Loader} (hlawful : loader.Lawful) {content : ByteArray}
    (h : loader.document content = .ok (.mapping fields)) :
    (loader.load (some content)).mapError SettingsFault.complaints? =
      (ofFields fields).mapError fun complaints => some (Complaint.sorted complaints) := by
  have hfields : loader.loadFields (some content) = .ok (merge template fields) := by
    rw [Loader.loadFields, h]
    cases fields with
    | nil => rfl
    | cons field fields => rfl
  have hload : loader.load (some content) =
      (loader.validate (merge template fields)).mapError .invalid := by
    rw [Loader.load, hfields]
    rfl
  have hvalidate := hlawful.validate (merge template fields)
  rw [ofFields_merge_template (hlawful.proper content _ h)] at hvalidate
  calc (loader.load (some content)).mapError SettingsFault.complaints?
      = ((loader.validate (merge template fields)).mapError (·.complaints)).mapError some := by
        rw [hload]
        cases loader.validate (merge template fields) <;> rfl
    _ = ((ofFields fields).mapError Complaint.sorted).mapError some := by rw [hvalidate]
    _ = (ofFields fields).mapError fun complaints => some (Complaint.sorted complaints) := by
        cases ofFields fields <;> rfl

/-- The two sources of defaults agree. A mapping that is laid over the template gives the settings,
or the complaints, that it gives by itself; and so does a file in which a loader finds it. -/
theorem defaults_agree (fields : Fields) (h : (Value.mapping fields).Proper) :
    ofFields (merge template fields) = ofFields fields ∧
      ∀ loader : Loader, loader.Lawful → ∀ content,
        loader.document content = .ok (.mapping fields) →
          (loader.load (some content)).mapError SettingsFault.complaints? =
            (ofFields fields).mapError fun complaints => some (Complaint.sorted complaints) :=
  ⟨ofFields_merge_template h, fun _ hlawful _ => load_of_document hlawful⟩

/-- A settings file with a field that has its place, one that has none, a section without content
and a number for a key. -/
def untidyFile : String := "parser:\n  parse_tasks: false\neditor:\n  tabs: 2\nlogging:\n1: x\n"

/-- What the file holds. -/
def untidyFields : Fields :=
  [(.text "parser".toList, .mapping [(.text "parse_tasks".toList, .bool false)]),
    (.text "editor".toList, .mapping [(.text "tabs".toList, .int 2)]),
    (.text "logging".toList, .null), (.int 1, .text "x".toList)]

theorem document_untidyFile :
    yamlLoader.document untidyFile.toUTF8 = .ok (.mapping untidyFields) := by
  refine document_yamlLoader ?_
  have hnode : Yaml.Node.ofTokens (Yaml.tokens (unifyBreaks untidyFile.toList)) =
      .ok (some (.mapping
        [(.scalar "parser".toList true,
            .mapping [(.scalar "parse_tasks".toList true, .scalar "false".toList true)]),
          (.scalar "editor".toList true,
            .mapping [(.scalar "tabs".toList true, .scalar "2".toList true)]),
          (.scalar "logging".toList true, .scalar [] true),
          (.scalar "1".toList true, .scalar "x".toList true)])) := by rfl
  rw [Yaml.read, hnode]
  simp only [bind, Except.bind, Yaml.Node.value, Yaml.Node.pairs, Yaml.Node.mergedPairs,
    Yaml.Node.ownPairs]
  rfl

/-- The file is refused for three reasons, with the template or without. -/
theorem defaults_agree_untidyFile :
    (Value.mapping untidyFields).Proper ∧ yamlLoader.Lawful ∧
      yamlLoader.document untidyFile.toUTF8 = .ok (.mapping untidyFields) ∧
      ofFields (merge template untidyFields) = ofFields untidyFields ∧
      (yamlLoader.load (some untidyFile.toUTF8)).mapError SettingsFault.complaints? = .error (some
        [⟨[.number 1], .keyNotText⟩,
          ⟨[.name "editor".toList, .name "tabs".toList], .extra⟩,
          ⟨[.name "logging".toList], .notSection "LoggingSettings".toList⟩]) := by
  have h := lawful_yamlLoader.proper _ _ document_untidyFile
  obtain ⟨hfields, hload⟩ := defaults_agree untidyFields h
  refine ⟨h, lawful_yamlLoader, document_untidyFile, hfields, ?_⟩
  exact (hload yamlLoader lawful_yamlLoader _ document_untidyFile).trans (by rfl)

end Settings

end BuildScript
