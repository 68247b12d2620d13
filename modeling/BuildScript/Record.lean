import BuildScript.Index
import BuildScript.Complaint
/-!
# Records from fields

The records that declarations consist of, read from named fields. Each has its own fields and no
others; all are texts except for the truth value `apply` of a plugin and the mapping `properties`
of a project summary.
-/
namespace BuildScript

def Property.ofFields (fields : Fields) : Checked Property :=
  (((fields.onlyNamed ["key", "value"]).both (fields.required "key" Value.readText)).both
    (fields.optional "value" [] Value.readText)).map fun ((_, key), value) => ⟨key, value⟩

def Dependency.ofFields (fields : Fields) : Checked Dependency :=
  let text (name : String) := fields.optional name [] Value.readText
  (((((fields.onlyNamed ["group", "name", "version", "scope", "raw"]).both
    (text "group")).both (fields.required "name" Value.readText)).both
    (text "version")).both ((text "scope").both (text "raw"))).map
      fun ((((_, group), name), version), scope, raw) => ⟨group, name, version, scope, raw⟩

def Plugin.ofFields (fields : Fields) : Checked Plugin :=
  (((fields.onlyNamed ["id", "version", "apply"]).both
    (fields.required "id" Value.readText)).both
    ((fields.optional "version" [] Value.readText).both
      (fields.optional "apply" true Value.readBool))).map
      fun ((_, id), version, apply) => ⟨id, version, apply⟩

def Repository.ofFields (fields : Fields) : Checked Repository :=
  (((fields.onlyNamed ["name", "type", "url"]).both
    (fields.required "name" Value.readText)).both
    ((fields.optional "type" "maven".toList Value.readText).both
      (fields.optional "url" [] Value.readText))).map
      fun ((_, name), type, url) => ⟨name, type, url⟩

def Task.ofFields (fields : Fields) : Checked Task :=
  (((fields.onlyNamed ["name", "type"]).both (fields.required "name" Value.readText)).both
    (fields.optional "type" [] Value.readText)).map fun ((_, name), type) => ⟨name, type⟩

def Value.readTexts : Value → Checked (List (Text × Text))
  | .mapping fields =>
    Checked.all (fields.map fun (key, value) =>
      let name : Checked Text := match key with
        | .text name => .ok name
        | key => (Checked.fail .notText).under key.pathPart
      name.both (value.readText.under key.pathPart))
  | _ => .fail .notMapping

def ProjectSummary.ofFields (fields : Fields) : Checked ProjectSummary :=
  let text (name : String) := fields.optional name [] Value.readText
  ((((fields.onlyNamed ["group", "version", "description", "source_compatibility",
      "target_compatibility", "properties"]).both (text "group")).both
    ((text "version").both (text "description"))).both
    (((text "source_compatibility").both (text "target_compatibility")).both
      (fields.optional "properties" [] Value.readTexts))).map
      fun (((_, group), version, description), (source, target), properties) =>
        ⟨group, version, description, source, target, properties⟩

def Declaration.ofFields (kind : Kind) (fields : Fields) : Checked Declaration :=
  match kind with
  | .property => (Property.ofFields fields).map property
  | .dependency => (Dependency.ofFields fields).map dependency
  | .plugin => (Plugin.ofFields fields).map plugin
  | .repository => (Repository.ofFields fields).map repository
  | .task => (Task.ofFields fields).map task

end BuildScript
