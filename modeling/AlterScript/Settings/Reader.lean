/-
  Reading settings.

  Settings are records of one another in any format that has records, truth values and strings.
  Unknown names are ignored; a known setting of another kind makes the settings unreadable.
-/
import AlterScript.Json.Record
import AlterScript.Settings.Basic
import AlterScript.Yaml.Basic

namespace AlterScript

/-- What a format says of its values. -/
structure SettingsFormat (β : Type) where
  /-- The attributes of a record with given names. -/
  record? : List String → β → Option (Entries β)
  /-- Whether a value is null; nothing for one that is neither null nor anything else. -/
  isNull? : β → Option Bool
  bool? : β → Option Bool
  string? : β → Option String

namespace SettingsFormat

/-- Settings in JSON. -/
def json : SettingsFormat Json where
  record? := Json.fullRecord?
  isNull? := fun j => some j.isNull
  bool? := Json.bool?
  string? := Json.string?

/-- Settings in YAML, in a document with these values for its aliases. -/
def yaml (anchored : Yaml.Anchored) : SettingsFormat Yaml where
  record? := anchored.record?
  isNull? := anchored.isNull?
  bool? := anchored.bool?
  string? := anchored.string?

variable {β α : Type}

/-- A setting that may be missing or null. -/
def optional (f : SettingsFormat β) (read : β → Option α) : Option β → Option (Option α)
  | none => some none
  | some v => (f.isNull? v).bind fun isNull => if isNull then some none else (read v).map some

def keyspaces? (f : SettingsFormat β) (v : β) : Option KeyspaceSettings := do
  let es ← f.record? ["skip_modified"] v
  let skip ← f.optional f.bool? (es.find? "skip_modified")
  return { skip }

def script? (f : SettingsFormat β) (v : β) : Option ScriptSettings := do
  let es ← f.record? ["apply_drop_statements", "old_model", "db_version", "containers"] v
  let applyDrops ← f.optional f.bool? (es.find? "apply_drop_statements")
  let legacy ← f.optional f.bool? (es.find? "old_model")
  let version ← f.optional f.string? (es.find? "db_version")
  let keyspaces ← f.optional f.keyspaces? (es.find? "containers")
  return { applyDrops, legacy, version, keyspaces }

def settings? (f : SettingsFormat β) (v : β) : Option Settings := do
  let es ← f.record? ["script"] v
  let script ← f.optional f.script? (es.find? "script")
  return { script }

end SettingsFormat

namespace Settings

/-- The settings that a JSON value holds. -/
def ofJson? (j : Json) : Option Settings := SettingsFormat.json.settings? j

/-- The settings that a YAML document holds. -/
def ofYaml? (d : Yaml.Document) : Option Settings :=
  (SettingsFormat.yaml d.anchored).settings? d.root

end Settings

end AlterScript
