import BuildScript.Settings
/-!
# Loading settings

A settings file holds a document with a mapping at the top; a file without a document, or with an
empty value in it, counts as an empty mapping, and so does a file that is not there. The mapping is
merged over the template, checked, and read as settings.

**What a loader brings.** How a document is written, which fields make settings, and the words in
which either is refused are not decided here: a `Loader` brings them along. Whatever is said about
loading is said for every loader.

**Failures.** A fault is reported when it is the author's of the settings file. That the reader of
documents gave up is not, nor is a log level without a name, which is only found out when it is
asked for.
-/
namespace BuildScript

/-- Why the bytes of a file stand for no value. -/
inductive DocumentFault where
  /-- They are no well-formed document; the details say where. -/
  | malformed (details : Text)
  /-- The reader gave up for another reason, such as bytes that are no text. -/
  | unreadable (reason : Text)
deriving DecidableEq, Repr

/-- Fields that make no settings: the complaints about them, and how they are put in words. -/
structure Refusal where
  complaints : List Complaint
  wording : Text
deriving DecidableEq, Repr

/-- Why settings cannot be used. -/
inductive SettingsFault where
  | malformed (details : Text)
  | unreadable (reason : Text)
  | notMapping
  | invalid (refusal : Refusal)
  | unknownLevel (level : Text)
deriving DecidableEq, Repr

namespace SettingsFault

def ofDocument : DocumentFault → SettingsFault
  | .malformed details => malformed details
  | .unreadable reason => unreadable reason

/-- Whether a fault is reported when it is met. -/
def isReported : SettingsFault → Bool
  | malformed _ | notMapping | invalid _ => true
  | unreadable _ | unknownLevel _ => false

def message : SettingsFault → Text
  | malformed details => "Failed to parse config: ".toList ++ details
  | unreadable reason => reason
  | notMapping => "Configuration must be a mapping at the top level.".toList
  | invalid refusal => "Invalid configuration: ".toList ++ refusal.wording
  | unknownLevel level => "Unknown logging level: ".toList ++ level

def complaints? : SettingsFault → Option (List Complaint)
  | invalid refusal => some refusal.complaints
  | _ => none

end SettingsFault

namespace Settings

/-- What loading takes from elsewhere. -/
structure Loader where
  /-- The value that the document in a file stands for, null if there is no document. It is given
  the bytes, since it may find a fault before it has decoded all of them. -/
  document : ByteArray → Except DocumentFault Value
  /-- Reads fields as settings, or refuses them. -/
  validate : Fields → Except Refusal Settings

namespace Loader

variable (loader : Loader)

/-- The fields of a settings file, merged over the template (`load_config`). -/
def loadFields : Option ByteArray → Except SettingsFault Fields
  | none => .ok template
  | some content =>
    match loader.document content with
    | .error fault => .error (.ofDocument fault)
    | .ok value =>
      if value.isEmpty then .ok template
      else
        match value with
        | .mapping fields => .ok (merge template fields)
        | _ => .error .notMapping

/-- The settings in the content of a file, if there is one (`load_settings`). -/
def load (content : Option ByteArray) : Except SettingsFault Settings := do
  let fields ← loader.loadFields content
  (loader.validate fields).mapError .invalid

end Loader

/-- The number of the log level that is set (`configure_logging`). -/
def levelNumber (settings : Settings) : Except SettingsFault Nat :=
  match LoggingSettings.levelNumber? settings.logging.level with
  | some n => .ok n
  | none => .error (.unknownLevel settings.logging.level)

end Settings

end BuildScript
