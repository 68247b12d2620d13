import BuildScript.Settings.Load
import BuildScript.Yaml.Node
/-!
# Settings written in YAML

The loader that comes with the library. A document is UTF-8 in the part of YAML that settings are
written in; what that part leaves out is refused like anything that is not well-formed. Fields make
settings when they can be read as their sections, and they are refused with a line for each
complaint.

Results:
* `document_yamlLoader`: the value of a text that was encoded.
-/
namespace BuildScript

def Yaml.Fault.message : Yaml.Fault → Text
  | malformed => "not a well-formed YAML document".toList
  | tooDeep => "collections are nested too deeply".toList
  | codeBeyondLast => "chr() arg not in range(0x110000)".toList
  | codeOverflow => "a code has more than 31 binary digits".toList
  | noDigits base =>
    "invalid literal for int() with base ".toList ++ Text.ofNat base ++ ": ''".toList
  | tooManyDigits count =>
    "Exceeds the limit (".toList ++ Text.ofNat Yaml.mostDigits ++
      " digits) for integer string conversion: value has ".toList ++ Text.ofNat count ++
      " digits; use sys.set_int_max_str_digits() to increase the limit".toList
  | noSuchMoment fault => fault.message

/-- The fault of a document with a text that cannot be read. -/
def Yaml.Fault.ofDocument : Yaml.Fault → DocumentFault
  | malformed => .malformed malformed.message
  | fault => .unreadable fault.message

namespace Settings

/-- Line breaks of all three common forms as line feeds. -/
def unifyBreaks : Text → Text
  | [] => []
  | '\r' :: '\n' :: s => '\n' :: unifyBreaks s
  | c :: s => (if c = '\r' then '\n' else c) :: unifyBreaks s

/-- Why bytes that are not UTF-8 stand for nothing. -/
def notDecoded : Text := "not encoded in UTF-8".toList

/-- The value that bytes stand for. -/
def readDocument (content : ByteArray) : Except DocumentFault Value :=
  match String.fromUTF8? content with
  | none => .error (.unreadable notDecoded)
  | some s => (Yaml.read (unifyBreaks s.toList)).mapError Yaml.Fault.ofDocument

/-- A complaint on one line. -/
def complaintLine (c : Complaint) : Text :=
  Text.joinWith ['.'] (c.path.map (·.written)) ++ ": ".toList ++ c.kind.message

def refusal (complaints : List Complaint) : Refusal where
  complaints := Complaint.sorted complaints
  wording := Text.joinWith "; ".toList ((Complaint.sorted complaints).map complaintLine)

/-- The loader that comes with the library. -/
def yamlLoader : Loader where
  document := readDocument
  validate fields := (ofFields fields).mapError refusal

theorem document_yamlLoader {s : String} {value : Value}
    (h : Yaml.read (unifyBreaks s.toList) = .ok value) :
    yamlLoader.document s.toUTF8 = .ok value := by
  have hdecoded : String.fromUTF8? s.toUTF8 = some s := dif_pos s.isValidUTF8
  show readDocument s.toUTF8 = _
  rw [readDocument, hdecoded]
  dsimp only
  rw [h]
  rfl

end Settings

end BuildScript
