import BuildScript.Index
import BuildScript.Text.Quoted
/-!
# Parsing

A script is read line by line. A line that is blank is skipped, and so is one that begins with a
comment mark if comments are to be skipped; on any other line the first recognizer with a sighting
decides, so a line makes at most one entry.

**Binding.** A sighting becomes an entry only if its bounds lie within the line and its text is
what the script holds there. Otherwise it is dropped with a warning.

Results:
* `parse_lines`, `parse_text`: an index holds the script it was parsed from.
-/
namespace BuildScript

/-- How a script is read. -/
structure ParseOptions where
  recognizers : List Recognizer := Recognizer.default
  skipComments : Bool := true

namespace ParseOptions

/-- Leaves only the recognizers of the given kinds. -/
def restrictTo (options : ParseOptions) (kinds : List Kind) : ParseOptions :=
  { options with recognizers := options.recognizers.filter fun r => r.kind ∈ kinds }

end ParseOptions

namespace Index

/-- What a line that is a comment begins with. -/
def commentMarks : List Text := ["//".toList, "/*".toList, "*".toList]

/-- Whether a line is left unread (`_is_skipped`). -/
def isSkipped (skipComments : Bool) (line : Text) : Bool :=
  let body := Text.trim line
  body.isEmpty || (skipComments && commentMarks.any fun mark => Text.startsWith mark body)

/-- The warning about a sighting whose bounds leave its line. -/
def outsideWarning (number : Nat) (line : Text) (s : Sighting) : Text :=
  "line ".toList ++ Text.ofNat number ++ ": ".toList ++ s.declaration.kind.name ++
    " recognizer reported span [".toList ++ Text.ofInt s.start ++ ", ".toList ++
    Text.ofInt s.stop ++ ") outside a line of length ".toList ++ Text.ofNat line.length ++
    "; entity dropped".toList

/-- The warning about a sighting whose text is not what the script holds. -/
def mismatchWarning (number : Nat) (offset : Int) (actual : Text) (s : Sighting) : Text :=
  "line ".toList ++ Text.ofNat number ++ ": ".toList ++ s.declaration.kind.name ++
    " text ".toList ++ Text.quoted s.text ++ " does not occur at offset ".toList ++
    Text.ofInt offset ++ " (found ".toList ++ Text.quoted actual ++ "); entity dropped".toList

/-- Ties a sighting on a line to the script, or says why it is dropped (`_bind`). -/
def bindSighting (text : Text) (number lineStart : Nat) (line : Text) (s : Sighting) :
    Except Text Entry :=
  if 0 ≤ s.start ∧ s.start ≤ s.stop ∧ s.stop ≤ line.length then
    let region := Region.onLine number lineStart s.start s.stop
    let actual := Text.slice text region.start region.stop
    if actual = s.text then .ok ⟨s.declaration, region, actual⟩
    else .error (mismatchWarning number region.start actual s)
  else .error (outsideWarning number line s)

/-- What a line contributes: an entry, a warning, or nothing. -/
def readLine (options : ParseOptions) (text : Text) (number lineStart : Nat) (line : Text) :
    Option (Except Text Entry) :=
  if isSkipped options.skipComments line then none
  else
    (Recognizer.firstSighting? options.recognizers line).map
      (bindSighting text number lineStart line)

/-- The contributions of consecutive lines, the first of them having the given number and start. -/
def readLines (options : ParseOptions) (text : Text) :
    (number lineStart : Nat) → List Text → List (Except Text Entry)
  | _, _, [] => []
  | number, lineStart, line :: rest =>
    (readLine options text number lineStart line).toList ++
      readLines options text (number + 1) (lineStart + line.length + 1) rest

/-- The index of a script (`SourceMappedParser.parse`). -/
def parse (options : ParseOptions) (text : Text) : Index :=
  let lines := Text.lines text
  let read := readLines options text 1 0 lines
  { text, lines
    entries := read.filterMap fun r => match r with | .ok entry => some entry | .error _ => none
    warnings := read.filterMap fun r => match r with | .ok _ => none | .error w => some w }

@[simp] theorem parse_text (options : ParseOptions) (text : Text) :
    (parse options text).text = text := rfl

@[simp] theorem parse_lines (options : ParseOptions) (text : Text) :
    (parse options text).lines = Text.lines text := rfl

end Index

end BuildScript
