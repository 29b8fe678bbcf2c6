import Hetman.Bytes
import Hetman.Json
import Hetman.Text.Newline
import Hetman.Text.Utf8
import Hetman.Tree.Outline

/-!
Programs carried inside an executable.

After the code of the executable stand a script and, if the program has data
files, a list of their destinations in JSON and their contents in the same
order. Each part stands between a mark that opens it and one that closes it.
Blanks at either end of a part do not belong to it.
-/

namespace Hetman.Bundle

/-! ## Marks -/

def mark (name : String) : List UInt8 :=
  s!"---{name}---".toUTF8.toList

def scriptStart : List UInt8 := mark "KOZAK_PAYLOAD_START"

def scriptEnd : List UInt8 := mark "KOZAK_PAYLOAD_END"

def manifestStart : List UInt8 := mark "DATA_MANIFEST_START"

def manifestEnd : List UInt8 := mark "DATA_MANIFEST_END"

def fileStart : List UInt8 := mark "DATA_FILE_START"

def fileEnd : List UInt8 := mark "DATA_FILE_END"

/-! ## The script -/

/-- The script in an executable: none, one without an end, or its text. -/
inductive Script where
  | absent
  | unterminated
  | found (text : String)
  deriving DecidableEq, Inhabited

/-- Bytes as text, with U+FFFD for what is no character and with line ends unified. -/
def scriptText (bytes : List UInt8) : String :=
  let body := Bytes.strip bytes
  String.ofList (Text.unifyNewlines (Utf8.decodeLossy body.length body))

/-- From the first opening mark to the next closing mark. -/
def script (content : List UInt8) : Script :=
  match Bytes.cut? scriptStart content with
  | none => .absent
  | some (_, rest) =>
    match Bytes.cut? scriptEnd rest with
    | none => .unterminated
    | some (body, _) => .found (scriptText body)

/-! ## The data files -/

/-- A data file. Its destination should be a text. -/
structure Entry where
  destination : Datum
  content : List UInt8
  deriving Inhabited

/-- Why the data files cannot be found. -/
inductive DataFault where
  | noMark
  | decoding (fault : Utf8.Fault)
  | manifest (fault : Json.Fault)
  /-- The list of destinations is no list. -/
  | notIterable (typeName : String)
  /-- An item of the list has no parts. -/
  | notSubscriptable (typeName : String)
  /-- An item of the list is a text. -/
  | textItem
  /-- An item of the list is a list. -/
  | listItem
  /-- An item of the list has no destination. -/
  | noDestination
  deriving Inhabited

namespace DataFault

def message : DataFault → String
  | .noMark => "subsection not found"
  | .decoding fault => fault.message
  | .manifest fault => fault.message
  | .notIterable typeName => s!"'{typeName}' object is not iterable"
  | .notSubscriptable typeName => s!"'{typeName}' object is not subscriptable"
  | .textItem => "string indices must be integers, not 'str'"
  | .listItem => "list indices must be integers or slices, not str"
  | .noDestination => "'destination'"

end DataFault

def manifestItems : Datum → Except DataFault (List Datum)
  | .list items => .ok items
  | .dict entries => .ok (entries.map (·.1))
  | .text s => .ok (s.toList.map fun c => .text (String.singleton c))
  | d => .error (.notIterable d.typeName)

def destination : Datum → Except DataFault Datum
  | .dict entries =>
    match entries.find? fun e => match e.1 with
      | .text key => key == "destination"
      | _ => false with
    | some (_, value) => .ok value
    | none => .error .noDestination
  | .text _ => .error .textItem
  | .list _ => .error .listItem
  | d => .error (.notSubscriptable d.typeName)

def cut (mark bytes : List UInt8) : Except DataFault (List UInt8 × List UInt8) :=
  match Bytes.cut? mark bytes with
  | some parts => .ok parts
  | none => .error .noMark

def entries : List Datum → List UInt8 → Except DataFault (List Entry)
  | [], _ => .ok []
  | item :: items, bytes => do
    let (_, bytes) ← cut fileStart bytes
    let (content, bytes) ← cut fileEnd bytes
    let destination ← destination item
    return { destination, content := Bytes.strip content } :: (← entries items bytes)

/-- There are no data files without an opening mark of the list. The closing mark is the first one
in the executable. -/
def data (content : List UInt8) : Except DataFault (Option (List Entry)) := do
  match Bytes.find? manifestStart content with
  | none => return none
  | some start =>
    let (before, _) ← cut manifestEnd content
    let body := Bytes.strip (before.drop (start + manifestStart.length))
    match Utf8.decode ⟨body.toArray⟩ with
    | .error fault => throw (.decoding fault)
    | .ok text =>
      match Json.read text with
      | .error fault => throw (.manifest fault)
      | .ok manifest => return some (← entries (← manifestItems manifest) content)

end Hetman.Bundle
