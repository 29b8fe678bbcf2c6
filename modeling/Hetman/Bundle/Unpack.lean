import Hetman.Bundle
import Hetman.World

/-!
Taking a program and its data files out of the executable that runs.

The data files are written to a new temporary folder, each at its destination.
-/

namespace Hetman

/-- The executable that runs. -/
structure Host where
  executable : String
  /-- Whether the executable carries the interpreter itself; only then is a
  script looked for. -/
  standalone : Bool := false
  temporary : String := "/tmp"
  deriving Inhabited

inductive UnpackFault where
  | file (fault : PathFault) (path : String)
  /-- A destination is no text. -/
  | destination (typeName : String)
  deriving Inhabited

namespace UnpackFault

def message : UnpackFault → String
  | .file fault path => fault.message path
  | .destination typeName =>
    s!"join() argument must be str, bytes, or os.PathLike object, not '{typeName}'"

end UnpackFault

namespace Bundle

def executableBytes (host : Host) (w : World) : Except PathFault (List UInt8) := do
  return (← w.files.read host.executable).toList

def extractScript (host : Host) (w : World) : Option String × World :=
  if host.standalone then
    match executableBytes host w with
    | .error fault =>
      (none, w.printLine ("Error extracting embedded script: " ++ fault.message host.executable))
    | .ok content =>
      match script content with
      | .absent => (none, w)
      | .unterminated => (none, w.printLine "Warning: Could not find script end marker")
      | .found text => (some text, w)
  else (none, w)

def extractData (host : Host) (w : World) : Option (List Entry) × World :=
  let failed (reason : String) : Option (List Entry) × World :=
    (none, w.printLine ("Warning: Could not extract bundled data: " ++ reason))
  match executableBytes host w with
  | .error fault => failed (fault.message host.executable)
  | .ok content =>
    match data content with
    | .ok found => (found, w)
    | .error fault => failed fault.message

/-! ## Writing the data files -/

def nameLetters : Array Char :=
  "abcdefghijklmnopqrstuvwxyz0123456789_".toList.toArray

def randomLetters : (count : Nat) → StdGen → List Char × StdGen
  | 0, gen => ([], gen)
  | count + 1, gen =>
    let (n, gen) := randNat gen 0 (nameLetters.size - 1)
    let (rest, gen) := randomLetters count gen
    (nameLetters.getD n '_' :: rest, gen)

/-- Tries at most `fuel` names. -/
def temporaryFolder (host : Host) : (fuel : Nat) → World → Except UnpackFault String × World
  | 0, w => (.error (.file .alreadyThere host.temporary), w)
  | fuel + 1, w =>
    let (letters, random) := randomLetters 8 w.random
    let w := { w with random }
    let path := Path.join host.temporary ("kozak_data_" ++ String.ofList letters)
    match w.files.makeFolder path with
    | .ok files => (.ok path, { w with files })
    | .error .alreadyThere => temporaryFolder host fuel w
    | .error fault => (.error (.file fault path), w)

def writeEntry (folder : String) (entry : Entry) (w : World) : Except UnpackFault Unit × World :=
  match entry.destination with
  | .text destination =>
    let path := Path.join folder destination
    match w.files.makeFolders (path.length + 1) (Path.folder path) with
    | .error (fault, path) => (.error (.file fault path), w)
    | .ok files =>
      match files.writeBytes path ⟨entry.content.toArray⟩ with
      | .error fault => (.error (.file fault path), { w with files })
      | .ok files => (.ok (), { w with files }.printLine s!"  • Extracted: {destination}")
  | d => (.error (.destination d.typeName), w)

def writeEntries (folder : String) : List Entry → World → Except UnpackFault Unit × World
  | [], w => (.ok (), w)
  | entry :: rest, w =>
    match writeEntry folder entry w with
    | (.ok (), w) => writeEntries folder rest w
    | failed => failed

/-- Writes the data files to a temporary folder, if there are any, and returns its path. -/
def unpack (host : Host) (w : World) : Except UnpackFault (Option String) × World :=
  match extractData host w with
  | (some (entry :: rest), w) =>
    match temporaryFolder host 100 w with
    | (.error fault, w) => (.error fault, w)
    | (.ok folder, w) =>
      let w := w.printLine s!"Extracting bundled data to: {folder}"
      match writeEntries folder (entry :: rest) w with
      | (.ok (), w) => (.ok (some folder), w)
      | (.error fault, w) => (.error fault, w)
  | (_, w) => (.ok none, w)

end Bundle

end Hetman
