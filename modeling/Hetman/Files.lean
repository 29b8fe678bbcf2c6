import Hetman.Text.Newline
import Hetman.Text.Quoted
import Hetman.Text.Utf8

/-!
Files and folders.

A path is walked name by name from the root or from the working folder. A file
holds bytes; text is written to it as UTF-8 and read with line ends unified.
-/

namespace Hetman

inductive PathFault where
  | missing | alreadyThere | notFolder | isFolder | nameTooLong | nullByte
  deriving DecidableEq, Inhabited

namespace PathFault

/-- A path with a null character is refused before it gets a number. -/
def reason : PathFault → Option Nat × String
  | .missing => (some 2, "No such file or directory")
  | .alreadyThere => (some 17, "File exists")
  | .notFolder => (some 20, "Not a directory")
  | .isFolder => (some 21, "Is a directory")
  | .nameTooLong => (some 36, "File name too long")
  | .nullByte => (none, "embedded null byte")

def message (fault : PathFault) (path : String) : String :=
  match fault.reason with
  | (some number, wording) => s!"[Errno {number}] {wording}: {Text.quoted path}"
  | (none, wording) => wording

end PathFault

/-! ## Paths -/

namespace Path

/-- Two slashes enclose an empty name. -/
def names (path : String) : List String :=
  (split path.toList).map String.ofList
where
  split : List Char → List (List Char)
    | [] => [[]]
    | '/' :: rest => [] :: split rest
    | c :: rest =>
      match split rest with
      | [] => [[c]]
      | first :: more => (c :: first) :: more

def isAbsolute (path : String) : Bool :=
  path.startsWith "/"

def join (folder path : String) : String :=
  if isAbsolute path then path
  else if folder.isEmpty || folder.endsWith "/" then folder ++ path
  else folder ++ "/" ++ path

/-- Names without empty ones and dots; two dots take back the name before. -/
def collapse (names : List String) : List String :=
  (names.foldl (fun taken name =>
    if name = "" || name = "." then taken
    else if name = ".." then taken.drop 1
    else name :: taken) []).reverse

def ofNames (names : List String) : String :=
  "/" ++ String.intercalate "/" names

/-- A path from the root in its plainest form. -/
def normalize (path : String) : String :=
  let doubled := path.startsWith "//" && !path.startsWith "///"
  (if doubled then "/" else "") ++ ofNames (collapse (names path))

/-- A path up to its last name, without the slashes between, and that name. -/
def splitLast (path : String) : String × String :=
  let chars := path.toList
  let last := (chars.reverse.takeWhile (· ≠ '/')).reverse
  let head := chars.take (chars.length - last.length)
  let plain := (head.reverse.dropWhile (· = '/')).reverse
  (String.ofList (if plain.isEmpty then head else plain), String.ofList last)

def folder (path : String) : String :=
  (splitLast path).1

end Path

/-! ## The file system -/

/-- Folders and files by their names from the root. -/
structure Files where
  folders : List (List String) := [[]]
  files : List (List String × ByteArray) := []
  cwd : List String := []
  deriving Inhabited

namespace Files

def file? (f : Files) (at_ : List String) : Option ByteArray :=
  (f.files.find? fun e => e.1 == at_).map (·.2)

def isFolder (f : Files) (at_ : List String) : Bool :=
  f.folders.contains at_

def addFolder (f : Files) (at_ : List String) : Files :=
  let above := (List.range (at_.length + 1)).map fun n => at_.take n
  { f with folders := f.folders ++ above.filter fun p => !f.isFolder p }

def setFile (f : Files) (at_ : List String) (content : ByteArray) : Files :=
  { f with files := put f.files }
where
  put : List (List String × ByteArray) → List (List String × ByteArray)
    | [] => [(at_, content)]
    | (name, old) :: rest =>
      if name = at_ then (name, content) :: rest else (name, old) :: put rest

def addFile (f : Files) (at_ : List String) (content : ByteArray) : Files :=
  (f.addFolder at_.dropLast).setFile at_ content

/-- Walks names down from a folder. What stands last need not exist. -/
def walk (f : Files) (at_ : List String) : List String → Except PathFault (List String)
  | [] => .ok at_
  | name :: rest =>
    if f.isFolder at_ then
      if name.utf8ByteSize > 255 then .error .nameTooLong
      else if name = "" || name = "." then walk f at_ rest
      else if name = ".." then walk f at_.dropLast rest
      else walk f (at_ ++ [name]) rest
    else if (f.file? at_).isSome then .error .notFolder
    else .error .missing

def resolve (f : Files) (path : String) : Except PathFault (List String) :=
  if path.toList.contains '\x00' then .error .nullByte
  else if path = "" then .error .missing
  else if path.utf8ByteSize ≥ 4096 then .error .nameTooLong
  else f.walk (if Path.isAbsolute path then [] else f.cwd) (Path.names path)

def exists? (f : Files) (path : String) : Bool :=
  match f.resolve path with
  | .ok at_ => f.isFolder at_ || (f.file? at_).isSome
  | .error _ => false

def read (f : Files) (path : String) : Except PathFault ByteArray := do
  let at_ ← f.resolve path
  if f.isFolder at_ then throw .isFolder
  match f.file? at_ with
  | some content => return content
  | none => throw .missing

/-- Empty or with what it holds; a path that ends in a slash is none of a file. Returns the file's
names. -/
def create (f : Files) (path : String) (keep : Bool) :
    Except PathFault (List String × Files) := do
  let trailing := path.endsWith "/"
  let plain := if trailing then String.ofList (path.toList.reverse.dropWhile (· = '/')).reverse else path
  let at_ ← f.resolve (if plain.isEmpty then path else plain)
  if trailing || f.isFolder at_ then throw .isFolder
  if !f.isFolder at_.dropLast then throw .missing
  let content := if keep then (f.file? at_).getD ByteArray.empty else ByteArray.empty
  return (at_, f.setFile at_ content)

def appendText (f : Files) (at_ : List String) (text : String) : Files :=
  f.setFile at_ ((f.file? at_).getD ByteArray.empty ++ text.toUTF8)

def isFolderAt (f : Files) (path : String) : Bool :=
  match f.resolve path with
  | .ok at_ => f.isFolder at_
  | .error _ => false

def makeFolder (f : Files) (path : String) : Except PathFault Files := do
  let at_ ← f.resolve path
  if f.isFolder at_ || (f.file? at_).isSome then throw .alreadyThere
  return f.addFolder at_

/-- With those above it that are missing, at most `fuel` of them. A folder that is there already is
no fault. -/
def makeFolders (f : Files) : (fuel : Nat) → (path : String) → Except (PathFault × String) Files
  | 0, path => .error (.missing, path)
  | fuel + 1, path => do
    let (head, last) :=
      match Path.splitLast path with
      | (head, "") => Path.splitLast head
      | parts => parts
    let above := head ≠ "" && last ≠ "" && !f.exists? head
    let f ← if above then
        match makeFolders f fuel head with
        | .error (.alreadyThere, _) => pure f
        | outcome => outcome
      else pure f
    if above && last = "." then return f
    match f.makeFolder path with
    | .ok f => return f
    | .error fault => if f.isFolderAt path then return f else throw (fault, path)

def writeBytes (f : Files) (path : String) (content : ByteArray) : Except PathFault Files := do
  let (at_, f) ← f.create path false
  return f.setFile at_ content

def enter (f : Files) (path : String) : Except PathFault Files := do
  let at_ ← f.resolve path
  if f.isFolder at_ then return { f with cwd := at_ }
  else if (f.file? at_).isSome then throw .notFolder
  else throw .missing

def textOf (content : ByteArray) : Except Utf8.Fault String := do
  return String.ofList (Text.unifyNewlines (← Utf8.decode content).toList)

end Files

end Hetman
