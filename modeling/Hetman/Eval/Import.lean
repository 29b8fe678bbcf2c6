import Hetman.Eval.Call
import Hetman.Parser.Statement
import Hetman.Token.Lexer

/-!
Importing libraries and files.

A file is run once: its path in plain form is remembered before it is read.
While it runs, its own folder is the one that imports are looked up from.
-/

namespace Hetman.Eval

def lexFault (path : String) : Lexer.Fault → Fault
  | .digits count => .value (.numeralDigits count)
  | fault => .script (.importing (.malformed path fault.message))

def stopFault (path : String) : Parser.Stop → Fault
  | .noStarter => .script (.importing (.malformed path Parser.Stop.noStarter.message))
  | .noToken .kind => .attribute "NoneType" "type"
  | .noToken .value => .attribute "NoneType" "value"
  | .outOfRange => .outOfRange
  | .noProduction name => .attribute "Parser" name
  | .exhausted => .tooDeep

def readProgram (strict : Bool) (dialect : Option Dialect) (path code : String) :
    Except Fault Node :=
  let lexed := lex code
  match lexed.fault with
  | some fault => .error (lexFault path fault)
  | none =>
    let outcome := Parser.runProgram
      { tokens := lexed.tokens.toArray, strict, dialect := if strict then dialect else none }
    match outcome.node with
    | .error stop => .error (stopFault path stop)
    | .ok node =>
      if outcome.state.problems.isEmpty then .ok node
      else .error (.script (.importing
        (.problems path (outcome.state.problems.map (·.message)))))

def importPath (s : Session) (path : String) : String :=
  let cwd := Path.ofNames s.files.cwd
  let path := match s.folder with
    | some folder => if folder.isEmpty then path else Path.join folder path
    | none => path
  Path.normalize (Path.join cwd path)

def importText (files : Files) (path : String) : Except Fault String :=
  match files.read path with
  | .error .nullByte => .error (.value .nullByte)
  | .error fault => .error (.script (.importing (.unreadable path (fault.message path))))
  | .ok content =>
    match Files.textOf content with
    | .ok text => .ok text
    | .error fault => .error (.decoding fault.message)

/-- Makes a new library object and binds the library's name to it. -/
def importLibrary (lib : Library) : Eval Unit := do
  let ident ← freshIdent
  modify fun s => match lib with
    | .math => { s with mathIdent := ident }
    | .hash => { s with hashIdent := ident }
  bind_ lib.name (.library lib ident)

/-- It has to be there, and to be named like a program. -/
def checkImport (files : Files) (full path : String) : Except Fault Unit :=
  if !files.exists? full then .error (.script (.importing (.missing full)))
  else if !full.endsWith ".kozak" then .error (.script (.importing (.extension path)))
  else .ok ()

def inFolder (folder : String) (x : Eval Value) : Eval Unit := do
  let before := (← get).folder
  modify fun s => { s with folder := some folder }
  let outcome ← attempt x
  modify fun s => { s with folder := before }
  let _ ← conclude outcome

def runImport (ev : Node → Eval Value) (full path : String) : Eval Unit := do
  let s ← get
  if s.imported.contains full then return
  else
    lift (checkImport s.files full path)
    modify fun s => { s with imported := s.imported ++ [full] }
    let code ← lift (importText s.files full)
    let program ← lift (readProgram s.strict s.dialect full code)
    inFolder (Path.folder full) (ev program)

def importValue (ev : Node → Eval Value) (target : Value) : Eval Value := do
  match target with
  | .text path =>
    match Library.ofName? path with
    | some lib => importLibrary lib
    | none => runImport ev (importPath (← get) path) path
    return .none
  | v => reject (.importing (.pathType v.typeName))

end Hetman.Eval
