import Hetman.Numeral

/-!
Tokens.

A keyword stands for its meaning: the four dialects spell it differently, and
the token keeps the spelling beside the keyword. Everything else is a number,
a quoted text, an operator, a name or a punctuation mark. Every token carries
the line and column at which it starts, both counted from one.
-/

namespace Hetman

inductive Keyword where
  | start | print | input | ret | function
  | forLoop | whileLoop | yes | no
  | intType | floatType | textType | boolType
  | ifBranch | elseIf | elseBranch
  | length | each
  | classDef | constructor | new | this | super
  | tryBlock | catchBlock | finallyBlock | throw | exit | importFile
  | publicAccess | privateAccess | protectedAccess | friend | friendClass
  deriving DecidableEq, Inhabited

def Keyword.name : Keyword → String
  | .start => "Hetman"
  | .print => "Spivaty"
  | .input => "Slukhai"
  | .ret => "Povernuty"
  | .function => "Zavdannya"
  | .forLoop => "Dlya"
  | .whileLoop => "Doki"
  | .yes => "Pravda"
  | .no => "Nepravda"
  | .intType => "Chyslo"
  | .floatType => "DroboveChyslo"
  | .textType => "Ryadok"
  | .boolType => "Logika"
  | .ifBranch => "Yakscho"
  | .elseIf => "AboYakscho"
  | .elseBranch => "Inakshe"
  | .length => "Dovzhyna"
  | .each => "KOZHEN"
  | .classDef => "Klas"
  | .constructor => "Tvir"
  | .new => "NEW"
  | .this => "THIS"
  | .super => "SUPER"
  | .tryBlock => "Sprobuy"
  | .catchBlock => "Piymat"
  | .finallyBlock => "Vkintsi"
  | .throw => "Kydaty"
  | .exit => "Vykhid"
  | .importFile => "Importuvaty"
  | .publicAccess => "PUBLIC"
  | .privateAccess => "PRIVATE"
  | .protectedAccess => "PROTECTED"
  | .friend => "FRIEND"
  | .friendClass => "FRIEND_CLASS"

def Keyword.all : List Keyword :=
  [.start, .print, .input, .ret, .function, .forLoop, .whileLoop, .yes, .no,
   .intType, .floatType, .textType, .boolType, .ifBranch, .elseIf, .elseBranch,
   .length, .each, .classDef, .constructor, .new, .this, .super, .tryBlock,
   .catchBlock, .finallyBlock, .throw, .exit, .importFile, .publicAccess,
   .privateAccess, .protectedAccess, .friend, .friendClass]

/-- `other` is a kind that no source text has. -/
inductive Kind where
  | keyword (k : Keyword)
  | number | string | op | ident
  | dot | lparen | rparen | lbrace | rbrace | lbracket | rbracket
  | semicolon | comma | colon
  | other (name : String)
  deriving DecidableEq, Inhabited

def Kind.name : Kind → String
  | .keyword k => k.name
  | .number => "NUMBER"
  | .string => "STRING"
  | .op => "OP"
  | .ident => "ID"
  | .dot => "DOT"
  | .lparen => "LPAREN"
  | .rparen => "RPAREN"
  | .lbrace => "LBRACE"
  | .rbrace => "RBRACE"
  | .lbracket => "LBRACKET"
  | .rbracket => "RBRACKET"
  | .semicolon => "SEMICOLON"
  | .comma => "COMMA"
  | .colon => "COLON"
  | .other name => name

def Kind.all : List Kind :=
  Keyword.all.map .keyword ++
    [.number, .string, .op, .ident, .dot, .lparen, .rparen, .lbrace, .rbrace,
     .lbracket, .rbracket, .semicolon, .comma, .colon]

def Kind.ofName (name : String) : Kind :=
  (Kind.all.find? fun kind => kind.name == name).getD (.other name)

inductive Token.Payload where
  | text (s : String)
  | number (n : Numeral)
  deriving DecidableEq, Inhabited

structure Token where
  kind : Kind
  payload : Token.Payload
  line : Nat
  column : Nat
  deriving DecidableEq, Inhabited

namespace Token

def hasText (t : Token) (s : String) : Bool :=
  t.payload == .text s

def text? (t : Token) : Option String :=
  match t.payload with
  | .text s => some s
  | .number _ => none

end Token

end Hetman
