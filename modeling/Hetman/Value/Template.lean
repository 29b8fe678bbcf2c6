import Hetman.Decimal.Fixed
import Hetman.Value.Equality

/-!
Text templates: a text with directives that are filled in from values.

A directive starts with `%`, may name a key of a dictionary in brackets, and
goes on with flags, a width, a precision and the letter of its form; `*` takes
a width or a precision from the values. Every value of a tuple has to be used;
a list or dictionary need not be.
-/

namespace Hetman.Template

/-! ## Directives -/

structure Flags where
  left : Bool := false
  sign : Bool := false
  blank : Bool := false
  alternate : Bool := false
  zero : Bool := false
  deriving DecidableEq, Inhabited

structure Directive where
  flags : Flags := {}
  width : Option Nat := none
  precision : Option Nat := none
  deriving DecidableEq, Inhabited

/-- What is left to read, the place in the template, and what is left to fill
in. -/
structure State where
  rest : List Char
  index : Nat
  values : List Value
  /-- The container that keys are looked up in, if there is one. -/
  mapping : Option Value
  deriving Inhabited

abbrev Reader := StateT State (Except Fault)

def next? : Reader (Option Char) := do
  let s ← get
  match s.rest with
  | [] => return none
  | c :: rest =>
    set { s with rest, index := s.index + 1 }
    return some c

/-- A directive that ends before its letter is incomplete. -/
def next : Reader Char := do
  match ← next? with
  | some c => return c
  | none => throw (.value .formatIncomplete)

def takeValue : Reader Value := do
  let s ← get
  match s.values with
  | [] => throw (.type .formatShortage)
  | v :: values =>
    set { s with values }
    return v

/-- With brackets balanced. -/
def splitKey (depth : Nat) : List Char → Option (List Char × List Char)
  | [] => none
  | c :: rest =>
    match c, depth with
    | ')', 0 => some ([], rest)
    | ')', depth + 1 => (splitKey depth rest).map fun p => (c :: p.1, p.2)
    | '(', depth => (splitKey (depth + 1) rest).map fun p => (c :: p.1, p.2)
    | _, depth => (splitKey depth rest).map fun p => (c :: p.1, p.2)

/-- Looks a key up and makes its value the one to fill in. -/
def takeKey (h : Heap) : Reader Unit := do
  let s ← get
  match s.mapping with
  | none => throw (.type .formatMapping)
  | some mapping =>
    match splitKey 0 s.rest with
    | none => throw (.value .formatKey)
    | some (key, rest) =>
      let key := String.ofList key
      match mapping with
      | .dict ref =>
        match Heap.entryAt? (h.dict ref) (.text key) with
        | some (_, v) =>
          set { s with rest, index := s.index + (s.rest.length - rest.length), values := [v] }
        | none => throw (.missingKey (Text.quoted key))
      | _ => throw (.type (.indices "list" "str"))

/-- Returns the first character after the flags. -/
def takeFlags (fuel : Nat) (flags : Flags) : Reader (Flags × Char) := do
  match fuel with
  | 0 => throw (.value .formatIncomplete)
  | fuel + 1 =>
    let c ← next
    match c with
    | '-' => takeFlags fuel { flags with left := true }
    | '+' => takeFlags fuel { flags with sign := true }
    | ' ' => takeFlags fuel { flags with blank := true }
    | '#' => takeFlags fuel { flags with alternate := true }
    | '0' => takeFlags fuel { flags with zero := true }
    | c => return (flags, c)

/-- From the first digit on; returns the first character after them. -/
def takeNumber (fuel limit : Nat) (fault : Fault) (n : Nat) : Reader (Nat × Char) := do
  match fuel with
  | 0 => throw (.value .formatIncomplete)
  | fuel + 1 =>
    let c ← next
    if c.isDigit then
      let d := c.toNat - 0x30
      if n > (limit - d) / 10 then throw fault
      else takeNumber fuel limit fault (10 * n + d)
    else return (n, c)

def maxWidth : Nat := Nat.pow 2 63 - 1

def maxPrecision : Nat := Nat.pow 2 31 - 1

def takeWidth (fuel : Nat) (flags : Flags) (c : Char) :
    Reader (Flags × Option Nat × Char) := do
  if c = '*' then
    match (← takeValue).int? with
    | none => throw (.type .formatStar)
    | some n =>
      if n > maxWidth || n < -(maxWidth : Int) - 1 then throw (.overflow .fieldWidth)
      else
        let flags := if n < 0 then { flags with left := true } else flags
        return (flags, some n.natAbs, ← next)
  else if c.isDigit then
    let (n, c) ← takeNumber fuel maxWidth (.value .formatWidth) (c.toNat - 0x30)
    return (flags, some n, c)
  else return (flags, none, c)

def takePrecision (fuel : Nat) (c : Char) : Reader (Option Nat × Char) := do
  if c = '.' then
    let c ← next
    if c = '*' then
      match (← takeValue).int? with
      | none => throw (.type .formatStar)
      | some n =>
        if n > maxPrecision || n < -(maxPrecision : Int) - 1 then
          throw (.overflow .fieldPrecision)
        else return (some n.toNat, ← next)
    else if c.isDigit then
      let (n, c) ← takeNumber fuel maxPrecision (.value .formatPrecision) (c.toNat - 0x30)
      return (some n, c)
    else return (some 0, c)
  else return (none, c)

def takeDirective : Reader (Directive × Char) := do
  let fuel := (← get).rest.length + 1
  let (flags, c) ← takeFlags fuel {}
  let (flags, width, c) ← takeWidth fuel flags c
  let (precision, c) ← takePrecision fuel c
  let c ← if c = 'h' || c = 'l' || c = 'L' then next else pure c
  return ({ flags, width, precision }, c)

/-! ## Filling in -/

/-- A text that was made from a value, before it is padded. -/
structure Piece where
  chars : List Char
  /-- Whether it is a number, with a sign of its own. -/
  numeric : Bool := false
  deriving Inhabited

def digitsIn (base n : Nat) : List Char :=
  Nat.toDigits base n

def integerPiece (base : Nat) (mark : List Char) (least : Nat) (n : Int) : List Char :=
  let digits := Decimal.padZeros least (digitsIn base n.natAbs)
  let body := mark ++ digits
  if n < 0 then '-' :: body else body

/-- The integer that a directive for whole numbers shows. -/
def wholeOf (letter : Char) (v : Value) : Except Fault Int :=
  let exact := letter = 'o' || letter = 'x' || letter = 'X'
  let directive := String.singleton letter
  match v with
  | .float x =>
    if exact then .error (.type (.formatInteger directive v.typeName))
    else match Double.truncate? x with
      | some n => .ok n
      | none => .error (if x.isNaN then .value .nanToInt else .overflow .infinityToInt)
  | .nan _ =>
    if exact then .error (.type (.formatInteger directive v.typeName))
    else .error (.value .nanToInt)
  | v =>
    match v.int? with
    | some n => .ok n
    | none =>
      .error (.type (if exact then .formatInteger directive v.typeName
        else .formatReal directive v.typeName))

/-- The number of a surrogate is refused: a text holds characters only, and one with a surrogate
could neither be shown nor written. -/
def charOf (v : Value) : Except Fault Char :=
  match v with
  | .text s =>
    match s.toList with
    | [c] => .ok c
    | _ => .error (.type .formatChar)
  | v =>
    match v.int? with
    | some n =>
      if n < 0 || n > 0x10ffff then .error (.overflow .charCode)
      else if 0xd800 ≤ n && n < 0xe000 then .error (.encoding n.toNat)
      else .ok (Char.ofNat n.toNat)
    | none => .error (.type .formatChar)

/-- A quoted text with all but ASCII escaped. -/
def escapeWide (s : List Char) : List Char :=
  s.flatMap fun c =>
    if c.toNat < 0x80 then [c]
    else if c.toNat < 0x100 then '\\' :: 'x' :: Text.hexDigits 2 c.toNat
    else if c.toNat < 0x10000 then '\\' :: 'u' :: Text.hexDigits 4 c.toNat
    else '\\' :: 'U' :: Text.hexDigits 8 c.toNat

def realPiece (form : Decimal.Form) (upper : Bool) (d : Directive) (v : Value) :
    Except Fault Piece := do
  let chars := Decimal.formatted form d.flags.alternate (d.precision.getD 6) (← Number.realOf v)
  return ⟨if upper then chars.map Char.toUpper else chars, true⟩

def wholePiece (letter : Char) (d : Directive) (v : Value) : Except Fault Piece := do
  let n ← wholeOf letter v
  let least := d.precision.getD 0
  let alternate := d.flags.alternate
  match letter with
  | 'o' => return ⟨integerPiece 8 (if alternate then ['0', 'o'] else []) least n, true⟩
  | 'x' => return ⟨integerPiece 16 (if alternate then ['0', 'x'] else []) least n, true⟩
  | 'X' =>
    let chars := integerPiece 16 (if alternate then ['0', 'x'] else []) least n
    return ⟨chars.map Char.toUpper, true⟩
  | _ =>
    let _ ← Decimal.boundedIntText n
    return ⟨integerPiece 10 [] least n, true⟩

def piece (h : Heap) (d : Directive) (letter : Char) (index : Nat) (v : Value) :
    Except Fault Piece := do
  let cut (s : List Char) := match d.precision with
    | some n => s.take n
    | none => s
  match letter with
  | 's' => return ⟨cut (← h.display v).toList, false⟩
  | 'r' => return ⟨cut (← h.quoted v).toList, false⟩
  | 'a' => return ⟨cut (escapeWide (← h.quoted v).toList), false⟩
  | 'd' | 'i' | 'u' | 'o' | 'x' | 'X' => wholePiece letter d v
  | 'e' => realPiece .scientific false d v
  | 'E' => realPiece .scientific true d v
  | 'f' => realPiece .fixed false d v
  | 'F' => realPiece .fixed true d v
  | 'g' => realPiece .general false d v
  | 'G' => realPiece .general true d v
  | 'c' => return ⟨[← charOf v], false⟩
  | letter =>
    let shown := if 31 ≤ letter.toNat && letter.toNat < 127 then letter else '?'
    throw (.value (.formatDirective shown letter.toNat (index - 1)))

/-- A piece with its sign, filled up to the width. -/
def pad (d : Directive) (letter : Char) (p : Piece) : List Char :=
  let (sign, body) :=
    if p.numeric then
      match p.chars with
      | '-' :: rest => (['-'], rest)
      | chars =>
        (if d.flags.sign then ['+'] else if d.flags.blank then [' '] else [], chars)
    else ([], p.chars)
  let marked := d.flags.alternate && (letter = 'x' || letter = 'X' || letter = 'o')
  let (mark, body) := if marked then (body.take 2, body.drop 2) else ([], body)
  let used := sign.length + mark.length + body.length
  let missing := d.width.getD 0 - used
  if d.flags.left then sign ++ mark ++ body ++ List.replicate missing ' '
  else if p.numeric && d.flags.zero then sign ++ mark ++ List.replicate missing '0' ++ body
  else List.replicate missing ' ' ++ sign ++ mark ++ body

/-- After its `%`. -/
def fillDirective (h : Heap) : Reader (List Char) := do
  let s ← get
  match s.rest with
  | '%' :: rest =>
    set { s with rest, index := s.index + 1 }
    return ['%']
  | _ =>
    if s.rest.head? = some '(' then
      set { s with rest := s.rest.drop 1, index := s.index + 1 }
      takeKey h
    let (d, letter) ← takeDirective
    let v ← takeValue
    let p ← piece h d letter (← get).index v
    return pad d letter p

def fillAll (h : Heap) : (fuel : Nat) → Reader (List Char)
  | 0 => return []
  | fuel + 1 => do
    let s ← get
    let plain := s.rest.takeWhile (· ≠ '%')
    match s.rest.drop plain.length with
    | [] =>
      set { s with rest := [], index := s.index + plain.length }
      return plain
    | _ :: rest =>
      set { s with rest, index := s.index + plain.length + 1 }
      let filled ← fillDirective h
      return plain ++ filled ++ (← fillAll h fuel)

/-- A tuple stands for its items. -/
def fill (h : Heap) (template : String) (v : Value) : Except Fault String := do
  let values := match v with
    | .tuple items => items
    | v => [v]
  let mapping := match v with
    | .list _ | .dict _ => some v
    | _ => none
  let rest := template.toList
  let (chars, s) ← (fillAll h (rest.length + 1)).run { rest, index := 0, values, mapping }
  if !s.values.isEmpty && mapping.isNone then throw (.type .formatSurplus)
  return String.ofList chars

end Hetman.Template
