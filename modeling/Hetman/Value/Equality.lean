import Hetman.Number
import Hetman.Value.Display

/-!
Equality of values.

Numbers are equal by their amount, whatever their type; texts and tuples by
their contents; objects, classes and methods only when they are the same.
Inside of containers the same value is equal to itself, even when it is not a
number.
-/

namespace Hetman

namespace Datum

mutual

def same : Datum → Datum → Bool
  | .none, .none => true
  | .text a, .text b => a == b
  | .list xs, .list ys => sameAll xs ys
  | .tuple xs, .tuple ys => sameAll xs ys
  | .dict xs, .dict ys => sameEntries xs ys
  | .record a xs, .record b ys => a == b && sameFields xs ys
  | a, b =>
    match number? a, number? b with
    | some m, some n => m.equal n
    | _, _ => false
where
  /-- The number that a plain value stands for. -/
  number? : Datum → Option Number
    | .bool b => some (.int (if b then 1 else 0))
    | .int n => some (.int n)
    | .float x => some (.float x)
    | _ => Option.none

def sameAll : List Datum → List Datum → Bool
  | [], [] => true
  | x :: xs, y :: ys => same x y && sameAll xs ys
  | _, _ => false

def sameEntries : List (Datum × Datum) → List (Datum × Datum) → Bool
  | [], [] => true
  | (k, v) :: xs, (l, w) :: ys => same k l && same v w && sameEntries xs ys
  | _, _ => false

def sameFields : List (String × Datum) → List (String × Datum) → Bool
  | [], [] => true
  | (_, v) :: xs, (_, w) :: ys => same v w && sameFields xs ys
  | _, _ => false

end

end Datum

namespace Value

def equalPlain (a b : Value) : Bool :=
  match a, b with
  | .none, .none => true
  | .text s, .text t => s == t
  | .object r, .object q => r == q
  | .classRef i, .classRef j => i == j
  | .tree m, .tree n => m.outline.same n.outline
  | .library _ i, .library _ j => i == j
  | .libraryFunction _ i f, .libraryFunction _ j g => i == j && f == g
  | .method i, .method j => i == j
  | a, b =>
    match Number.ofValue? a, Number.ofValue? b with
    | some m, some n => m.equal n
    | _, _ => false

/-- Whether two values are one: the same container or the same result that is
not a number. -/
def identical : Value → Value → Bool
  | .nan i, .nan j => i == j
  | .list r, .list q => r == q
  | .dict r, .dict q => r == q
  | .complex re im, .complex re' im' =>
    re.toBits == re'.toBits && im.toBits == im'.toBits
  | _, _ => false

mutual

def sameKey (a b : Value) : Bool :=
  match a, b with
  | .tuple xs, .tuple ys => sameKeys xs ys
  | a, b => identical a b || equalPlain a b

def sameKeys : List Value → List Value → Bool
  | [], [] => true
  | x :: xs, y :: ys => sameKey x y && sameKeys xs ys
  | _, _ => false

end

mutual

/-- The type of the part of a value that keeps it from being a key. -/
def unhashable? : Value → Option String
  | .list _ => some "list"
  | .dict _ => some "dict"
  | .tree node => some node.outline.typeName
  | .tuple items => unhashableAmong? items
  | _ => Option.none

def unhashableAmong? : List Value → Option String
  | [] => Option.none
  | item :: rest =>
    match unhashable? item with
    | some typeName => some typeName
    | Option.none => unhashableAmong? rest

end

mutual

/-- Whether two values are equal, given the equality of containers. -/
def equalWith (containers : Ref → Ref → Except Fault Bool) :
    Value → Value → Except Fault Bool
  | .list r, .list q => containers (.list r) (.list q)
  | .dict r, .dict q => containers (.dict r) (.dict q)
  | .tuple xs, .tuple ys => equalItemsWith containers xs ys
  | a, b => .ok (equalPlain a b)

def equalItemsWith (containers : Ref → Ref → Except Fault Bool) :
    List Value → List Value → Except Fault Bool
  | [], [] => .ok true
  | x :: xs, y :: ys => do
    if identical x y || (← equalWith containers x y) then equalItemsWith containers xs ys
    else return false
  | _, _ => .ok false

end

end Value

namespace Heap

def entryAt? (entries : List (Value × Value)) (key : Value) : Option (Value × Value) :=
  entries.find? fun e => Value.sameKey e.1 key

def equalAt (h : Heap) : (depth : Nat) → Value → Value → Except Fault Bool
  | 0, _, _ => .error .tooDeep
  | depth + 1, a, b =>
    Value.equalWith (fun r q =>
      match r, q with
      | .list r, .list q => equalLists (equalAt h depth) (h.list r) (h.list q)
      | .dict r, .dict q =>
        if (h.dict r).length = (h.dict q).length then
          equalDicts (equalAt h depth) (h.dict r) (h.dict q)
        else .ok false
      | _, _ => .ok false) a b
where
  equalLists (eq : Value → Value → Except Fault Bool) :
      List Value → List Value → Except Fault Bool
    | [], [] => .ok true
    | x :: xs, y :: ys => do
      if x.identical y || (← eq x y) then equalLists eq xs ys else return false
    | _, _ => .ok false
  /-- Whether every entry has an equal one under its key in the other. -/
  equalDicts (eq : Value → Value → Except Fault Bool) :
      List (Value × Value) → List (Value × Value) → Except Fault Bool
    | [], _ => .ok true
    | (k, v) :: rest, other => do
      match entryAt? other k with
      | some (_, w) =>
        if v.identical w || (← eq v w) then equalDicts eq rest other else return false
      | none => return false

def equal (h : Heap) (a b : Value) : Except Fault Bool :=
  h.equalAt (h.containers + 1) a b

def matching (h : Heap) (a b : Value) : Except Fault Bool :=
  if a.identical b then .ok true else h.equal a b

def indexOf? (h : Heap) (v : Value) : List Value → Except Fault (Option Nat)
  | [] => .ok none
  | item :: rest => do
    if ← h.matching item v then return some 0
    else return (← indexOf? h v rest).map (· + 1)

end Heap

end Hetman
