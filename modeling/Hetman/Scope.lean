import Hetman.Collection.Dictionary

/-!
Looking things up by a value that should be a name.

Scopes are nested, the outermost first. A value that no dictionary can have as
a key is refused before anything is looked up.
-/

namespace Hetman.Scope

/-- What a name stands for in the innermost scope that has it, or else the
function with that name. -/
def lookup (h : Heap) (scopes : List (List (Value × Value)))
    (functions : Bindings (Routine Node)) (name : Value) : Except Fault Value := do
  Heap.checkKey name
  match scopes.reverse.findSome? fun scope => (Heap.entryAt? scope name).map (·.2) with
  | some value => return value
  | none =>
    match name with
    | .text s =>
      match functions.get? s with
      | some routine => return .tree (.function routine)
      | none => throw (.script (.undefinedVariable s))
    | name => throw (.script (.undefinedVariable (← h.display name)))

def library (h : Heap) (name : Value) : Except Fault Library := do
  Heap.checkKey name
  match name with
  | .text s =>
    match Library.ofName? s with
    | some lib => return lib
    | none => throw (.script (.moduleMissing s))
  | name => throw (.script (.moduleMissing (← h.display name)))

end Hetman.Scope
