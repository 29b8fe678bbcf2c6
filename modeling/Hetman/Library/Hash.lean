import Hetman.Digest.Md5
import Hetman.Digest.Sha256
import Hetman.Library.Signature
import Hetman.Value

/-!
The library `hash`: digests of texts.
-/

namespace Hetman.HashLibrary

def onText (digest : List UInt8 → String) (v : Value) : Except Fault Value :=
  match v with
  | .text s => .ok (.text (digest s.toUTF8.toList))
  | v => .error (.attribute v.typeName "encode")

def functions : List (String × (List UInt8 → String)) :=
  [("sha256", Digest.Sha256.digest), ("md5", Digest.Md5.digest)]

def hasFunction (name : String) : Bool :=
  functions.any fun f => f.1 == name

def call (name : String) (args : List Value) : Except Fault Value :=
  match functions.find? fun f => f.1 == name with
  | some (_, digest) =>
    match Signature.check ⟨["text"], 0, false⟩ s!"HashModule.{name}" args.length with
    | .ok () =>
      match args with
      | [v] => onText digest v
      | _ => .ok .none
    | .error fault => .error (.type fault)
  | none => .error (.attribute "HashModule" name)

end Hetman.HashLibrary
