import Hetman.Fault

/-!
What a library function takes: required arguments by name, then some that may
be left out, or any number more. The library itself counts as one argument in
messages.
-/

namespace Hetman

structure Signature where
  required : List String
  optional : Nat := 0
  anyMore : Bool := false
  deriving DecidableEq, Inhabited

namespace Signature

def check (s : Signature) (function : String) (count : Nat) : Except TypeFault Unit :=
  let most := s.required.length + s.optional
  if count > most && !s.anyMore then
    .error (.surplusArguments function (s.required.length + 1) (most + 1) (count + 1))
  else if count < s.required.length then
    .error (.missingArguments function (s.required.drop count))
  else .ok ()

end Signature

end Hetman
