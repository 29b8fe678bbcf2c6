/-!
Access levels of fields and methods.
-/

namespace Hetman

/-- Who may use a field or method. A level that is none of the three restricts
nobody. -/
inductive Access where
  | publicAccess | privateAccess | protectedAccess
  | other (name : String)
  deriving DecidableEq, Inhabited

namespace Access

def name : Access → String
  | .publicAccess => "public"
  | .privateAccess => "private"
  | .protectedAccess => "protected"
  | .other name => name

def ofName (name : String) : Access :=
  match name with
  | "public" => .publicAccess
  | "private" => .privateAccess
  | "protected" => .protectedAccess
  | _ => .other name

end Access

end Hetman
