import Lumen.Value

/-!
# Variables

A variable is a declaration, not a name: two declarations of one name are two variables. Each
declaration is given its own number, so variables are equal exactly if they come from the same
declaration.
-/

namespace Lumen

structure Variable where
  id : Nat
  name : String
  type : Ty
  readOnly : Bool
  deriving DecidableEq, Inhabited

namespace Variable

def keyword (v : Variable) : String := if v.readOnly then "let" else "var"

/-- The written form of a declared variable with its type. -/
def signature (v : Variable) : String := s!"{v.keyword} {v.name}: {v.type.name}"

end Variable

end Lumen
