/-!
# Values and types

A program computes with signed 64-bit words, whose arithmetic wraps, and with truth values. Each
value has exactly one type.
-/

namespace Lumen

inductive Ty
  | int
  | bool
  deriving DecidableEq, Inhabited

inductive Value
  | int (n : Int64)
  | bool (b : Bool)
  deriving DecidableEq, Inhabited

def Ty.name : Ty → String
  | .int => "Int"
  | .bool => "Bool"

namespace Value

def type : Value → Ty
  | .int _ => .int
  | .bool _ => .bool

/-- The truth value that a value is, if it is one. -/
def truth? : Value → Option Bool
  | .int _ => none
  | .bool b => some b

/-- The written form of a value: a decimal numeral or a keyword. -/
def text : Value → String
  | .int n => toString n.toInt
  | .bool true => "true"
  | .bool false => "false"

end Value

end Lumen
