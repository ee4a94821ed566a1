import Lumen.Bound
import Lumen.Store

/-!
# Evaluating expressions

An expression is evaluated from left to right, and both operands of an operator always are. It may
write variables on the way, and what was written before a fault stays written; so a store comes
back in either case. Words wrap around; division cuts off towards zero, and dividing by zero is a
fault. An operator that is applied to a value of the wrong type is a fault, too, although resolved
programs do not contain one.
-/

namespace Lumen

inductive Operation
  | unary (kind : UnaryKind)
  | binary (kind : BinaryKind)
  | conditionalJump
  deriving DecidableEq

def Operation.name : Operation → String
  | .unary kind => kind.name
  | .binary kind => kind.name
  | .conditionalJump => "conditional goto"

inductive Fault
  | divisionByZero
  | undefinedVariable (name : String)
  | undefinedLabel (label : Label)
  | unexpectedStatement (kind : Bound.Kind)
  | invalidOperand (operation : Operation) (operand : Value)
  deriving DecidableEq

def Fault.message : Fault → String
  | .divisionByZero => "attempt to divide by zero"
  | .undefinedVariable name => s!"variable '{name}' has no value"
  | .undefinedLabel label => s!"jump to unknown label '{label.name}'"
  | .unexpectedStatement kind => s!"unexpected {kind.name} in a lowered program"
  | .invalidOperand operation operand =>
    s!"operator {operation.name} cannot be applied to {operand.text}"

/-- A result or a fault, with the store at that moment. -/
inductive Outcome (α : Type)
  | done (result : α) (store : Store)
  | fault (cause : Fault) (store : Store)
  deriving DecidableEq

def Outcome.store {α : Type} : Outcome α → Store
  | done _ s => s
  | fault _ s => s

namespace UnaryKind

def apply : UnaryKind → Value → Except Fault Value
  | identity, .int n => .ok (.int n)
  | negation, .int n => .ok (.int (-n))
  | onesComplement, .int n => .ok (.int (~~~n))
  | logicalNegation, .bool b => .ok (.bool !b)
  | kind, operand => .error (.invalidOperand (.unary kind) operand)

end UnaryKind

namespace BinaryKind

/-- The result of an operation on words, if there is one. -/
def applyInt (l r : Int64) : BinaryKind → Option Value
  | addition => some (.int (l + r))
  | subtraction => some (.int (l - r))
  | multiplication => some (.int (l * r))
  | division => some (.int (l / r))
  | bitwiseAnd => some (.int (l &&& r))
  | bitwiseOr => some (.int (l ||| r))
  | bitwiseXor => some (.int (l ^^^ r))
  | equals => some (.bool (l = r))
  | notEquals => some (.bool (l ≠ r))
  | less => some (.bool (l < r))
  | lessOrEquals => some (.bool (l ≤ r))
  | greater => some (.bool (r < l))
  | greaterOrEquals => some (.bool (r ≤ l))
  | logicalAnd | logicalOr => none

def applyBool (l r : Bool) : BinaryKind → Option Value
  | bitwiseAnd | logicalAnd => some (.bool (l && r))
  | bitwiseOr | logicalOr => some (.bool (l || r))
  | bitwiseXor | notEquals => some (.bool (l ^^ r))
  | equals => some (.bool (l = r))
  | _ => none

/-- The result of a binary operation. Of operands of one type the left one is blamed for a fault,
of operands of two types the right one. -/
def apply (kind : BinaryKind) : Value → Value → Except Fault Value
  | .int l, .int r =>
    if kind = division ∧ r = 0 then .error .divisionByZero
    else
      match applyInt l r kind with
      | some v => .ok v
      | none => .error (.invalidOperand (.binary kind) (.int l))
  | .bool l, .bool r =>
    match applyBool l r kind with
    | some v => .ok v
    | none => .error (.invalidOperand (.binary kind) (.bool l))
  | _, r => .error (.invalidOperand (.binary kind) r)

end BinaryKind

/-- The outcome of a step that leaves the store as it is. -/
def Outcome.ofExcept {α : Type} (s : Store) : Except Fault α → Outcome α
  | .ok a => .done a s
  | .error f => .fault f s

namespace Bound.Expr

/-- The value of an expression, and the store after it. -/
def eval : Expr → Store → Outcome Value
  | .literal v, s => .done v s
  | .variable x, s =>
    match s.get? x with
    | some v => .done v s
    | none => .fault (.undefinedVariable x.name) s
  | .assignment x e, s =>
    match e.eval s with
    | .done v s' => .done v (s'.set x v)
    | .fault f s' => .fault f s'
  | .unary op e, s =>
    match e.eval s with
    | .done v s' => .ofExcept s' (op.kind.apply v)
    | .fault f s' => .fault f s'
  | .binary l op r, s =>
    match l.eval s with
    | .fault f s' => .fault f s'
    | .done v s' =>
      match r.eval s' with
      | .done w s'' => .ofExcept s'' (op.kind.apply v w)
      | .fault f s'' => .fault f s''

end Bound.Expr

end Lumen
