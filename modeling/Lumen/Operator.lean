import Lumen.TokenKind
import Lumen.Value

/-!
# Operators

An operator is what an operator token means for operands of certain types. The tables list all of
them, and an operator is found by its token and the exact types of its operands; nothing is
converted. A token such as `&` means one operator for words and another one for truth values.
-/

namespace Lumen

inductive UnaryKind
  | identity
  | negation
  | logicalNegation
  | onesComplement
  deriving DecidableEq, Inhabited

inductive BinaryKind
  | addition
  | subtraction
  | multiplication
  | division
  | bitwiseAnd
  | bitwiseOr
  | bitwiseXor
  | logicalAnd
  | logicalOr
  | equals
  | notEquals
  | less
  | lessOrEquals
  | greater
  | greaterOrEquals
  deriving DecidableEq, Inhabited

namespace UnaryKind

def all : List UnaryKind := [identity, negation, logicalNegation, onesComplement]

def name : UnaryKind → String
  | identity => "Identity"
  | negation => "Negation"
  | logicalNegation => "LogicalNegation"
  | onesComplement => "OnesComplement"

end UnaryKind

namespace BinaryKind

def all : List BinaryKind :=
  [addition, subtraction, multiplication, division, bitwiseAnd, bitwiseOr, bitwiseXor, logicalAnd,
    logicalOr, equals, notEquals, less, lessOrEquals, greater, greaterOrEquals]

def name : BinaryKind → String
  | addition => "Addition"
  | subtraction => "Subtraction"
  | multiplication => "Multiplication"
  | division => "Division"
  | bitwiseAnd => "BitwiseAnd"
  | bitwiseOr => "BitwiseOr"
  | bitwiseXor => "BitwiseXor"
  | logicalAnd => "LogicalAnd"
  | logicalOr => "LogicalOr"
  | equals => "Equals"
  | notEquals => "NotEquals"
  | less => "Less"
  | lessOrEquals => "LessOrEquals"
  | greater => "Greater"
  | greaterOrEquals => "GreaterOrEquals"

end BinaryKind

structure UnaryOperator where
  token : TokenKind
  kind : UnaryKind
  operand : Ty
  result : Ty
  deriving DecidableEq, Inhabited

structure BinaryOperator where
  token : TokenKind
  kind : BinaryKind
  left : Ty
  right : Ty
  result : Ty
  deriving DecidableEq, Inhabited

namespace UnaryOperator

/-- The operator of a token on a type, with a result of the same type. -/
def on (type : Ty) (token : TokenKind) (kind : UnaryKind) : UnaryOperator :=
  ⟨token, kind, type, type⟩

def table : List UnaryOperator :=
  [on .int .plus .identity, on .int .minus .negation, on .int .tilde .onesComplement,
    on .bool .exclamation .logicalNegation]

/-- The meaning of a token as a unary operator. -/
def resolve? (token : TokenKind) (operand : Ty) : Option UnaryOperator :=
  table.find? fun op => op.token = token ∧ op.operand = operand

end UnaryOperator

namespace BinaryOperator

def on (type result : Ty) (token : TokenKind) (kind : BinaryKind) : BinaryOperator :=
  ⟨token, kind, type, type, result⟩

def intAddition : BinaryOperator := on .int .int .plus .addition

def intLessOrEquals : BinaryOperator := on .int .bool .lessEquals .lessOrEquals

def table : List BinaryOperator :=
  [intAddition, on .int .int .minus .subtraction, on .int .int .asterisk .multiplication,
    on .int .int .slash .division, on .int .int .ampersand .bitwiseAnd,
    on .int .int .bar .bitwiseOr, on .int .int .caret .bitwiseXor,
    on .int .bool .equalsEquals .equals, on .int .bool .exclamationEquals .notEquals,
    on .int .bool .less .less, intLessOrEquals, on .int .bool .greater .greater,
    on .int .bool .greaterEquals .greaterOrEquals, on .bool .bool .ampersand .bitwiseAnd,
    on .bool .bool .ampersandAmpersand .logicalAnd, on .bool .bool .bar .bitwiseOr,
    on .bool .bool .barBar .logicalOr, on .bool .bool .caret .bitwiseXor,
    on .bool .bool .equalsEquals .equals, on .bool .bool .exclamationEquals .notEquals]

def resolve? (token : TokenKind) (left right : Ty) : Option BinaryOperator :=
  table.find? fun op => op.token = token ∧ op.left = left ∧ op.right = right

end BinaryOperator

end Lumen
