import Lumen.TokenKind

/-!
# Precedence of operators

Operators bind at levels, from the lowest, which no operator has, to that of the unary ones. All
binary operators of one level group to the left.
-/

namespace Lumen

inductive Precedence
  | lowest
  | logicalOr
  | logicalAnd
  | equality
  | additive
  | multiplicative
  | unary
  deriving DecidableEq, Inhabited

namespace Precedence

/-- Levels with a higher rank bind tighter. -/
def rank : Precedence → Nat
  | lowest => 0
  | logicalOr => 1
  | logicalAnd => 2
  | equality => 3
  | additive => 4
  | multiplicative => 5
  | unary => 6

def name : Precedence → String
  | lowest => "Lowest"
  | logicalOr => "LogicalOr"
  | logicalAnd => "LogicalAnd"
  | equality => "Equality"
  | additive => "Additive"
  | multiplicative => "Multiplicative"
  | unary => "Unary"

end Precedence

namespace TokenKind

def binaryPrecedence? : TokenKind → Option Precedence
  | bar | barBar | caret => some .logicalOr
  | ampersand | ampersandAmpersand => some .logicalAnd
  | equalsEquals | exclamationEquals | less | lessEquals | greater | greaterEquals =>
    some .equality
  | plus | minus => some .additive
  | asterisk | slash => some .multiplicative
  | _ => none

def isUnaryOperator : TokenKind → Bool
  | plus | minus | exclamation | tilde => true
  | _ => false

def unaryPrecedence? (k : TokenKind) : Option Precedence :=
  if k.isUnaryOperator then some .unary else none

end TokenKind

end Lumen
