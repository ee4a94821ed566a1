import Lumen.Message
import Lumen.Text.Span

/-!
# Diagnostics

A diagnostic is the cause of a complaint about a program together with the span it is about.
Causes keep the words that their messages quote; the number of a message and its template are read
off the cause. Diagnostics are collected in lists, in the order in which they are found.
-/

namespace Lumen

inductive Cause
  | invalidNumber (text type : String)
  | badCharacter (character : String)
  | unexpectedToken (actual expected : String)
  | undefinedUnaryOperator (operator type : String)
  | undefinedBinaryOperator (operator left right : String)
  | undefinedName (name : String)
  | cannotConvert (source target : String)
  | alreadyDeclared (name : String)
  | cannotAssign (name : String)
  deriving DecidableEq

namespace Cause

/-- The number under which a message is known. -/
def code : Cause → Nat
  | invalidNumber .. => 1001
  | badCharacter .. => 1002
  | unexpectedToken .. => 1101
  | undefinedUnaryOperator .. => 2001
  | undefinedBinaryOperator .. => 2002
  | undefinedName .. => 2003
  | cannotConvert .. => 2004
  | alreadyDeclared .. => 2005
  | cannotAssign .. => 2006

def template : Cause → String
  | invalidNumber .. => "The number \x7b0\x7d isn't a valid \x7b1\x7d"
  | badCharacter .. => "Bad character input '\x7b0\x7d'"
  | unexpectedToken .. => "Unexpected token '\x7b0\x7d' expected \x7b1\x7d"
  | undefinedUnaryOperator .. => "Unary operator \x7b0\x7d is not defined for type \x7b1\x7d"
  | undefinedBinaryOperator .. =>
    "Binary operator \x7b0\x7d is not defined for type \x7b1\x7d and \x7b2\x7d."
  | undefinedName .. => "Variable \x7b0\x7d doesn't exist"
  | cannotConvert .. => "Cannot convert type from '\x7b0\x7d' to '\x7b1\x7d'"
  | alreadyDeclared .. => "Variable '\x7b0\x7d' is already declared"
  | cannotAssign .. => "Variable '\x7b0\x7d' is readonly and cannot be assigned to"

/-- The words that fill in the template, first placeholder first. -/
def arguments : Cause → List String
  | invalidNumber text type => [text, type]
  | badCharacter character => [character]
  | unexpectedToken actual expected => [actual, expected]
  | undefinedUnaryOperator operator type => [operator, type]
  | undefinedBinaryOperator operator left right => [operator, left, right]
  | undefinedName name => [name]
  | cannotConvert source target => [source, target]
  | alreadyDeclared name => [name]
  | cannotAssign name => [name]

def message (c : Cause) : String := Message.format c.template c.arguments

end Cause

structure Diagnostic where
  span : Span
  cause : Cause
  deriving DecidableEq

namespace Diagnostic

def code (d : Diagnostic) : Nat := d.cause.code

def message (d : Diagnostic) : String := d.cause.message

def line (d : Diagnostic) : String := s!"{d.span.bounds}: LM{d.code}: {d.message}"

end Diagnostic

end Lumen
