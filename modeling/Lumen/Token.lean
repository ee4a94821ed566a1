import Lumen.Diagnostic
import Lumen.TokenKind
import Lumen.Value

/-!
# Tokens

A token is stored with the position where it starts and with its text, so its span need not be
stored. Besides the tokens of a text there are made up ones: they stand where a token was expected
and not found, and have no text. The end of a text is the one real token without text.

Positions are natural numbers here. Words of 32 bits hold the same positions in a text of less than
2 ^ 32 bytes; what is said of longer texts does not carry over to such words.
-/

namespace Lumen

/-- A sign of a program text. -/
structure Token where
  kind : TokenKind
  start : Nat
  text : String
  value : Option Value
  deriving DecidableEq, Inhabited

namespace Token

/-- The token made up where one of a kind is missing. -/
def missing (kind : TokenKind) (pos : Nat) : Token := ⟨kind, pos, "", none⟩

def isMissing (t : Token) : Bool := t.text = "" && t.kind ≠ .endOfFile

def stop (t : Token) : Nat := t.start + Text.size t.text.toList

def span (t : Token) : Span := ⟨t.start, Text.size t.text.toList⟩

/-- The complaint about a token of a text: a character that starts no token, or a numeral out of
range. -/
def fault? (t : Token) : Option Diagnostic :=
  match t.kind, t.value with
  | .unknown, _ => some ⟨t.span, .badCharacter t.text⟩
  | .number, none => some ⟨t.span, .invalidNumber t.text Ty.int.name⟩
  | _, _ => none

def faults (ts : List Token) : List Diagnostic := ts.filterMap fault?

/-- Whether a token may be part of a statement: it is neither a stray character nor the end. -/
def isSignificant (t : Token) : Bool := t.kind ≠ .unknown && t.kind ≠ .endOfFile

@[simp] theorem span_start (t : Token) : t.span.start = t.start := rfl

@[simp] theorem span_stop (t : Token) : t.span.stop = t.stop := rfl

@[simp] theorem stop_missing (kind : TokenKind) (pos : Nat) : (missing kind pos).stop = pos := rfl

end Token

end Lumen
