import Lumen.Text.LineMap
import Lumen.Tree.Parse

/-!
# Source texts

A source is a text with its syntax tree and the complaints of reading it. The tree is made of the
significant tokens of the text; characters that start no token are left out. Reading stops at the
first token that it cannot use, and only the tokens up to that one are complained about. Their
complaints come before those of the parser.
-/

namespace Lumen

structure Source where
  text : List Char
  program : Tree.Program
  diagnostics : List Diagnostic

namespace Source

/-- The tokens of a text that statements are made of. -/
def significant (tokens : List Token) : List Token := tokens.filter Token.isSignificant

def endToken (text : List Char) : Token := Cursor.endToken (Text.size text)

/-- The tokens up to the one at which reading stopped. -/
def readUpTo (stopped : Token) (tokens : List Token) : List Token :=
  tokens.filter fun t => t.start ≤ stopped.start

def parse [Xid] (text : List Char) : Source :=
  let tokens := Token.scan text
  let last := endToken text
  let parsed := Tree.Parsed.program last (significant tokens)
  let stopped := parsed.rest.headD last
  ⟨text, parsed.phrase, Token.faults (readUpTo stopped tokens) ++ parsed.faults⟩

def lineMap (s : Source) : LineMap := .ofText s.text

end Source

end Lumen
