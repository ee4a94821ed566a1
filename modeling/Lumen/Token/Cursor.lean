import Lumen.Token.Lexeme

/-!
# Reading tokens

A cursor is a place in a text: a position and the characters from there on. Reading at a cursor
skips layout, gives one token and the cursor behind it. Each token has at least one character, so
reading again and again arrives at the end of the text, where every reading gives the end token.
-/

namespace Lumen

structure Cursor where
  position : Nat
  rest : List Char

namespace Cursor

def ofText (text : List Char) : Cursor := ⟨0, text⟩

def skipLayout (c : Cursor) : Cursor :=
  ⟨c.position + Text.size (c.rest.takeWhile Text.isLayout), c.rest.dropWhile Text.isLayout⟩

def behind (start : Nat) (l : Lexeme) : Cursor := ⟨start + Text.size l.text, l.rest⟩

def endToken (pos : Nat) : Token := ⟨.endOfFile, pos, "", none⟩

theorem length_rest_skipLayout_le (c : Cursor) : c.skipLayout.rest.length ≤ c.rest.length :=
  (List.dropWhile_suffix _).length_le

variable [Xid]

def next (c : Cursor) : Token × Cursor :=
  let s := c.skipLayout
  match s.rest with
  | [] => (endToken s.position, s)
  | d :: ds =>
    let l := Lexeme.head d ds
    (l.toToken s.position, behind s.position l)

/-- The tokens from a cursor to the end of the text, the end token last. -/
def tokens (c : Cursor) : List Token :=
  let s := c.skipLayout
  match _read : s.rest with
  | [] => [endToken s.position]
  | d :: ds =>
    let l := Lexeme.head d ds
    l.toToken s.position :: tokens (behind s.position l)
termination_by c.rest.length
decreasing_by
  have hl := Lexeme.length_rest_head_lt d ds
  have hs := c.length_rest_skipLayout_le
  rw [_read] at hs
  exact Nat.lt_of_lt_of_le hl hs

end Cursor

def Token.scan [Xid] (text : List Char) : List Token := (Cursor.ofText text).tokens

def Token.scanInner [Xid] (text : List Char) : List Token := (Token.scan text).dropLast

end Lumen
