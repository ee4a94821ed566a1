import Lumen.Scanner
import Lumen.Text.Bytes

/-!
# Scanning by byte positions

A scanner can keep the whole text and count bytes. It goes on by the width of the character that it
passes, or by a fixed number of bytes where it knows what it passes, and it looks at one byte ahead
to tell the signs of two characters from those of one. Reading the character at a position that is
inside a character has no result, and neither has cutting a token out of the text between such
positions, or subtracting the start of a token from a position before it.
-/

namespace Lumen

/-- A scanner at a position of a text. It has been at the positions `visited`; no step depends on
them. -/
structure ByteScanner where
  text : List Char
  pos : Nat
  tokenStart : Nat
  kind : TokenKind
  value : Option Value
  diagnostics : List Diagnostic
  visited : List Nat

namespace ByteScanner

/-- By how many bytes a scanner goes on when it passes a character. -/
structure Stride where
  width : Char → Nat
  width_pos : ∀ c, 0 < width c

def Stride.character : Stride := ⟨Char.utf8Size, Char.utf8Size_pos⟩

def Stride.byte : Stride := ⟨fun _ => 1, fun _ => Nat.one_pos⟩

def ofText (text : List Char) : ByteScanner := ⟨text, 0, 0, .unknown, none, [], [0]⟩

def advance (n : Nat) (s : ByteScanner) : ByteScanner :=
  { s with pos := s.pos + n, visited := s.visited ++ [s.pos + n] }

/-- The character at the position; at the end of the text there is none. -/
def current? (s : ByteScanner) : Option (Option Char) :=
  (Text.dropBytes? s.pos s.text).map List.head?

/-- The byte `offset` bytes behind the position. -/
def byteAt? (s : ByteScanner) (offset : Nat) : Option UInt8 := (Text.bytes s.text)[s.pos + offset]?

/-- The characters from the start of the token to the position. -/
def tokenText? (s : ByteScanner) : Option (List Char) :=
  if s.tokenStart ≤ s.pos then
    (Text.dropBytes? s.tokenStart s.text).bind (Text.takeBytes? (s.pos - s.tokenStart))
  else none

/-- The span from the start of the token to the position, both kept as words of 32 bits. -/
def tokenSpan? (s : ByteScanner) : Option Span :=
  let start := UInt32.ofNat s.tokenStart
  let stop := UInt32.ofNat s.pos
  if start ≤ stop then some ⟨start.toNat, (stop - start).toNat⟩ else none

def token? (s : ByteScanner) : Option Token :=
  s.tokenText?.map fun text =>
    ⟨s.kind, (UInt32.ofNat s.tokenStart).toNat, String.ofList text, s.value⟩

theorem pos_lt_of_current? {s : ByteScanner} {c : Char} (h : s.current? = some (some c)) :
    s.pos < Text.size s.text := by
  obtain ⟨rest, hrest, hhead⟩ := Option.map_eq_some_iff.mp h
  obtain ⟨before, hsplit, hpos⟩ := Text.exists_append_of_dropBytes? hrest
  obtain ⟨cs, rfl⟩ := List.head?_eq_some_iff.mp hhead
  have hwidth := c.utf8Size_pos
  rw [hsplit, Text.size_append, Text.size_cons]
  omega

/-- Passes characters as long as they are of a sort. -/
def skipWhile? (p : Char → Bool) (stride : Stride) (s : ByteScanner) : Option ByteScanner :=
  match _at : s.current? with
  | none => none
  | some none => some s
  | some (some c) => if p c then skipWhile? p stride (s.advance (stride.width c)) else some s
termination_by Text.size s.text - s.pos
decreasing_by
  have hlt := pos_lt_of_current? _at
  have hwidth := stride.width_pos c
  simp only [advance]
  omega

def sign (kind : TokenKind) (s : ByteScanner) : ByteScanner := { s.advance 1 with kind }

/-- Passes a sign of one character, which is one of two if a given character follows. -/
def followedBy (next : Char) (single double : TokenKind) (s : ByteScanner) : ByteScanner :=
  if s.byteAt? 1 = some next.toUInt8 then { s.advance 2 with kind := double }
  else { s.advance 1 with kind := single }

def number? (s : ByteScanner) : Option ByteScanner := do
  let s ← s.skipWhile? Char.isDigit .byte
  let text ← s.tokenText?
  match Text.int64? text with
  | some n => return { s with kind := .number, value := some (.int n) }
  | none =>
    let span ← s.tokenSpan?
    let fault : Diagnostic := ⟨span, .invalidNumber (String.ofList text) "Int"⟩
    return { s with kind := .number, diagnostics := s.diagnostics ++ [fault] }

def stray? (c : Char) (s : ByteScanner) : Option ByteScanner := do
  let s := s.advance c.utf8Size
  let span ← s.tokenSpan?
  let fault : Diagnostic := ⟨span, .badCharacter (String.singleton c)⟩
  return { s with kind := .unknown, diagnostics := s.diagnostics ++ [fault] }

variable [Xid]

def word? (s : ByteScanner) : Option ByteScanner := do
  let s ← s.skipWhile? Text.isIdentifierPart .character
  let text ← s.tokenText?
  match TokenKind.ofKeyword? (String.ofList text) with
  | some .trueKeyword => return { s with kind := .trueKeyword, value := some (.bool true) }
  | some .falseKeyword => return { s with kind := .falseKeyword, value := some (.bool false) }
  | some kind => return { s with kind }
  | none => return { s with kind := .identifier }

/-- Reads the token that starts with the character at the position. -/
def read? (c : Char) (s : ByteScanner) : Option ByteScanner :=
  match c with
  | '(' => some (s.sign .openParen)
  | ')' => some (s.sign .closeParen)
  | '\x7b' => some (s.sign .openBrace)
  | '\x7d' => some (s.sign .closeBrace)
  | '+' => some (s.sign .plus)
  | '-' => some (s.sign .minus)
  | '*' => some (s.sign .asterisk)
  | '/' => some (s.sign .slash)
  | '~' => some (s.sign .tilde)
  | '^' => some (s.sign .caret)
  | '!' => some (s.followedBy '=' .exclamation .exclamationEquals)
  | '=' => some (s.followedBy '=' .equals .equalsEquals)
  | '<' => some (s.followedBy '=' .less .lessEquals)
  | '>' => some (s.followedBy '=' .greater .greaterEquals)
  | '&' => some (s.followedBy '&' .ampersand .ampersandAmpersand)
  | '|' => some (s.followedBy '|' .bar .barBar)
  | c =>
    if c.isDigit then s.number?
    else if Text.isIdentifierStart c then s.word?
    else s.stray? c

def scan? (s : ByteScanner) : Option ByteScanner := do
  let s ← skipWhile? Text.isLayout .character { s with value := none }
  let s := { s with tokenStart := s.pos }
  match ← s.current? with
  | none => return { s with kind := .endOfFile }
  | some c => s.read? c

end ByteScanner

end Lumen
