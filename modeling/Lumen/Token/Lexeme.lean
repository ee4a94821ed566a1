import Lumen.Text.Blank
import Lumen.Text.Identifier
import Lumen.Text.Numeral
import Lumen.Token

/-!
# Lexemes

The lexeme at the head of a text is the longest piece that makes a token: a run of digits, a run
of identifier characters, an operator of two characters before one of one character. A character
that starts none of these is a lexeme of unknown kind. What the piece means is read off its kind
and its characters.
-/

namespace Lumen

/-- A piece at the head of a text, and the text behind it. -/
structure Lexeme where
  kind : TokenKind
  text : List Char
  rest : List Char

namespace Lexeme

def doubleSign? : Char → Char → Option TokenKind
  | '!', '=' => some .exclamationEquals
  | '=', '=' => some .equalsEquals
  | '<', '=' => some .lessEquals
  | '>', '=' => some .greaterEquals
  | '&', '&' => some .ampersandAmpersand
  | '|', '|' => some .barBar
  | _, _ => none

def singleSign? : Char → Option TokenKind
  | '(' => some .openParen
  | ')' => some .closeParen
  | '\x7b' => some .openBrace
  | '\x7d' => some .closeBrace
  | '+' => some .plus
  | '-' => some .minus
  | '*' => some .asterisk
  | '/' => some .slash
  | '!' => some .exclamation
  | '~' => some .tilde
  | '^' => some .caret
  | '&' => some .ampersand
  | '|' => some .bar
  | '=' => some .equals
  | '<' => some .less
  | '>' => some .greater
  | _ => none

/-- The kind of a run of identifier characters: a keyword if it is spelled like one. -/
def wordKind (word : List Char) : TokenKind :=
  (TokenKind.ofKeyword? (String.ofList word)).getD .identifier

def single (c : Char) (cs : List Char) : Lexeme := ⟨(singleSign? c).getD .unknown, [c], cs⟩

/-- The lexeme that starts with a character which is neither a digit nor of an identifier. -/
def sign (c : Char) : List Char → Lexeme
  | [] => single c []
  | d :: cs =>
    match doubleSign? c d with
    | some kind => ⟨kind, [c, d], cs⟩
    | none => single c (d :: cs)

def value? (l : Lexeme) : Option Value :=
  match l.kind with
  | .number => (Text.int64? l.text).map .int
  | .trueKeyword => some (.bool true)
  | .falseKeyword => some (.bool false)
  | _ => none

def toToken (l : Lexeme) (start : Nat) : Token := ⟨l.kind, start, String.ofList l.text, l.value?⟩

@[simp] theorem single_append (c : Char) (cs : List Char) :
    (single c cs).text ++ (single c cs).rest = c :: cs := rfl

theorem sign_append (c : Char) (cs : List Char) : (sign c cs).text ++ (sign c cs).rest = c :: cs := by
  cases cs with
  | nil => rfl
  | cons d ds =>
    simp only [sign]
    split <;> rfl

theorem sign_text_ne_nil (c : Char) (cs : List Char) : (sign c cs).text ≠ [] := by
  cases cs with
  | nil => simp [sign, single]
  | cons d ds =>
    simp only [sign]
    split <;> simp [single]

variable [Xid]

/-- The lexeme that starts with a character. -/
def head (c : Char) (cs : List Char) : Lexeme :=
  if c.isDigit then ⟨.number, c :: cs.takeWhile Char.isDigit, cs.dropWhile Char.isDigit⟩
  else if Text.isIdentifierStart c then
    let word := c :: cs.takeWhile Text.isIdentifierPart
    ⟨wordKind word, word, cs.dropWhile Text.isIdentifierPart⟩
  else sign c cs

/-- Nothing of a text is lost when its first lexeme is cut off. -/
theorem head_append (c : Char) (cs : List Char) : (head c cs).text ++ (head c cs).rest = c :: cs := by
  unfold head
  split
  · simp
  · split
    · simp
    · exact sign_append c cs

theorem head_text_ne_nil (c : Char) (cs : List Char) : (head c cs).text ≠ [] := by
  unfold head
  split
  · simp
  · split
    · simp
    · exact sign_text_ne_nil c cs

theorem length_rest_head_lt (c : Char) (cs : List Char) :
    (head c cs).rest.length < (c :: cs).length := by
  have h := congrArg List.length (head_append c cs)
  have ht := List.length_pos_iff.mpr (head_text_ne_nil c cs)
  rw [List.length_append] at h
  omega

end Lexeme

end Lumen
