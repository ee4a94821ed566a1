/-!
# Kinds of tokens and nodes

A token is a sign of the program text, a node is a phrase made of tokens. Signs with a fixed
spelling are the punctuation and the keywords; the spelling is a function of the kind, and a
keyword is found by its spelling. Tokens are numbered first, nodes after them.
-/

namespace Lumen

inductive TokenKind
  | unknown
  | endOfFile
  | whitespace
  | number
  | identifier
  | openParen
  | closeParen
  | openBrace
  | closeBrace
  | plus
  | minus
  | asterisk
  | slash
  | exclamation
  | tilde
  | caret
  | ampersand
  | ampersandAmpersand
  | bar
  | barBar
  | equals
  | equalsEquals
  | exclamationEquals
  | less
  | lessEquals
  | greater
  | greaterEquals
  | elseKeyword
  | falseKeyword
  | forKeyword
  | ifKeyword
  | letKeyword
  | toKeyword
  | trueKeyword
  | varKeyword
  | whileKeyword
  deriving DecidableEq, Inhabited

namespace TokenKind

/-- The kinds in the order of their numbers. -/
def all : List TokenKind :=
  [unknown, endOfFile, whitespace, number, identifier, openParen, closeParen, openBrace,
    closeBrace, plus, minus, asterisk, slash, exclamation, tilde, caret, ampersand,
    ampersandAmpersand, bar, barBar, equals, equalsEquals, exclamationEquals, less, lessEquals,
    greater, greaterEquals, elseKeyword, falseKeyword, forKeyword, ifKeyword, letKeyword,
    toKeyword, trueKeyword, varKeyword, whileKeyword]

def index (k : TokenKind) : Nat := all.idxOf k

/-- The name of a kind in messages and dumps. -/
def name : TokenKind → String
  | unknown => "Unknown"
  | endOfFile => "EndOfFileToken"
  | whitespace => "WhitespaceTrivia"
  | number => "NumericLiteral"
  | identifier => "Identifier"
  | openParen => "OpenParenToken"
  | closeParen => "CloseParenToken"
  | openBrace => "OpenBraceToken"
  | closeBrace => "CloseBraceToken"
  | plus => "PlusToken"
  | minus => "MinusToken"
  | asterisk => "AsteriskToken"
  | slash => "SlashToken"
  | exclamation => "ExclamationToken"
  | tilde => "TildeToken"
  | caret => "CaretToken"
  | ampersand => "AmpersandToken"
  | ampersandAmpersand => "AmpersandAmpersandToken"
  | bar => "BarToken"
  | barBar => "BarBarToken"
  | equals => "EqualsToken"
  | equalsEquals => "EqualsEqualsToken"
  | exclamationEquals => "ExclamationEqualsToken"
  | less => "LessThanToken"
  | lessEquals => "LessThanEqualsToken"
  | greater => "GreaterThanToken"
  | greaterEquals => "GreaterThanEqualsToken"
  | elseKeyword => "ElseKeyword"
  | falseKeyword => "FalseKeyword"
  | forKeyword => "ForKeyword"
  | ifKeyword => "IfKeyword"
  | letKeyword => "LetKeyword"
  | toKeyword => "ToKeyword"
  | trueKeyword => "TrueKeyword"
  | varKeyword => "VarKeyword"
  | whileKeyword => "WhileKeyword"

def keywordText? : TokenKind → Option String
  | elseKeyword => some "else"
  | falseKeyword => some "false"
  | forKeyword => some "for"
  | ifKeyword => some "if"
  | letKeyword => some "let"
  | toKeyword => some "to"
  | trueKeyword => some "true"
  | varKeyword => some "var"
  | whileKeyword => some "while"
  | _ => none

def punctuationText? : TokenKind → Option String
  | openParen => some "("
  | closeParen => some ")"
  | openBrace => some "\x7b"
  | closeBrace => some "\x7d"
  | plus => some "+"
  | minus => some "-"
  | asterisk => some "*"
  | slash => some "/"
  | exclamation => some "!"
  | tilde => some "~"
  | caret => some "^"
  | ampersand => some "&"
  | ampersandAmpersand => some "&&"
  | bar => some "|"
  | barBar => some "||"
  | equals => some "="
  | equalsEquals => some "=="
  | exclamationEquals => some "!="
  | less => some "<"
  | lessEquals => some "<="
  | greater => some ">"
  | greaterEquals => some ">="
  | _ => none

/-- The spelling of a kind that has only one. -/
def text? (k : TokenKind) : Option String := k.punctuationText? <|> k.keywordText?

def isKeyword (k : TokenKind) : Bool := k.keywordText?.isSome

def isPunctuation (k : TokenKind) : Bool := k.punctuationText?.isSome

def ofKeyword? (text : String) : Option TokenKind := all.find? (·.keywordText? = some text)

end TokenKind

inductive NodeKind
  | program
  | elseClause
  | block
  | declaration
  | conditional
  | whileLoop
  | forLoop
  | expression
  | literal
  | name
  | unary
  | binary
  | parenthesized
  | assignment
  deriving DecidableEq, Inhabited

namespace NodeKind

def all : List NodeKind :=
  [program, elseClause, block, declaration, conditional, whileLoop, forLoop, expression, literal,
    name, unary, binary, parenthesized, assignment]

def index (k : NodeKind) : Nat := all.idxOf k

/-- The title of a kind in dumps. -/
def title : NodeKind → String
  | program => "CompilationUnit"
  | elseClause => "ElseClause"
  | block => "BlockStatement"
  | declaration => "VariableDeclaration"
  | conditional => "IfStatement"
  | whileLoop => "WhileStatement"
  | forLoop => "ForStatement"
  | expression => "ExpressionStatement"
  | literal => "LiteralExpression"
  | name => "NameExpression"
  | unary => "UnaryExpression"
  | binary => "BinaryExpression"
  | parenthesized => "ParenthesizedExpression"
  | assignment => "AssignmentExpression"

def isStatement : NodeKind → Bool
  | block | declaration | conditional | whileLoop | forLoop | expression => true
  | _ => false

def isExpression : NodeKind → Bool
  | literal | name | unary | binary | parenthesized | assignment => true
  | _ => false

end NodeKind

inductive Kind
  | token (k : TokenKind)
  | node (k : NodeKind)
  deriving DecidableEq

namespace Kind

/-- The number of a kind: tokens come before nodes. -/
def number : Kind → Nat
  | token k => k.index
  | node k => TokenKind.all.length + k.index

def name : Kind → String
  | token k => k.name
  | node k => k.title

def all : List Kind := TokenKind.all.map token ++ NodeKind.all.map node

def ofName? (name : String) : Option Kind := all.find? (·.name = name)

end Kind

end Lumen
