import Lumen.Token

/-!
# Syntax trees

A program is one statement and the end of the text. Every phrase stores its tokens, so the leaves
of a tree, read in order, are the tokens that it was made of, together with the ones made up for
missing ones. The span of a phrase runs from its first part to its last part.
-/

namespace Lumen.Tree

inductive Expr
  | literal (token : Token)
  | name (identifier : Token)
  | unary (operator : Token) (operand : Expr)
  | binary (left : Expr) (operator : Token) (right : Expr)
  | parenthesized (openParen : Token) (inner : Expr) (closeParen : Token)
  | assignment (identifier equals : Token) (source : Expr)
  deriving DecidableEq, Inhabited

inductive Stmt
  | block (openBrace : Token) (body : List Stmt) (closeBrace : Token)
  | declaration (keyword identifier equals : Token) (source : Expr)
  | ifThen (keyword : Token) (condition : Expr) (consequence : Stmt)
  | ifElse (keyword : Token) (condition : Expr) (consequence : Stmt) (elseKeyword : Token)
    (alternative : Stmt)
  | whileLoop (keyword : Token) (condition : Expr) (body : Stmt)
  | forLoop (keyword identifier equals : Token) (lower : Expr) (toKeyword : Token) (upper : Expr)
    (body : Stmt)
  | expression (source : Expr)
  deriving Inhabited

/-- A statement and the end of the text. -/
structure Program where
  statement : Stmt
  endToken : Token

namespace Expr

/-- The tokens of an expression in order. -/
def leaves : Expr → List Token
  | literal t => [t]
  | name t => [t]
  | unary op e => op :: e.leaves
  | binary l op r => l.leaves ++ op :: r.leaves
  | parenthesized o e c => o :: (e.leaves ++ [c])
  | assignment x eq e => x :: eq :: e.leaves

theorem leaves_ne_nil (e : Expr) : e.leaves ≠ [] := by
  cases e <;> simp [leaves]

def span : Expr → Span
  | literal t => t.span
  | name t => t.span
  | unary op e => op.span.union e.span
  | binary l _ r => l.span.union r.span
  | parenthesized o _ c => o.span.union c.span
  | assignment x _ e => x.span.union e.span

def kind : Expr → NodeKind
  | literal .. => .literal
  | name .. => .name
  | unary .. => .unary
  | binary .. => .binary
  | parenthesized .. => .parenthesized
  | assignment .. => .assignment

end Expr

namespace Stmt

mutual

def leaves : Stmt → List Token
  | block o body c => o :: (leavesOfList body ++ [c])
  | declaration k x eq e => k :: x :: eq :: e.leaves
  | ifThen k e s => k :: (e.leaves ++ s.leaves)
  | ifElse k e s el t => k :: (e.leaves ++ s.leaves ++ el :: t.leaves)
  | whileLoop k e s => k :: (e.leaves ++ s.leaves)
  | forLoop k x eq lo toKw hi s => k :: x :: eq :: (lo.leaves ++ toKw :: (hi.leaves ++ s.leaves))
  | expression e => e.leaves

def leavesOfList : List Stmt → List Token
  | [] => []
  | s :: ss => s.leaves ++ leavesOfList ss

end

/-- The span of a statement, from its first part to its last part. -/
def span : Stmt → Span
  | block o _ c => o.span.union c.span
  | declaration k _ _ e => k.span.union e.span
  | ifThen k _ s => k.span.union s.span
  | ifElse k _ _ el t => k.span.union (el.span.union t.span)
  | whileLoop k _ s => k.span.union s.span
  | forLoop k _ _ _ _ _ s => k.span.union s.span
  | expression e => e.span

def kind : Stmt → NodeKind
  | block .. => .block
  | declaration .. => .declaration
  | ifThen .. => .conditional
  | ifElse .. => .conditional
  | whileLoop .. => .whileLoop
  | forLoop .. => .forLoop
  | expression .. => .expression

@[simp] theorem leavesOfList_eq_flatMap (ss : List Stmt) : leavesOfList ss = ss.flatMap leaves := by
  induction ss with
  | nil => simp [leavesOfList]
  | cons s ss ih => simp [leavesOfList, ih]

theorem leaves_ne_nil (s : Stmt) : s.leaves ≠ [] := by
  cases s <;> simp [leaves, Expr.leaves_ne_nil]

end Stmt

namespace Program

def leaves (p : Program) : List Token := p.statement.leaves ++ [p.endToken]

def span (p : Program) : Span := p.statement.span.union p.endToken.span

end Program

end Lumen.Tree
