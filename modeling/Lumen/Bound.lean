import Lumen.Operator
import Lumen.Variable

/-!
# Bound trees

A bound tree is a program in which every name is replaced by the variable that it means and every
operator token by the operator. Loops and branches are stored as such; the jumps and labels that
they can be replaced by are statements too, so one type serves before and after that.
-/

namespace Lumen

/-- A place to jump to. -/
structure Label where
  name : String
  deriving DecidableEq, Inhabited

namespace Bound

/-- An expression whose names and operators are resolved. -/
inductive Expr
  | literal (value : Value)
  | variable (v : Variable)
  | assignment (v : Variable) (source : Expr)
  | unary (operator : UnaryOperator) (operand : Expr)
  | binary (left : Expr) (operator : BinaryOperator) (right : Expr)
  deriving DecidableEq, Inhabited

/-- A statement whose names and operators are resolved. -/
inductive Stmt
  | block (body : List Stmt)
  | declaration (v : Variable) (source : Expr)
  | expression (source : Expr)
  | ifThen (condition : Expr) (consequence : Stmt)
  | ifElse (condition : Expr) (consequence alternative : Stmt)
  | whileLoop (condition : Expr) (body : Stmt)
  | forLoop (v : Variable) (lower upper : Expr) (body : Stmt)
  | jump (label : Label)
  | jumpIf (label : Label) (condition : Expr) (onFalse : Bool)
  | label (label : Label)
  deriving Inhabited

inductive Kind
  | block
  | declaration
  | expression
  | conditional
  | whileLoop
  | forLoop
  | jump
  | jumpIf
  | label
  | literal
  | variable
  | assignment
  | unary
  | binary
  deriving DecidableEq, Inhabited

def Kind.name : Kind → String
  | .block => "BlockStatement"
  | .declaration => "VariableDeclaration"
  | .expression => "ExpressionStatement"
  | .conditional => "IfStatement"
  | .whileLoop => "WhileStatement"
  | .forLoop => "ForStatement"
  | .jump => "GotoStatement"
  | .jumpIf => "ConditionalGotoStatement"
  | .label => "LabelStatement"
  | .literal => "LiteralExpression"
  | .variable => "VariableExpression"
  | .assignment => "AssignmentExpression"
  | .unary => "UnaryExpression"
  | .binary => "BinaryExpression"

def Expr.type : Expr → Ty
  | .literal v => v.type
  | .variable v => v.type
  | .assignment _ e => e.type
  | .unary op _ => op.result
  | .binary _ op _ => op.result

def Expr.kind : Expr → Kind
  | .literal .. => .literal
  | .variable .. => .variable
  | .assignment .. => .assignment
  | .unary .. => .unary
  | .binary .. => .binary

def Stmt.kind : Stmt → Kind
  | .block .. => .block
  | .declaration .. => .declaration
  | .expression .. => .expression
  | .ifThen .. => .conditional
  | .ifElse .. => .conditional
  | .whileLoop .. => .whileLoop
  | .forLoop .. => .forLoop
  | .jump .. => .jump
  | .jumpIf .. => .jumpIf
  | .label .. => .label

namespace Stmt

mutual

def same : Stmt → Stmt → Bool
  | block a, block b => sameList a b
  | declaration v e, declaration w f => v = w && e = f
  | expression e, expression f => e = f
  | ifThen c s, ifThen d t => c = d && s.same t
  | ifElse c s u, ifElse d t w => c = d && s.same t && u.same w
  | whileLoop c s, whileLoop d t => c = d && s.same t
  | forLoop v a b s, forLoop w c d t => v = w && a = c && b = d && s.same t
  | jump l, jump m => l = m
  | jumpIf l c p, jumpIf m d q => l = m && c = d && p = q
  | label l, label m => l = m
  | _, _ => false

def sameList : List Stmt → List Stmt → Bool
  | [], [] => true
  | s :: ss, t :: ts => s.same t && sameList ss ts
  | _, _ => false

end

mutual

theorem eq_of_same : ∀ {s t : Stmt}, s.same t = true → s = t
  | block a, t, h => by
    cases t <;> simp [same] at h
    rw [eq_of_sameList h]
  | declaration v e, t, h => by cases t <;> simp_all [same]
  | expression e, t, h => by cases t <;> simp_all [same]
  | ifThen c s, t, h => by
    cases t <;> simp [same] at h
    rw [h.1, eq_of_same h.2]
  | ifElse c s u, t, h => by
    cases t <;> simp [same] at h
    rw [h.1.1, eq_of_same h.1.2, eq_of_same h.2]
  | whileLoop c s, t, h => by
    cases t <;> simp [same] at h
    rw [h.1, eq_of_same h.2]
  | forLoop v a b s, t, h => by
    cases t <;> simp [same] at h
    rw [h.1.1.1, h.1.1.2, h.1.2, eq_of_same h.2]
  | jump l, t, h => by cases t <;> simp_all [same]
  | jumpIf l c p, t, h => by cases t <;> simp_all [same]
  | label l, t, h => by cases t <;> simp_all [same]

theorem eq_of_sameList : ∀ {a b : List Stmt}, sameList a b = true → a = b
  | [], b, h => by cases b <;> simp_all [sameList]
  | s :: ss, b, h => by
    cases b <;> simp [sameList] at h
    rw [eq_of_same h.1, eq_of_sameList h.2]

end

mutual

theorem same_self : ∀ s : Stmt, s.same s = true
  | block a => by simp [same, sameList_self a]
  | declaration .. => by simp [same]
  | expression .. => by simp [same]
  | ifThen _ s => by simp [same, same_self s]
  | ifElse _ s t => by simp [same, same_self s, same_self t]
  | whileLoop _ s => by simp [same, same_self s]
  | forLoop _ _ _ s => by simp [same, same_self s]
  | jump .. => by simp [same]
  | jumpIf .. => by simp [same]
  | label .. => by simp [same]

theorem sameList_self : ∀ a : List Stmt, sameList a a = true
  | [] => by simp [sameList]
  | s :: ss => by simp [sameList, same_self s, sameList_self ss]

end

instance : DecidableEq Stmt := fun s t =>
  if h : s.same t = true then isTrue (eq_of_same h)
  else isFalse fun hst => h (hst ▸ same_self s)

end Stmt

end Bound

end Lumen
