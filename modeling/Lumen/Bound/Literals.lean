import Lumen.Bound

/-!
# Literals of a bound tree

Replacing literals puts an expression in the place of each literal of a bound tree and keeps
everything else. The answer for a literal may depend on a state that is handed on from literal to
literal, in the order in which the literals are evaluated.
-/

namespace Lumen.Bound

variable {σ : Type}

/-- Replaces the literals of an expression. -/
def Expr.replaceLiterals (answer : Value → StateM σ Expr) : Expr → StateM σ Expr
  | .literal v => answer v
  | .variable v => pure (.variable v)
  | .assignment v e => do
    let e' ← e.replaceLiterals answer
    pure (.assignment v e')
  | .unary op e => do
    let e' ← e.replaceLiterals answer
    pure (.unary op e')
  | .binary l op r => do
    let l' ← l.replaceLiterals answer
    let r' ← r.replaceLiterals answer
    pure (.binary l' op r')

namespace Stmt

mutual

def replaceLiterals (answer : Value → StateM σ Expr) : Stmt → StateM σ Stmt
  | block body => do
    let body' ← replaceLiteralsOfList answer body
    pure (block body')
  | declaration v e => do
    let e' ← e.replaceLiterals answer
    pure (declaration v e')
  | expression e => do
    let e' ← e.replaceLiterals answer
    pure (expression e')
  | ifThen c s => do
    let c' ← c.replaceLiterals answer
    let s' ← s.replaceLiterals answer
    pure (ifThen c' s')
  | ifElse c s t => do
    let c' ← c.replaceLiterals answer
    let s' ← s.replaceLiterals answer
    let t' ← t.replaceLiterals answer
    pure (ifElse c' s' t')
  | whileLoop c s => do
    let c' ← c.replaceLiterals answer
    let s' ← s.replaceLiterals answer
    pure (whileLoop c' s')
  | forLoop v lo hi s => do
    let lo' ← lo.replaceLiterals answer
    let hi' ← hi.replaceLiterals answer
    let s' ← s.replaceLiterals answer
    pure (forLoop v lo' hi' s')
  | jump l => pure (jump l)
  | jumpIf l c onFalse => do
    let c' ← c.replaceLiterals answer
    pure (jumpIf l c' onFalse)
  | label l => pure (label l)

def replaceLiteralsOfList (answer : Value → StateM σ Expr) : List Stmt → StateM σ (List Stmt)
  | [] => pure []
  | s :: ss => do
    let s' ← s.replaceLiterals answer
    let ss' ← replaceLiteralsOfList answer ss
    pure (s' :: ss')

end

/-- Replaces each literal by a function of its value. -/
def mapLiterals (f : Value → Expr) (s : Stmt) : Stmt :=
  (s.replaceLiterals (σ := Unit) (fun v => pure (f v)) ()).1

end Stmt

end Lumen.Bound
