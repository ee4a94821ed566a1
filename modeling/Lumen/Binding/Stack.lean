import Lumen.Binding

/-!
# Binding with a stack of scopes

Binding as it runs. One binder goes through a statement; it holds the scopes in force, how many of
them were opened on the way, and the complaints made so far. A block and a loop over numbers push a
scope and pop it again behind their parts. Nothing else restores the scopes, so what is left behind
a statement depends on every part of it.
-/

namespace Lumen

open Lumen.Tree (Expr Stmt)

/-- What binding has come to: the scopes in force, innermost first, the number of those opened on
the way, the number of the next variable, and the complaints. -/
structure Binder where
  scopes : List Scope
  depth : Nat
  fresh : Nat
  faults : List Diagnostic

namespace Binder

def push : StateM Binder Unit := modify fun b =>
  { b with scopes := [] :: b.scopes, depth := b.depth + 1 }

/-- Leaves the current scope. Without one, nothing happens. -/
def pop : StateM Binder Unit := modify fun b =>
  match b.scopes with
  | [] => b
  | _ :: outer => { b with scopes := outer, depth := b.depth - 1 }

def lookup (name : String) : StateM Binder (Option Variable) := do
  return (← get).scopes.findSome? (·.find? name)

def report (f : Diagnostic) : StateM Binder Unit := modify fun b =>
  { b with faults := b.faults ++ [f] }

/-- A variable of its own, in no scope. -/
def create (name : String) (type : Ty) (readOnly : Bool) : StateM Binder Variable :=
  modifyGet fun b => (⟨b.fresh, name, type, readOnly⟩, { b with fresh := b.fresh + 1 })

/-- Puts a variable in the current scope, unless its name is taken there. Without a scope, nothing
happens. -/
def place (x : Token) (v : Variable) : StateM Binder Unit := do
  match (← get).scopes with
  | [] => return
  | current :: outer =>
    match current.declare? v with
    | some scope => modify fun b => { b with scopes := scope :: outer }
    | none => report ⟨x.span, .alreadyDeclared x.text⟩

/-- Declares a variable. One that was made up, or whose name is taken, stays in no scope. -/
def declare (x : Token) (type : Ty) (readOnly : Bool) : StateM Binder Variable := do
  let v ← create x.text type readOnly
  if x.isMissing then return v
  place x v
  return v

def name (t : Token) : StateM Binder Bound.Expr := do
  if t.isMissing then return Binding.zero
  match ← lookup t.text with
  | some v => return .variable v
  | none =>
    report ⟨t.span, .undefinedName t.text⟩
    return Binding.zero

def assignment (x eq : Token) (source : Expr) (e : Bound.Expr) : StateM Binder Bound.Expr := do
  match ← lookup x.text with
  | none =>
    report ⟨x.span, .undefinedName x.text⟩
    return e
  | some v =>
    if v.readOnly then report ⟨eq.span, .cannotAssign x.text⟩
    if e.type = v.type then return .assignment v e
    report (Binding.mismatch source e.type v.type)
    return e

def unary (op : Token) (e : Bound.Expr) : StateM Binder Bound.Expr := do
  match UnaryOperator.resolve? op.kind e.type with
  | some o => return .unary o e
  | none =>
    report ⟨op.span, .undefinedUnaryOperator op.text e.type.name⟩
    return e

def binary (l : Bound.Expr) (op : Token) (r : Bound.Expr) : StateM Binder Bound.Expr := do
  match BinaryOperator.resolve? op.kind l.type r.type with
  | some o => return .binary l o r
  | none =>
    report ⟨op.span, .undefinedBinaryOperator op.text l.type.name r.type.name⟩
    return l

def expr : Expr → StateM Binder Bound.Expr
  | .literal t => return .literal (t.value.getD (.int 0))
  | .name t => name t
  | .assignment x eq source => do
    let e ← expr source
    assignment x eq source e
  | .unary op source => do
    let e ← expr source
    unary op e
  | .binary left op right => do
    let l ← expr left
    let r ← expr right
    binary l op r
  | .parenthesized _ e _ => expr e

def exprOfType (source : Expr) (type : Ty) : StateM Binder Bound.Expr := do
  let e ← expr source
  if e.type ≠ type then report (Binding.mismatch source e.type type)
  return e

mutual

def stmt : Stmt → StateM Binder Bound.Stmt
  | .block _ body _ => do
    push
    let ts ← stmts body
    pop
    return .block ts
  | .declaration k x _ source => do
    let e ← expr source
    let v ← declare x e.type (k.kind = .letKeyword)
    return .declaration v e
  | .ifThen _ condition consequence => do
    let c ← exprOfType condition .bool
    let t ← stmt consequence
    return .ifThen c t
  | .ifElse _ condition consequence _ alternative => do
    let c ← exprOfType condition .bool
    let t ← stmt consequence
    let u ← stmt alternative
    return .ifElse c t u
  | .whileLoop _ condition body => do
    let c ← exprOfType condition .bool
    let t ← stmt body
    return .whileLoop c t
  | .forLoop _ x _ lower _ upper body => do
    let lo ← exprOfType lower .int
    let hi ← exprOfType upper .int
    push
    let v ← declare x .int false
    let t ← stmt body
    pop
    return .forLoop v lo hi t
  | .expression source => do
    let e ← expr source
    return .expression e

def stmts : List Stmt → StateM Binder (List Bound.Stmt)
  | [] => return []
  | t :: ts => do
    let b ← stmt t
    let bs ← stmts ts
    return b :: bs

end

end Binder

end Lumen
