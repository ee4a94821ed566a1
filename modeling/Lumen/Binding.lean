import Lumen.Bound
import Lumen.Scope
import Lumen.Tree

/-!
# Binding

Binding resolves the names and operators of a syntax tree and checks its types. It never fails:
where something is wrong it complains and goes on with the best node at hand, so one pass finds all
faults that do not depend on each other. Phrases made up by the parser are not complained about
again.

Names live in scopes. A block opens one, and so does a loop over numbers for its variable and its
body; branches and other loops open none. A declared name is visible behind its declaration only,
not in its own initial value.
-/

namespace Lumen.Binding

open Lumen.Tree (Expr Stmt)

/-- A resolved phrase and the complaints about it. -/
structure Resolved (α : Type) where
  phrase : α
  faults : List Diagnostic

/-- The complaint that an expression has not the type that its place asks for. -/
def mismatch (e : Expr) (found expected : Ty) : Diagnostic :=
  ⟨e.span, .cannotConvert found.name expected.name⟩

/-- The expression that stands in for a value that is not known. -/
def zero : Bound.Expr := .literal (.int 0)

def name (env : Environment) (t : Token) : Resolved Bound.Expr :=
  if t.isMissing then ⟨zero, []⟩
  else
    match env.lookup? t.text with
    | some v => ⟨.variable v, []⟩
    | none => ⟨zero, [⟨t.span, .undefinedName t.text⟩]⟩

def assignment (env : Environment) (x eq : Token) (source : Expr) (e : Bound.Expr) :
    Resolved Bound.Expr :=
  match env.lookup? x.text with
  | none => ⟨e, [⟨x.span, .undefinedName x.text⟩]⟩
  | some v =>
    let fixed := if v.readOnly then [⟨eq.span, .cannotAssign x.text⟩] else []
    if e.type = v.type then ⟨.assignment v e, fixed⟩
    else ⟨e, fixed ++ [mismatch source e.type v.type]⟩

def unary (op : Token) (e : Bound.Expr) : Resolved Bound.Expr :=
  match UnaryOperator.resolve? op.kind e.type with
  | some o => ⟨.unary o e, []⟩
  | none => ⟨e, [⟨op.span, .undefinedUnaryOperator op.text e.type.name⟩]⟩

def binary (l : Bound.Expr) (op : Token) (r : Bound.Expr) : Resolved Bound.Expr :=
  match BinaryOperator.resolve? op.kind l.type r.type with
  | some o => ⟨.binary l o r, []⟩
  | none => ⟨l, [⟨op.span, .undefinedBinaryOperator op.text l.type.name r.type.name⟩]⟩

def expr (env : Environment) : Expr → Resolved Bound.Expr
  | .literal t => ⟨.literal (t.value.getD (.int 0)), []⟩
  | .name t => name env t
  | .assignment x eq source =>
    let e := expr env source
    let a := assignment env x eq source e.phrase
    ⟨a.phrase, e.faults ++ a.faults⟩
  | .unary op source =>
    let e := expr env source
    let u := unary op e.phrase
    ⟨u.phrase, e.faults ++ u.faults⟩
  | .binary left op right =>
    let l := expr env left
    let r := expr env right
    let b := binary l.phrase op r.phrase
    ⟨b.phrase, l.faults ++ r.faults ++ b.faults⟩
  | .parenthesized _ e _ => expr env e

def exprOfType (env : Environment) (source : Expr) (type : Ty) : Resolved Bound.Expr :=
  let e := expr env source
  if e.phrase.type = type then e
  else ⟨e.phrase, e.faults ++ [mismatch source e.phrase.type type]⟩

/-- The names in force at a place, and the number of the next variable. -/
structure State where
  env : Environment
  fresh : Nat

/-- A bound phrase, the names in force behind it, and the complaints about it. -/
structure Step (α : Type) where
  phrase : α
  state : State
  faults : List Diagnostic

/-- Declares a variable. One that was made up, or whose name is taken, belongs to no scope. -/
def declare (s : State) (x : Token) (type : Ty) (readOnly : Bool) : Step Variable :=
  let v : Variable := ⟨s.fresh, x.text, type, readOnly⟩
  if x.isMissing then ⟨v, { s with fresh := s.fresh + 1 }, []⟩
  else
    match s.env.declare? v with
    | some env => ⟨v, ⟨env, s.fresh + 1⟩, []⟩
    | none => ⟨v, { s with fresh := s.fresh + 1 }, [⟨x.span, .alreadyDeclared x.text⟩]⟩

mutual

def stmt (s : State) : Stmt → Step Bound.Stmt
  | .block _ body _ =>
    let b := stmts ⟨s.env.push, s.fresh⟩ body
    ⟨.block b.phrase, ⟨s.env, b.state.fresh⟩, b.faults⟩
  | .declaration k x _ source =>
    let e := expr s.env source
    let v := declare s x e.phrase.type (k.kind = .letKeyword)
    ⟨.declaration v.phrase e.phrase, v.state, e.faults ++ v.faults⟩
  | .ifThen _ condition consequence =>
    let c := exprOfType s.env condition .bool
    let t := stmt s consequence
    ⟨.ifThen c.phrase t.phrase, t.state, c.faults ++ t.faults⟩
  | .ifElse _ condition consequence _ alternative =>
    let c := exprOfType s.env condition .bool
    let t := stmt s consequence
    let u := stmt t.state alternative
    ⟨.ifElse c.phrase t.phrase u.phrase, u.state, c.faults ++ t.faults ++ u.faults⟩
  | .whileLoop _ condition body =>
    let c := exprOfType s.env condition .bool
    let b := stmt s body
    ⟨.whileLoop c.phrase b.phrase, b.state, c.faults ++ b.faults⟩
  | .forLoop _ x _ lower _ upper body =>
    let lo := exprOfType s.env lower .int
    let hi := exprOfType s.env upper .int
    let v := declare ⟨s.env.push, s.fresh⟩ x .int false
    let b := stmt v.state body
    ⟨.forLoop v.phrase lo.phrase hi.phrase b.phrase, ⟨s.env, b.state.fresh⟩,
      lo.faults ++ hi.faults ++ v.faults ++ b.faults⟩
  | .expression source =>
    let e := expr s.env source
    ⟨.expression e.phrase, s, e.faults⟩

def stmts (s : State) : List Stmt → Step (List Bound.Stmt)
  | [] => ⟨[], s, []⟩
  | t :: ts =>
    let b := stmt s t
    let bs := stmts b.state ts
    ⟨b.phrase :: bs.phrase, bs.state, b.faults ++ bs.faults⟩

end

end Lumen.Binding
