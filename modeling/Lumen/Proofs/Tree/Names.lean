import Lumen.Diagnostic
import Lumen.Tree

/-!
# Names alone

Which names of a syntax tree are undefined or declared twice, found by a walk that knows scopes as
lists of names and nothing of types, operators or read-only variables. The right side of an
assignment is visited before the target, an initial value before the declared name, and both bounds
of a loop before its variable and its body. Blocks and loops over numbers open a scope. A made up
name is neither used nor declared; which targets of assignments are asked about is left open.
-/

namespace Lumen

/-- The names declared in the scope at a place and in the scopes around it, innermost first. -/
structure Names where
  current : List String
  outer : List (List String)

namespace Names

open Lumen.Tree (Expr Stmt)

/-- No names of an own scope inside given scopes. -/
def inside (outer : List (List String)) : Names := ⟨[], outer⟩

def push (n : Names) : Names := inside (n.current :: n.outer)

def Sees (n : Names) (name : String) : Prop := ∃ scope ∈ n.current :: n.outer, name ∈ scope

instance (n : Names) (name : String) : Decidable (n.Sees name) :=
  inferInstanceAs (Decidable (∃ scope ∈ n.current :: n.outer, name ∈ scope))

/-- The names behind a statement, and the complaints about names in it. -/
structure Noted where
  names : Names
  complaints : List Diagnostic

/-- The complaint about a name that is used or assigned to, if no scope in force has it. -/
def use (n : Names) (x : Token) : List Diagnostic :=
  if n.Sees x.text then [] else [⟨x.span, .undefinedName x.text⟩]

/-- Notes a declared name, unless it was made up or the very same scope has it. -/
def declare (n : Names) (x : Token) : Noted :=
  if x.isMissing then ⟨n, []⟩
  else if x.text ∈ n.current then ⟨n, [⟨x.span, .alreadyDeclared x.text⟩]⟩
  else ⟨⟨n.current ++ [x.text], n.outer⟩, []⟩

def expr (asks : Token → Bool) (n : Names) : Expr → List Diagnostic
  | .literal _ => []
  | .name x => if x.isMissing then [] else n.use x
  | .assignment x _ source => n.expr asks source ++ if asks x then n.use x else []
  | .unary _ e => n.expr asks e
  | .binary l _ r => n.expr asks l ++ n.expr asks r
  | .parenthesized _ e _ => n.expr asks e

mutual

def stmt (asks : Token → Bool) (n : Names) : Stmt → Noted
  | .block _ body _ => ⟨n, (n.push.stmts asks body).complaints⟩
  | .declaration _ x _ source =>
    let v := n.declare x
    ⟨v.names, n.expr asks source ++ v.complaints⟩
  | .ifThen _ condition consequence =>
    let t := n.stmt asks consequence
    ⟨t.names, n.expr asks condition ++ t.complaints⟩
  | .ifElse _ condition consequence _ alternative =>
    let t := n.stmt asks consequence
    let u := t.names.stmt asks alternative
    ⟨u.names, n.expr asks condition ++ t.complaints ++ u.complaints⟩
  | .whileLoop _ condition body =>
    let b := n.stmt asks body
    ⟨b.names, n.expr asks condition ++ b.complaints⟩
  | .forLoop _ x _ lower _ upper body =>
    let v := n.push.declare x
    let b := v.names.stmt asks body
    ⟨n, n.expr asks lower ++ n.expr asks upper ++ v.complaints ++ b.complaints⟩
  | .expression source => ⟨n, n.expr asks source⟩

def stmts (asks : Token → Bool) (n : Names) : List Stmt → Noted
  | [] => ⟨n, []⟩
  | t :: ts =>
    let b := n.stmt asks t
    let bs := b.names.stmts asks ts
    ⟨bs.names, b.complaints ++ bs.complaints⟩

end

end Names

end Lumen
