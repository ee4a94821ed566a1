import Lumen.Dump
import Lumen.Tree

/-!
# Nodes of a syntax tree

Tokens and phrases of every sort are nodes. The ordered tree of a node has the parts of each phrase
as the children of the phrase, in the order of the text; an else keyword and the statement behind
it form a node of their own. Dumps, child numbers and lists of nodes are read off this one tree.
-/

namespace Lumen.Tree

inductive Node
  | token (t : Token)
  | expr (e : Expr)
  | stmt (s : Stmt)
  | elseClause (keyword : Token) (body : Stmt)
  | program (p : Program)

namespace Node

def kind : Node → Kind
  | token t => .token t.kind
  | expr e => .node e.kind
  | stmt s => .node s.kind
  | elseClause .. => .node .elseClause
  | program _ => .node .program

def span : Node → Span
  | token t => t.span
  | expr e => e.span
  | stmt s => s.span
  | elseClause k s => k.span.union s.span
  | program p => p.span

def leaves : Node → List Token
  | token t => [t]
  | expr e => e.leaves
  | stmt s => s.leaves
  | elseClause k s => k :: s.leaves
  | program p => p.leaves

/-- What a token is called in a dump. -/
def tokenLabel (t : Token) : String :=
  match t.value with
  | some v => s!"{t.kind.name} {v.text}"
  | none => if t.isMissing then s!"{t.kind.name} (missing)" else t.kind.name

def label : Node → String
  | token t => tokenLabel t
  | n => n.kind.name

end Node

def leafOf (t : Token) : Rose Node := .leaf (.token t)

def Expr.rose : Expr → Rose Node
  | e@(.literal t) => .node (.expr e) [leafOf t]
  | e@(.name t) => .node (.expr e) [leafOf t]
  | e@(.unary op a) => .node (.expr e) [leafOf op, a.rose]
  | e@(.binary l op r) => .node (.expr e) [l.rose, leafOf op, r.rose]
  | e@(.parenthesized o a c) => .node (.expr e) [leafOf o, a.rose, leafOf c]
  | e@(.assignment x eq a) => .node (.expr e) [leafOf x, leafOf eq, a.rose]

namespace Stmt

mutual

def rose : Stmt → Rose Node
  | s@(block o body c) => .node (.stmt s) (leafOf o :: (roseOfList body ++ [leafOf c]))
  | s@(declaration k x eq e) =>
    .node (.stmt s) [leafOf k, leafOf x, leafOf eq, e.rose]
  | s@(ifThen k e t) => .node (.stmt s) [leafOf k, e.rose, t.rose]
  | s@(ifElse k e t el u) =>
    .node (.stmt s)
      [leafOf k, e.rose, t.rose, .node (.elseClause el u) [leafOf el, u.rose]]
  | s@(whileLoop k e t) => .node (.stmt s) [leafOf k, e.rose, t.rose]
  | s@(forLoop k x eq lo toKw hi t) =>
    .node (.stmt s)
      [leafOf k, leafOf x, leafOf eq, lo.rose, leafOf toKw, hi.rose, t.rose]
  | s@(expression e) => .node (.stmt s) [e.rose]

def roseOfList : List Stmt → List (Rose Node)
  | [] => []
  | s :: ss => s.rose :: roseOfList ss

end

@[simp] theorem roseOfList_eq_map (ss : List Stmt) : roseOfList ss = ss.map rose := by
  induction ss with
  | nil => simp [roseOfList]
  | cons s ss ih => simp [roseOfList, ih]

end Stmt

def Program.rose (p : Program) : Rose Node :=
  .node (.program p) [p.statement.rose, leafOf p.endToken]

def dump (format : Dump.Format) (t : Rose Node) : String := Dump.render format [t.map Node.label]

end Lumen.Tree
