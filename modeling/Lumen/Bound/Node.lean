import Lumen.Bound
import Lumen.Dump

/-!
# Nodes of a bound tree

Statements and expressions are nodes. The ordered tree of a node has the parts of each phrase as
the children of the phrase, in the order in which they are evaluated. Variables, operators, labels
and values are not nodes of their own: they stand in the label of the node that holds them.
-/

namespace Lumen.Bound

inductive Node
  | stmt (s : Stmt)
  | expr (e : Expr)
  deriving DecidableEq

def Expr.rose : Expr → Rose Node
  | e@(.literal _) => .leaf (.expr e)
  | e@(.variable _) => .leaf (.expr e)
  | e@(.assignment _ a) => .node (.expr e) [a.rose]
  | e@(.unary _ a) => .node (.expr e) [a.rose]
  | e@(.binary l _ r) => .node (.expr e) [l.rose, r.rose]

namespace Stmt

mutual

def rose : Stmt → Rose Node
  | s@(block body) => .node (.stmt s) (roseOfList body)
  | s@(declaration _ e) => .node (.stmt s) [e.rose]
  | s@(expression e) => .node (.stmt s) [e.rose]
  | s@(ifThen c t) => .node (.stmt s) [c.rose, t.rose]
  | s@(ifElse c t u) => .node (.stmt s) [c.rose, t.rose, u.rose]
  | s@(whileLoop c t) => .node (.stmt s) [c.rose, t.rose]
  | s@(forLoop _ lo hi t) => .node (.stmt s) [lo.rose, hi.rose, t.rose]
  | s@(jump _) => .leaf (.stmt s)
  | s@(jumpIf _ c _) => .node (.stmt s) [c.rose]
  | s@(label _) => .leaf (.stmt s)

def roseOfList : List Stmt → List (Rose Node)
  | [] => []
  | s :: ss => s.rose :: roseOfList ss

end

@[simp] theorem roseOfList_eq_map (ss : List Stmt) : roseOfList ss = ss.map rose := by
  induction ss with
  | nil => simp [roseOfList]
  | cons s ss ih => simp [roseOfList, ih]

/-- What a dump says about a statement besides its kind. -/
def properties? : Stmt → Option String
  | declaration v _ => some v.signature
  | forLoop v _ _ _ => some v.signature
  | jump l => some s!"Label: {l.name}"
  | jumpIf l _ onFalse => some s!"Label: {l.name}, JumpIfFalse: {onFalse}"
  | label l => some s!"Label: {l.name}"
  | _ => none

end Stmt

/-- What a dump says about an expression besides its kind and type. -/
def Expr.property : Expr → String
  | .literal v => s!"Value: {v.text}"
  | .variable v => s!"Variable: {v.name}"
  | .assignment v _ => s!"Variable: {v.name}"
  | .unary op _ => s!"Op: {op.kind.name}"
  | .binary _ op _ => s!"Op: {op.kind.name}"

def Node.label : Node → String
  | .stmt s =>
    match s.properties? with
    | some properties => s!"{s.kind.name} {properties}"
    | none => s.kind.name
  | .expr e => s!"{e.kind.name} {e.property}, Type: {e.type.name}"

def dump (format : Dump.Format) (s : Stmt) : String :=
  Dump.render format [s.rose.map Node.label]

/-- The dump of the statements of a program, each as a tree of its own. -/
def dumpProgram (format : Dump.Format) (program : List Stmt) : String :=
  Dump.render format (program.map fun s => s.rose.map Node.label)

end Lumen.Bound
