import Lumen.Bound

/-!
# Lowering

Lowering turns a bound tree into a flat list of statements: branches and loops become labels and
jumps, blocks are spliced into the list around them, and all other statements are kept. Labels are
numbered from one on in the order in which their branches and loops begin, so the labels of a
statement are known from the number of labels before it. They are counted by natural numbers; a
counter of 32 bits gives the same labels to a program with less than 2 ^ 32 of them.
-/

namespace Lumen.Bound

def numbered (n : Nat) : Label := ⟨s!"Label{n}"⟩

namespace Stmt

mutual

def labelCount : Stmt → Nat
  | ifThen _ s => 1 + s.labelCount
  | ifElse _ s t => 2 + s.labelCount + t.labelCount
  | whileLoop _ s => 3 + s.labelCount
  | forLoop _ _ _ s => 3 + s.labelCount
  | block body => labelCountOfList body
  | _ => 0

def labelCountOfList : List Stmt → Nat
  | [] => 0
  | s :: ss => s.labelCount + labelCountOfList ss

end

/-- A loop whose condition is checked first: the check stands behind the body and jumps back. -/
def loop (labels : Nat) (condition : Expr) (body : List Stmt) : List Stmt :=
  jump (numbered (labels + 2)) :: label (numbered (labels + 3)) ::
    (body ++
      [label (numbered (labels + 2)), jumpIf (numbered (labels + 3)) condition false,
        label (numbered (labels + 1))])

/-- The condition under which a loop over numbers goes on. -/
def withinBound (v : Variable) (upper : Expr) : Expr :=
  .binary (.variable v) .intLessOrEquals upper

def increment (v : Variable) : Stmt :=
  expression (.assignment v (.binary (.variable v) .intAddition (.literal (.int 1))))

mutual

/-- The flat form of a statement that comes behind a number of labels. -/
def lowerFrom (labels : Nat) : Stmt → List Stmt
  | block body => lowerList labels body
  | ifThen c s =>
    jumpIf (numbered (labels + 1)) c true ::
      (s.lowerFrom (labels + 1) ++ [label (numbered (labels + 1))])
  | ifElse c s t =>
    jumpIf (numbered (labels + 2)) c true ::
      (s.lowerFrom (labels + 2) ++
        jump (numbered (labels + 1)) :: label (numbered (labels + 2)) ::
          (t.lowerFrom (labels + 2 + s.labelCount) ++ [label (numbered (labels + 1))]))
  | whileLoop c s => loop labels c (s.lowerFrom (labels + 3))
  | forLoop v lo hi s =>
    declaration v lo ::
      loop labels (withinBound v hi) (s.lowerFrom (labels + 3) ++ [increment v])
  | s => [s]

def lowerList (labels : Nat) : List Stmt → List Stmt
  | [] => []
  | s :: ss => s.lowerFrom labels ++ lowerList (labels + s.labelCount) ss

end

def lower (s : Stmt) : List Stmt := s.lowerFrom 0

end Stmt

end Lumen.Bound
