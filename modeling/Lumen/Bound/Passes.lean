import Lumen.Bound.Lower

/-!
# Lowering in two passes

The flat form of a statement can be made in two passes. The first one puts a block of labels and
jumps in the place of each branch and loop, with labels drawn from a counter, so that nothing but
blocks is left around other statements. The second one takes the blocks apart, with a stack of what
is still to be put out.
-/

namespace Lumen.Bound.Stmt

def drawLabel : StateM Nat Label := fun drawn => (numbered (drawn + 1), drawn + 1)

/-- A loop whose condition is checked first, as a block. -/
def loopBlock (stop check again : Label) (condition : Expr) (body : Stmt) : Stmt :=
  block [jump check, label again, body, label check, jumpIf again condition false, label stop]

mutual

/-- Puts blocks of labels and jumps in the place of the branches and loops of a statement. -/
def toJumps : Stmt → StateM Nat Stmt
  | block body => do
    let body' ← toJumpsOfList body
    pure (block body')
  | ifThen c s => do
    let stop ← drawLabel
    let s' ← s.toJumps
    pure (block [jumpIf stop c true, s', label stop])
  | ifElse c s t => do
    let stop ← drawLabel
    let other ← drawLabel
    let s' ← s.toJumps
    let t' ← t.toJumps
    pure (block [jumpIf other c true, s', jump stop, label other, t', label stop])
  | whileLoop c s => do
    let stop ← drawLabel
    let check ← drawLabel
    let again ← drawLabel
    let s' ← s.toJumps
    pure (loopBlock stop check again c s')
  | forLoop v lo hi s => do
    let stop ← drawLabel
    let check ← drawLabel
    let again ← drawLabel
    let s' ← s.toJumps
    let body := block [s', increment v]
    pure (block [declaration v lo, loopBlock stop check again (withinBound v hi) body])
  | s => pure s

def toJumpsOfList : List Stmt → StateM Nat (List Stmt)
  | [] => pure []
  | s :: ss => do
    let s' ← s.toJumps
    let ss' ← toJumpsOfList ss
    pure (s' :: ss')

end

section

variable (c lo hi : Expr) (v : Variable) (s t : Stmt) (ss : List Stmt) (k : Nat)

theorem toJumps_block : (block ss).toJumps k =
    (block (toJumpsOfList ss k).1, (toJumpsOfList ss k).2) := rfl

theorem toJumps_ifThen : (ifThen c s).toJumps k =
    (block [jumpIf (numbered (k + 1)) c true, (s.toJumps (k + 1)).1, label (numbered (k + 1))],
      (s.toJumps (k + 1)).2) := rfl

theorem toJumps_ifElse :
    let a := s.toJumps (k + 2)
    let b := t.toJumps a.2
    (ifElse c s t).toJumps k =
      (block [jumpIf (numbered (k + 2)) c true, a.1, jump (numbered (k + 1)),
        label (numbered (k + 2)), b.1, label (numbered (k + 1))], b.2) := rfl

theorem toJumps_whileLoop :
    let a := s.toJumps (k + 3)
    (whileLoop c s).toJumps k =
      (loopBlock (numbered (k + 1)) (numbered (k + 2)) (numbered (k + 3)) c a.1, a.2) := rfl

theorem toJumps_forLoop :
    let a := s.toJumps (k + 3)
    (forLoop v lo hi s).toJumps k =
      (block [declaration v lo, loopBlock (numbered (k + 1)) (numbered (k + 2)) (numbered (k + 3))
        (withinBound v hi) (block [a.1, increment v])], a.2) := rfl

theorem toJumpsOfList_cons :
    let a := s.toJumps k
    let b := toJumpsOfList ss a.2
    toJumpsOfList (s :: ss) k = (a.1 :: b.1, b.2) := rfl

end

/-- Puts the statements of a block on a stack, the last one first. -/
def pushBlock (body stack : List Stmt) : List Stmt :=
  body.reverse.foldl (fun stack s => s :: stack) stack

theorem pushBlock_eq (body stack : List Stmt) : pushBlock body stack = body ++ stack := by
  simp [pushBlock]

theorem sizeOf_append (as bs : List Stmt) : sizeOf (as ++ bs) + 1 = sizeOf as + sizeOf bs := by
  induction as with
  | nil => simp [Nat.add_comm]
  | cons s ss ih =>
    rw [List.cons_append, List.cons.sizeOf_spec, List.cons.sizeOf_spec]
    omega

/-- Puts out the statements of a stack, from its top on; a block is replaced by its statements. -/
def flattenOnto (out : List Stmt) : List Stmt → List Stmt
  | [] => out
  | block body :: stack => flattenOnto out (pushBlock body stack)
  | s :: stack => flattenOnto (out ++ [s]) stack
termination_by stack => stack
decreasing_by
  · have hsize := sizeOf_append body stack
    rw [pushBlock_eq, List.cons.sizeOf_spec, block.sizeOf_spec]
    omega
  · rw [List.cons.sizeOf_spec]
    omega

def lowerInPasses (s : Stmt) : List Stmt := flattenOnto [] [(s.toJumps 0).1]

end Lumen.Bound.Stmt
