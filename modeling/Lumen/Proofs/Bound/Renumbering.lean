import Lumen.Proofs.Bound.Execution
import Lumen.Proofs.Bound.Writes

/-!
# Renumbering variables

The numbers of variables serve to tell them apart only. If the numbers of all variables of a
statement and of a store grow by the same amount, then the statement runs as before: it gives the
same values and faults, and the store that it leaves is that of the other run, renumbered.
-/

namespace Lumen

/-- A variable with a number that is larger by some amount. -/
def Variable.shift (d : Nat) (v : Variable) : Variable := { v with id := v.id + d }

@[simp] theorem Variable.name_shift (d : Nat) (v : Variable) : (v.shift d).name = v.name := rfl

@[simp] theorem Variable.type_shift (d : Nat) (v : Variable) : (v.shift d).type = v.type := rfl

@[simp] theorem Variable.readOnly_shift (d : Nat) (v : Variable) :
    (v.shift d).readOnly = v.readOnly := rfl

@[simp] theorem Variable.shift_inj {d : Nat} {v w : Variable} : v.shift d = w.shift d ↔ v = w := by
  obtain ⟨id, name, type, readOnly⟩ := v
  obtain ⟨id', name', type', readOnly'⟩ := w
  simp [shift]

/-- The variable that has the place of another one when the numbering starts at `b` and not at
`a`. -/
def Variable.renumber (a b : Nat) (v : Variable) : Variable := { v with id := v.id - a + b }

@[simp] theorem Variable.renumber_shift (a b : Nat) (v : Variable) :
    (v.shift a).renumber a b = v.shift b := by
  simp [renumber, shift]

namespace Store

def rename (f : Variable → Variable) (σ : Store) : Store :=
  ⟨σ.entries.map fun e => ⟨f e.key, e.value⟩⟩

def shift (d : Nat) (σ : Store) : Store := σ.rename (·.shift d)

variable {d : Nat}

@[simp] theorem renumber_shift (a b : Nat) (σ : Store) :
    (σ.shift a).rename (·.renumber a b) = σ.shift b := by
  simp [shift, rename]

@[simp] theorem get?_shift (σ : Store) (v : Variable) :
    (σ.shift d).get? (v.shift d) = σ.get? v := by
  obtain ⟨entries⟩ := σ
  simp only [get?, shift, rename]
  induction entries with
  | nil => rfl
  | cons e es ih => simp [find, ih]

@[simp] theorem set_shift (σ : Store) (v : Variable) (x : Value) :
    (σ.shift d).set (v.shift d) x = (σ.set v x).shift d := by
  obtain ⟨entries⟩ := σ
  simp only [set, shift, rename, Store.mk.injEq]
  induction entries with
  | nil => rfl
  | cons e es ih =>
    by_cases h : e.key = v
    · simp [write, h]
    · simp [write, h, ih]

end Store

def Outcome.shift {α : Type} (d : Nat) : Outcome α → Outcome α
  | done a s => done a (s.shift d)
  | fault f s => fault f (s.shift d)

@[simp] theorem Outcome.shift_done {α : Type} (d : Nat) (a : α) (s : Store) :
    (done a s).shift d = done a (s.shift d) := rfl

@[simp] theorem Outcome.shift_fault {α : Type} (d : Nat) (f : Fault) (s : Store) :
    (fault f s : Outcome α).shift d = fault f (s.shift d) := rfl

@[simp] theorem Outcome.shift_ofExcept {α : Type} (d : Nat) (s : Store) (r : Except Fault α) :
    (ofExcept s r).shift d = ofExcept (s.shift d) r := by
  cases r <;> rfl

namespace Bound

variable {d : Nat}

namespace Expr

def shift (d : Nat) : Expr → Expr
  | literal x => literal x
  | .variable v => .variable (v.shift d)
  | assignment v e => assignment (v.shift d) (e.shift d)
  | unary op e => unary op (e.shift d)
  | binary l op r => binary (l.shift d) op (r.shift d)

@[simp] theorem type_shift : ∀ e : Expr, (e.shift d).type = e.type
  | literal _ => rfl
  | .variable _ => rfl
  | assignment _ e => type_shift e
  | unary .. => rfl
  | binary .. => rfl

theorem eval_shift : ∀ (e : Expr) (s : Store), (e.shift d).eval (s.shift d) = (e.eval s).shift d
  | literal _, _ => rfl
  | .variable v, s => by
    simp only [shift, eval, Store.get?_shift]
    cases s.get? v <;> rfl
  | assignment v e, s => by
    simp only [shift, eval, eval_shift e]
    cases e.eval s with
    | done x s' => simp
    | fault f s' => rfl
  | unary op e, s => by
    simp only [shift, eval, eval_shift e]
    cases e.eval s with
    | done x s' => simp
    | fault f s' => rfl
  | binary l op r, s => by
    simp only [shift, eval, eval_shift l]
    cases l.eval s with
    | fault f s' => rfl
    | done x s' =>
      simp only [Outcome.shift_done, eval_shift r]
      cases r.eval s' with
      | fault f s'' => rfl
      | done y s'' => simp

theorem test_shift (c : Expr) (s : Store) : (c.shift d).test (s.shift d) = (c.test s).shift d := by
  rw [test, eval_shift, test]
  cases c.eval s with
  | fault f s' => rfl
  | done x s' =>
    simp only [Outcome.shift_done]
    cases x.truth? <;> rfl

end Expr

theorem withinUpper_shift (v : Variable) (upper : Expr) (s : Store) :
    withinUpper (v.shift d) (upper.shift d) (s.shift d) = (withinUpper v upper s).shift d := by
  rw [withinUpper, Store.get?_shift, withinUpper]
  cases s.get? v with
  | none => rfl
  | some x =>
    simp only [Expr.eval_shift]
    cases upper.eval s with
    | fault f s' => rfl
    | done y s' => cases x <;> cases y <;> rfl

namespace Run

/-- Whether a run is another one with renumbered variables. -/
def Shifts (d : Nat) (r r' : Run) : Prop :=
  ∀ last s, r' last (s.shift d) = (r last s).map (Outcome.shift d)

theorem Shifts.seq {r r' t t' : Run} (hr : Shifts d r r') (ht : Shifts d t t') :
    Shifts d (seq r t) (seq r' t') := by
  intro last s
  rw [Run.seq, Run.seq, hr last s]
  cases r last s with
  | none => rfl
  | some o =>
    cases o with
    | done l s' => exact ht l s'
    | fault f s' => rfl

theorem shifts_declare (v : Variable) (e : Expr) :
    Shifts d (declare v e) (declare (v.shift d) (e.shift d)) := by
  intro last s
  rw [declare, declare, Expr.eval_shift]
  cases e.eval s with
  | done x s' => simp
  | fault f s' => rfl

theorem shifts_record (e : Expr) : Shifts d (record e) (record (e.shift d)) := by
  intro last s
  rw [record, record, Expr.eval_shift]
  cases e.eval s <;> rfl

theorem shifts_advance (v : Variable) : Shifts d (advance v) (advance (v.shift d)) := by
  intro last s
  rw [advance, advance, Store.get?_shift]
  cases s.get? v with
  | none => rfl
  | some x => cases x <;> simp

theorem Shifts.choose {c : Expr} {r r' t t' : Run} (hr : Shifts d r r') (ht : Shifts d t t') :
    Shifts d (fun last s => (c.test s).andThen fun b s' => if b then r last s' else t last s')
      (fun last s =>
        ((c.shift d).test s).andThen fun b s' => if b then r' last s' else t' last s') := by
  intro last s
  dsimp only
  rw [Expr.test_shift]
  cases c.test s with
  | fault f s' => rfl
  | done b s' =>
    cases b with
    | false => exact ht last s'
    | true => exact hr last s'

theorem Shifts.repeatWhile {test test' : Store → Outcome Bool} {r r' : Run}
    (htest : ∀ s, test' (s.shift d) = (test s).shift d) (hr : Shifts d r r') (n : Nat) :
    Shifts d (repeatWhile test r n) (repeatWhile test' r' n) := by
  induction n with
  | zero => exact fun _ _ => rfl
  | succ n ih =>
    intro last s
    rw [Run.repeatWhile, Run.repeatWhile, htest]
    cases test s with
    | fault f s' => rfl
    | done goOn s' =>
      cases goOn with
      | false => rfl
      | true => exact hr.seq ih last s'

end Run

namespace Stmt

mutual

def shift (d : Nat) : Stmt → Stmt
  | block body => block (shiftList d body)
  | declaration v e => declaration (v.shift d) (e.shift d)
  | expression e => expression (e.shift d)
  | ifThen c s => ifThen (c.shift d) (s.shift d)
  | ifElse c s t => ifElse (c.shift d) (s.shift d) (t.shift d)
  | whileLoop c s => whileLoop (c.shift d) (s.shift d)
  | forLoop v lower upper s => forLoop (v.shift d) (lower.shift d) (upper.shift d) (s.shift d)
  | jump l => jump l
  | jumpIf l c onFalse => jumpIf l (c.shift d) onFalse
  | label l => label l

def shiftList (d : Nat) : List Stmt → List Stmt
  | [] => []
  | s :: ss => s.shift d :: shiftList d ss

end

mutual

theorem introduced_shift : ∀ s : Stmt, (s.shift d).introduced = s.introduced.map (·.shift d)
  | block body => introducedOfList_shiftList body
  | declaration .. => rfl
  | expression _ => rfl
  | ifThen _ s => introduced_shift s
  | ifElse _ s t => by
    rw [shift, introduced, introduced, introduced_shift s, introduced_shift t, List.map_append]
  | whileLoop _ s => introduced_shift s
  | forLoop v _ _ s => by rw [shift, introduced, introduced, introduced_shift s, List.map_cons]
  | jump _ => rfl
  | jumpIf .. => rfl
  | label _ => rfl

theorem introducedOfList_shiftList : ∀ ss : List Stmt,
    introducedOfList (shiftList d ss) = (introducedOfList ss).map (·.shift d)
  | [] => rfl
  | s :: ss => by
    rw [shiftList, introducedOfList, introducedOfList, introduced_shift s,
      introducedOfList_shiftList ss, List.map_append]

end

mutual

theorem exec_shift (n : Nat) : ∀ t : Stmt, Run.Shifts d (t.exec n) ((t.shift d).exec n)
  | block body => execList_shift n body
  | declaration v e => Run.shifts_declare v e
  | expression e => Run.shifts_record e
  | ifThen _ t => (exec_shift n t).choose fun _ _ => rfl
  | ifElse _ t u => (exec_shift n t).choose (exec_shift n u)
  | whileLoop c t => (exec_shift n t).repeatWhile c.test_shift n
  | forLoop v lower upper t =>
    (Run.shifts_declare v lower).seq
      (((exec_shift n t).seq (Run.shifts_advance v)).repeatWhile (withinUpper_shift v upper) n)
  | jump _ => fun _ _ => rfl
  | jumpIf .. => fun _ _ => rfl
  | label _ => fun _ _ => rfl

theorem execList_shift (n : Nat) : ∀ ts : List Stmt,
    Run.Shifts d (execList n ts) (execList n (shiftList d ts))
  | [] => fun _ _ => rfl
  | t :: ts => (exec_shift n t).seq (execList_shift n ts)

end

end Stmt

end Bound

end Lumen
