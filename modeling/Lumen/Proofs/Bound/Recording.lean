import Lumen.Proofs.Bound.Execution

/-!
# The value recorded last

A run neither reads the value that was recorded before it nor forgets it: if the run records no value
of its own, the value before it stands. So statements may be run with nothing recorded before them,
and the values be put together afterwards.
-/

namespace Lumen

/-- An outcome behind a recorded value, which stands if no other one was recorded. -/
def Outcome.behind (last : Option Value) : Outcome (Option Value) → Outcome (Option Value)
  | done x s => done (x.or last) s
  | fault f s => fault f s

theorem Outcome.behind_behind (o : Outcome (Option Value)) (x last : Option Value) :
    (o.behind x).behind last = o.behind (x.or last) := by
  cases o with
  | done y s => exact congrArg (done · s) Option.or_assoc
  | fault f s => rfl

namespace Bound

namespace Run

/-- Whether a run treats the value recorded before it as one that stands if there is no other. -/
def Records (r : Run) : Prop := ∀ last s, r last s = (r none s).map (·.behind last)

theorem records_skip : Records skip := fun last _ => by
  rw [skip, skip, Option.map_some, Outcome.behind, Option.none_or]

theorem records_declare (v : Variable) (e : Expr) : Records (declare v e) := by
  intro last s
  rw [declare, declare]
  cases e.eval s <;> rfl

theorem records_record (e : Expr) : Records (record e) := by
  intro last s
  rw [record, record]
  cases e.eval s <;> rfl

theorem records_advance (v : Variable) : Records (advance v) := by
  intro last s
  rw [advance, advance]
  cases s.get? v with
  | none => rfl
  | some x => cases x <;> rfl

theorem Records.seq {r t : Run} (hr : Records r) (ht : Records t) : Records (seq r t) := by
  intro last s
  rw [Run.seq, Run.seq, hr last s]
  cases r none s with
  | none => rfl
  | some o =>
    cases o with
    | fault f s' => rfl
    | done x s' =>
      have hbefore : t x s' = (t none s').map (·.behind x) := ht x s'
      have hboth : t (x.or last) s' = (t none s').map (·.behind (x.or last)) := ht _ s'
      simp only [Option.map_some, Option.bind_some, Outcome.behind, Outcome.andThen_done, hbefore,
        hboth, Option.map_map]
      refine congrArg (Option.map · _) (funext fun o => ?_)
      exact (o.behind_behind x last).symm

theorem Records.choose {c : Expr} {r t : Run} (hr : Records r) (ht : Records t) :
    Records fun last s => (c.test s).andThen fun b s' => if b then r last s' else t last s' := by
  intro last s
  dsimp only
  cases c.test s with
  | fault f s' => rfl
  | done b s' =>
    cases b with
    | false => exact ht last s'
    | true => exact hr last s'

theorem Records.repeatWhile {test : Store → Outcome Bool} {r : Run} (hr : Records r) (n : Nat) :
    Records (repeatWhile test r n) := by
  induction n with
  | zero => exact fun _ _ => rfl
  | succ n ih =>
    intro last s
    rw [Run.repeatWhile, Run.repeatWhile]
    cases test s with
    | fault f s' => rfl
    | done goOn s' =>
      cases goOn with
      | false => exact records_skip last s'
      | true => exact hr.seq ih last s'

end Run

namespace Stmt

mutual

/-- A statement keeps the value recorded before it, unless it records one itself. -/
theorem exec_records (n : Nat) : ∀ t : Stmt, (t.exec n).Records
  | block body => execList_records n body
  | declaration v e => Run.records_declare v e
  | expression e => Run.records_record e
  | ifThen _ t => (exec_records n t).choose Run.records_skip
  | ifElse _ t u => (exec_records n t).choose (exec_records n u)
  | whileLoop _ t => (exec_records n t).repeatWhile n
  | forLoop v lower _ t =>
    (Run.records_declare v lower).seq
      (((exec_records n t).seq (Run.records_advance v)).repeatWhile n)
  | jump _ => fun _ _ => rfl
  | jumpIf .. => fun _ _ => rfl
  | label _ => fun _ _ => rfl

theorem execList_records (n : Nat) : ∀ ts : List Stmt, (execList n ts).Records
  | [] => Run.records_skip
  | t :: ts => (exec_records n t).seq (execList_records n ts)

end

end Stmt

end Bound

end Lumen
