import Lumen.Proofs.Binding.Joining
import Lumen.Proofs.Bound.Renumbering

/-!
# Binding with other numbers

Binding looks at the names and types of variables and never at their numbers. So if the numbering
starts later, and the variables in force are renumbered, then the bound statement is renumbered and
the complaints are the same.
-/

namespace Lumen

variable {d : Nat}

def Scope.shift (d : Nat) (s : Scope) : Scope := s.map (·.shift d)

@[simp] theorem Scope.find?_shift (s : Scope) (name : String) :
    (s.shift d).find? name = (s.find? name).map (·.shift d) := by
  rw [shift, find?, List.find?_map]
  rfl

theorem Scope.global?_shift (outer : List Scope) (name : String) :
    global? (outer.map (·.shift d)) name = (global? outer name).map (·.shift d) := by
  induction outer with
  | nil => rfl
  | cons scope scopes ih =>
    rw [global?, global?, List.map_cons, List.findSome?_cons, List.findSome?_cons, find?_shift]
    cases scope.find? name with
    | none => exact ih
    | some v => rfl

namespace Environment

def shift (d : Nat) (env : Environment) : Environment :=
  ⟨env.current.shift d, env.outer.map (·.shift d)⟩

@[simp] theorem push_shift (env : Environment) : (env.shift d).push = env.push.shift d := rfl

theorem lookup?_shift (env : Environment) (name : String) :
    (env.shift d).lookup? name = (env.lookup? name).map (·.shift d) := by
  obtain ⟨current, outer⟩ := env
  rw [shift, lookup?_mk, lookup?_mk, Scope.find?_shift, Scope.global?_shift, Option.map_or]

end Environment

namespace Binding

open Lumen.Tree (Expr Stmt)

def Resolved.shift (d : Nat) (r : Resolved Bound.Expr) : Resolved Bound.Expr :=
  ⟨r.phrase.shift d, r.faults⟩

theorem name_shift (env : Environment) (t : Token) :
    name (env.shift d) t = (name env t).shift d := by
  rw [name, name, Environment.lookup?_shift]
  split
  · rfl
  · cases env.lookup? t.text <;> rfl

theorem assignment_shift (env : Environment) (x eq : Token) (source : Expr) (e : Bound.Expr) :
    assignment (env.shift d) x eq source (e.shift d) =
      (assignment env x eq source e).shift d := by
  rw [assignment, assignment, Environment.lookup?_shift]
  cases env.lookup? x.text with
  | none => rfl
  | some v =>
    simp only [Option.map_some, Bound.Expr.type_shift, Variable.type_shift, Variable.readOnly_shift]
    by_cases htype : e.type = v.type
    · rw [if_pos htype, if_pos htype]
      rfl
    · rw [if_neg htype, if_neg htype]
      rfl

theorem unary_shift (op : Token) (e : Bound.Expr) :
    unary op (e.shift d) = (unary op e).shift d := by
  rw [unary, unary, Bound.Expr.type_shift]
  split <;> rfl

theorem binary_shift (l : Bound.Expr) (op : Token) (r : Bound.Expr) :
    binary (l.shift d) op (r.shift d) = (binary l op r).shift d := by
  rw [binary, binary, Bound.Expr.type_shift, Bound.Expr.type_shift]
  split <;> rfl

theorem expr_shift (env : Environment) : ∀ t : Expr,
    expr (env.shift d) t = (expr env t).shift d
  | .literal _ => rfl
  | .name t => name_shift env t
  | .assignment x eq source => by
    rw [expr, expr, expr_shift env source]
    dsimp only [Resolved.shift]
    rw [assignment_shift]
    rfl
  | .unary op source => by
    rw [expr, expr, expr_shift env source]
    dsimp only [Resolved.shift]
    rw [unary_shift]
    rfl
  | .binary left op right => by
    rw [expr, expr, expr_shift env left, expr_shift env right]
    dsimp only [Resolved.shift]
    rw [binary_shift]
    rfl
  | .parenthesized _ inner _ => expr_shift env inner

theorem exprOfType_shift (env : Environment) (t : Expr) (type : Ty) :
    exprOfType (env.shift d) t type = (exprOfType env t type).shift d := by
  rw [exprOfType, exprOfType, expr_shift]
  simp only [Resolved.shift, Bound.Expr.type_shift]
  split <;> rfl

def State.shift (d : Nat) (s : State) : State := ⟨s.env.shift d, s.fresh + d⟩

@[simp] theorem State.env_shift (s : State) : (s.shift d).env = s.env.shift d := rfl

@[simp] theorem State.push_shift (s : State) :
    State.mk (s.shift d).env.push (s.shift d).fresh = (State.mk s.env.push s.fresh).shift d := rfl

/-- What binding a phrase gives when the numbering starts later. -/
def Step.shift {α : Type} (f : α → α) (d : Nat) (b : Step α) : Step α :=
  ⟨f b.phrase, b.state.shift d, b.faults⟩

theorem declare_shift (s : State) (x : Token) (type : Ty) (readOnly : Bool) :
    declare (s.shift d) x type readOnly =
      (declare s x type readOnly).shift (Variable.shift d) d := by
  obtain ⟨env, fresh⟩ := s
  have hfind : ((State.mk env fresh).shift d).env.current.find? x.text =
      (env.current.find? x.text).map (·.shift d) := Scope.find?_shift env.current x.text
  cases hx : x.isMissing with
  | true =>
    rw [declare_of_missing hx, declare_of_missing hx]
    simp [Step.shift, State.shift, Variable.shift, Nat.add_right_comm]
  | false =>
    by_cases hfree : env.current.find? x.text = none
    · rw [declare_of_free hx (by rw [hfind, hfree]; rfl), declare_of_free hx hfree]
      simp [Step.shift, State.shift, Environment.shift, Scope.shift, Variable.shift,
        Nat.add_right_comm]
    · have htaken : ((State.mk env fresh).shift d).env.current.find? x.text ≠ none := by
        rw [hfind]
        exact mt Option.map_eq_none_iff.mp hfree
      rw [declare_of_taken hx htaken, declare_of_taken hx hfree]
      simp [Step.shift, State.shift, Variable.shift, Nat.add_right_comm]

mutual

theorem stmt_shift : ∀ (s : State) (t : Stmt),
    stmt (s.shift d) t = (stmt s t).shift (Bound.Stmt.shift d) d
  | s, .block _ body _ => by
    rw [stmt, State.push_shift, stmts_shift ⟨s.env.push, s.fresh⟩ body, stmt]
    rfl
  | s, .declaration k x _ source => by
    rw [stmt, State.env_shift, expr_shift, stmt]
    simp only [Resolved.shift, Bound.Expr.type_shift, declare_shift]
    rfl
  | s, .ifThen _ condition consequence => by
    rw [stmt, State.env_shift, exprOfType_shift, stmt_shift s consequence, stmt]
    rfl
  | s, .ifElse _ condition consequence _ alternative => by
    rw [stmt, State.env_shift, exprOfType_shift, stmt_shift s consequence, stmt]
    simp only [Step.shift, stmt_shift (stmt s consequence).state alternative]
    rfl
  | s, .whileLoop _ condition body => by
    rw [stmt, State.env_shift, exprOfType_shift, stmt_shift s body, stmt]
    rfl
  | s, .forLoop _ x _ lower _ upper body => by
    have hv := declare_shift (d := d) ⟨s.env.push, s.fresh⟩ x .int false
    have hb := stmt_shift (declare ⟨s.env.push, s.fresh⟩ x .int false).state body
    rw [stmt, State.push_shift, State.env_shift, exprOfType_shift, exprOfType_shift, hv, stmt]
    simp only [Step.shift, hb]
    rfl
  | s, .expression source => by
    rw [stmt, State.env_shift, expr_shift, stmt]
    rfl

theorem stmts_shift : ∀ (s : State) (ts : List Stmt),
    stmts (s.shift d) ts = (stmts s ts).shift (Bound.Stmt.shiftList d) d
  | _, [] => rfl
  | s, t :: ts => by
    rw [stmts, stmt_shift s t, stmts]
    simp only [Step.shift, stmts_shift (stmt s t).state ts]
    rfl

end

end Binding

end Lumen
