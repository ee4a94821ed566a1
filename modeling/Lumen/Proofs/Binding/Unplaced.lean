import Lumen.Binding
import Lumen.Proofs.Tree.Unplaced

/-!
# Binding without positions

Binding reads the kinds, texts and values of tokens; positions only reach the spans of complaints.
So a tree without the positions of its tokens is bound to the same phrases in the same scopes, and
complained about for the same causes.
-/

namespace Lumen.Binding

open Lumen.Tree (Expr Stmt)

variable {α : Type}

/-- Whether two resolved phrases differ in the spans of their complaints only. -/
structure Resolved.Alike (a b : Resolved α) : Prop where
  phrase : a.phrase = b.phrase
  causes : a.faults.map Diagnostic.cause = b.faults.map Diagnostic.cause

structure Step.Alike (a b : Step α) : Prop where
  phrase : a.phrase = b.phrase
  state : a.state = b.state
  causes : a.faults.map Diagnostic.cause = b.faults.map Diagnostic.cause

theorem name_unplaced (env : Environment) (t : Token) :
    (name env t.unplaced).Alike (name env t) := by
  rw [name, name]
  by_cases ht : t.isMissing = true
  · rw [if_pos ht, if_pos (show t.unplaced.isMissing = true from ht)]
    exact ⟨rfl, rfl⟩
  · rw [if_neg ht, if_neg (show ¬ t.unplaced.isMissing = true from ht), Token.text_unplaced]
    cases env.lookup? t.text <;> exact ⟨rfl, rfl⟩

theorem assignment_unplaced (env : Environment) (x eq : Token) (source : Expr) (e : Bound.Expr) :
    (assignment env x.unplaced eq.unplaced source.unplaced e).Alike
      (assignment env x eq source e) := by
  rw [assignment, assignment, Token.text_unplaced]
  cases env.lookup? x.text with
  | none => exact ⟨rfl, rfl⟩
  | some v =>
    dsimp only
    by_cases htype : e.type = v.type
    · rw [if_pos htype, if_pos htype]
      cases v.readOnly <;> exact ⟨rfl, rfl⟩
    · rw [if_neg htype, if_neg htype]
      cases v.readOnly <;> exact ⟨rfl, rfl⟩

theorem unary_unplaced (op : Token) (e : Bound.Expr) :
    (unary op.unplaced e).Alike (unary op e) := by
  rw [unary, unary, show op.unplaced.kind = op.kind from rfl]
  cases UnaryOperator.resolve? op.kind e.type <;> exact ⟨rfl, rfl⟩

theorem binary_unplaced (l : Bound.Expr) (op : Token) (r : Bound.Expr) :
    (binary l op.unplaced r).Alike (binary l op r) := by
  rw [binary, binary, show op.unplaced.kind = op.kind from rfl]
  cases BinaryOperator.resolve? op.kind l.type r.type <;> exact ⟨rfl, rfl⟩

theorem expr_unplaced (env : Environment) : ∀ e : Expr,
    (expr env e.unplaced).Alike (expr env e)
  | .literal _ => ⟨rfl, rfl⟩
  | .name t => name_unplaced env t
  | .unary op e => by
    have he := expr_unplaced env e
    have hop := unary_unplaced op (expr env e).phrase
    rw [Expr.unplaced, expr, expr, he.phrase]
    exact ⟨hop.phrase, by rw [List.map_append, List.map_append, he.causes, hop.causes]⟩
  | .binary l op r => by
    have hl := expr_unplaced env l
    have hr := expr_unplaced env r
    have hop := binary_unplaced (expr env l).phrase op (expr env r).phrase
    rw [Expr.unplaced, expr, expr, hl.phrase, hr.phrase]
    refine ⟨hop.phrase, ?_⟩
    simp only [List.map_append, hl.causes, hr.causes, hop.causes]
  | .parenthesized _ e _ => expr_unplaced env e
  | .assignment x eq e => by
    have he := expr_unplaced env e
    have hx := assignment_unplaced env x eq e (expr env e).phrase
    rw [Expr.unplaced, expr, expr, he.phrase]
    exact ⟨hx.phrase, by rw [List.map_append, List.map_append, he.causes, hx.causes]⟩

theorem exprOfType_unplaced (env : Environment) (e : Expr) (type : Ty) :
    (exprOfType env e.unplaced type).Alike (exprOfType env e type) := by
  have he := expr_unplaced env e
  rw [exprOfType, exprOfType, he.phrase]
  split
  · exact he
  · refine ⟨rfl, ?_⟩
    rw [List.map_append, List.map_append, he.causes]
    rfl

theorem declare_unplaced (s : State) (x : Token) (type : Ty) (readOnly : Bool) :
    (declare s x.unplaced type readOnly).Alike (declare s x type readOnly) := by
  rw [declare, declare, Token.text_unplaced]
  by_cases hx : x.isMissing = true
  · rw [if_pos hx, if_pos (show x.unplaced.isMissing = true from hx)]
    exact ⟨rfl, rfl, rfl⟩
  · rw [if_neg hx, if_neg (show ¬ x.unplaced.isMissing = true from hx)]
    cases s.env.declare? ⟨s.fresh, x.text, type, readOnly⟩ <;> exact ⟨rfl, rfl, rfl⟩

mutual

theorem stmt_unplaced : ∀ (s : State) (t : Stmt), (stmt s t.unplaced).Alike (stmt s t)
  | s, .block o body c => by
    have hbody := stmts_unplaced ⟨s.env.push, s.fresh⟩ body
    simp only [Stmt.unplaced, stmt]
    exact ⟨by rw [hbody.phrase], by rw [hbody.state], hbody.causes⟩
  | s, .declaration k x eq e => by
    have he := expr_unplaced s.env e
    have hx := declare_unplaced s x (expr s.env e).phrase.type (k.kind = .letKeyword)
    simp only [Stmt.unplaced, stmt, he.phrase]
    refine ⟨congrArg (Bound.Stmt.declaration · _) hx.phrase, hx.state, ?_⟩
    rw [List.map_append, List.map_append, he.causes]
    exact congrArg _ hx.causes
  | s, .ifThen k e t => by
    have he := exprOfType_unplaced s.env e .bool
    have ht := stmt_unplaced s t
    simp only [Stmt.unplaced, stmt]
    refine ⟨by rw [he.phrase, ht.phrase], ht.state, ?_⟩
    rw [List.map_append, List.map_append, he.causes, ht.causes]
  | s, .ifElse k e t el u => by
    have he := exprOfType_unplaced s.env e .bool
    have ht := stmt_unplaced s t
    have hu := stmt_unplaced (stmt s t).state u
    simp only [Stmt.unplaced, stmt, ht.state]
    refine ⟨by rw [he.phrase, ht.phrase, hu.phrase], hu.state, ?_⟩
    simp only [List.map_append, he.causes, ht.causes, hu.causes]
  | s, .whileLoop k e t => by
    have he := exprOfType_unplaced s.env e .bool
    have ht := stmt_unplaced s t
    simp only [Stmt.unplaced, stmt]
    refine ⟨by rw [he.phrase, ht.phrase], ht.state, ?_⟩
    rw [List.map_append, List.map_append, he.causes, ht.causes]
  | s, .forLoop k x eq lo toKw hi t => by
    have hlo := exprOfType_unplaced s.env lo .int
    have hhi := exprOfType_unplaced s.env hi .int
    have hx := declare_unplaced ⟨s.env.push, s.fresh⟩ x .int false
    have ht := stmt_unplaced (declare ⟨s.env.push, s.fresh⟩ x .int false).state t
    simp only [Stmt.unplaced, stmt, hx.state]
    refine ⟨by rw [hlo.phrase, hhi.phrase, hx.phrase, ht.phrase], by rw [ht.state], ?_⟩
    simp only [List.map_append, hlo.causes, hhi.causes, hx.causes, ht.causes]
  | s, .expression e => by
    have he := expr_unplaced s.env e
    simp only [Stmt.unplaced, stmt]
    exact ⟨by rw [he.phrase], rfl, he.causes⟩

theorem stmts_unplaced : ∀ (s : State) (ts : List Stmt),
    (stmts s (Stmt.unplacedOfList ts)).Alike (stmts s ts)
  | _, [] => ⟨rfl, rfl, rfl⟩
  | s, t :: ts => by
    have ht := stmt_unplaced s t
    have hts := stmts_unplaced (stmt s t).state ts
    simp only [Stmt.unplacedOfList, stmts, ht.state]
    refine ⟨by rw [ht.phrase, hts.phrase], hts.state, ?_⟩
    rw [List.map_append, List.map_append, ht.causes, hts.causes]

end

end Lumen.Binding
