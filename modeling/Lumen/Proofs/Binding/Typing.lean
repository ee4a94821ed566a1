import Lumen.Proofs.Binding.Scopes
import Lumen.Proofs.Bound.Typing

/-!
# Binding gives well typed trees

Whatever a syntax tree contains, its bound tree applies every operator to operands of its types,
and stores in every variable values of its type; where a phrase does not allow that, binding leaves
it out. Only conditions and bounds may be of a wrong type, and binding complains about these.
-/

namespace Lumen.Binding

open Lumen.Tree (Expr Stmt)

theorem name_wellTyped (env : Environment) (t : Token) : (name env t).phrase.WellTyped := by
  rw [name]
  split
  · trivial
  · split <;> trivial

theorem assignment_wellTyped (env : Environment) (x eq : Token) (source : Expr)
    {e : Bound.Expr} (he : e.WellTyped) :
    (assignment env x eq source e).phrase.WellTyped := by
  rw [assignment]
  split
  · exact he
  · dsimp only
    split
    · next htype => exact ⟨htype, he⟩
    · exact he

theorem unary_wellTyped (op : Token) {e : Bound.Expr} (he : e.WellTyped) :
    (unary op e).phrase.WellTyped := by
  rw [unary]
  split
  · next o hresolve =>
    obtain ⟨ho, -, hoperand⟩ := UnaryOperator.resolve?_eq_some.mp hresolve
    exact ⟨ho, hoperand.symm, he⟩
  · exact he

theorem binary_wellTyped (op : Token) {l r : Bound.Expr} (hl : l.WellTyped)
    (hr : r.WellTyped) : (binary l op r).phrase.WellTyped := by
  rw [binary]
  split
  · next o hresolve =>
    obtain ⟨ho, -, hleft, hright⟩ := BinaryOperator.resolve?_eq_some.mp hresolve
    exact ⟨ho, hleft.symm, hright.symm, hl, hr⟩
  · exact hl

theorem expr_wellTyped (env : Environment) : ∀ t : Expr, (expr env t).phrase.WellTyped
  | .literal _ => trivial
  | .name t => name_wellTyped env t
  | .assignment x eq source => assignment_wellTyped env x eq source (expr_wellTyped env source)
  | .unary op source => unary_wellTyped op (expr_wellTyped env source)
  | .binary left op right =>
    binary_wellTyped op (expr_wellTyped env left) (expr_wellTyped env right)
  | .parenthesized _ inner _ => expr_wellTyped env inner

theorem exprOfType_wellTyped (env : Environment) (t : Expr) (type : Ty) :
    (exprOfType env t type).phrase.WellTyped := by
  rw [phrase_exprOfType]
  exact expr_wellTyped env t

theorem type_exprOfType {env : Environment} {t : Expr} {type : Ty}
    (h : (exprOfType env t type).faults = []) : (exprOfType env t type).phrase.type = type := by
  rw [exprOfType] at h ⊢
  split
  · next htype => exact htype
  · next htype =>
    rw [if_neg htype] at h
    exact absurd (List.append_eq_nil_iff.mp h).2 (List.cons_ne_nil _ _)

mutual

theorem stmt_wellTyped : ∀ {checked : Prop} (s : State) (t : Stmt),
    (checked → (stmt s t).faults = []) → (stmt s t).phrase.WellTyped checked
  | _, s, .block _ body _, h => stmts_wellTyped ⟨s.env.push, s.fresh⟩ body h
  | _, s, .declaration k x _ source, h =>
    ⟨expr_wellTyped s.env source, by rw [phrase_declare]⟩
  | _, s, .ifThen _ condition consequence, h => by
    simp only [stmt, List.append_eq_nil_iff] at h
    exact ⟨exprOfType_wellTyped .., fun hc => type_exprOfType (h hc).1,
      stmt_wellTyped s consequence fun hc => (h hc).2⟩
  | _, s, .ifElse _ condition consequence _ alternative, h => by
    simp only [stmt, List.append_eq_nil_iff] at h
    exact ⟨exprOfType_wellTyped .., fun hc => type_exprOfType (h hc).1.1,
      stmt_wellTyped s consequence fun hc => (h hc).1.2,
      stmt_wellTyped _ alternative fun hc => (h hc).2⟩
  | _, s, .whileLoop _ condition body, h => by
    simp only [stmt, List.append_eq_nil_iff] at h
    exact ⟨exprOfType_wellTyped .., fun hc => type_exprOfType (h hc).1,
      stmt_wellTyped s body fun hc => (h hc).2⟩
  | _, s, .forLoop _ x _ lower _ upper body, h => by
    simp only [stmt, List.append_eq_nil_iff] at h
    refine ⟨by rw [phrase_declare], exprOfType_wellTyped .., ?_, exprOfType_wellTyped .., ?_, ?_⟩
    · exact fun hc => type_exprOfType (h hc).1.1.1
    · exact fun hc => type_exprOfType (h hc).1.1.2
    · exact stmt_wellTyped _ body fun hc => (h hc).2
  | _, s, .expression source, _ => expr_wellTyped s.env source

theorem stmts_wellTyped : ∀ {checked : Prop} (s : State) (ts : List Stmt),
    (checked → (stmts s ts).faults = []) →
      Bound.Stmt.WellTypedList checked (stmts s ts).phrase
  | _, _, [], _ => trivial
  | _, s, t :: ts, h => by
    simp only [stmts, List.append_eq_nil_iff] at h
    exact ⟨stmt_wellTyped s t fun hc => (h hc).1, stmts_wellTyped _ ts fun hc => (h hc).2⟩

end

end Lumen.Binding
