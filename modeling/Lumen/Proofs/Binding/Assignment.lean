import Lumen.Proofs.Binding.Scopes
import Lumen.Proofs.Bound.Assignment

/-!
# Binding puts declarations before uses

A bound statement reads variables of the scopes in force only, and these are the variables given at
first and the ones declared before. So every statement that is bound where certain variables have
values is covered by them, save for the conditional variables.
-/

namespace Lumen.Binding

open Lumen.Tree (Expr Stmt)

variable {v : Variable}

theorem reads_expr {env : Environment} : ∀ {t : Expr},
    v ∈ (expr env t).phrase.reads → v ∈ env.variables
  | .literal _, h => nomatch h
  | .name t, h => by
    rw [expr, name] at h
    split at h
    · cases h
    · split at h
      · next w hw =>
        cases List.mem_singleton.mp h
        exact Environment.mem_of_lookup? hw
      · cases h
  | .assignment x eq source, h => by
    refine reads_expr (t := source) ?_
    rw [expr, assignment] at h
    dsimp only at h
    split at h
    · exact h
    · split at h <;> exact h
  | .unary op source, h => by
    refine reads_expr (t := source) ?_
    rw [expr, unary] at h
    dsimp only at h
    split at h <;> exact h
  | .binary left op right, h => by
    rw [expr, binary] at h
    dsimp only at h
    split at h
    · rcases List.mem_append.mp h with h | h
      · exact reads_expr h
      · exact reads_expr h
    · exact reads_expr h
  | .parenthesized _ inner _, h => reads_expr (t := inner) h

theorem mem_current_stmt : ∀ {s : State} {t : Stmt}, v ∈ (stmt s t).state.env.current →
    v ∈ s.env.current ∨ v ∈ (stmt s t).phrase.declared
  | _, .block .., h => .inl h
  | s, .declaration k x _ source, h => by
    rw [stmt] at h ⊢
    dsimp only at h ⊢
    rcases env_declare s x (expr s.env source).phrase.type (k.kind = .letKeyword) with henv | henv
    · rw [henv] at h
      exact .inl h
    · rw [henv] at h
      exact List.mem_append.mp h
  | s, .ifThen _ _ consequence, h => mem_current_stmt (t := consequence) h
  | s, .ifElse _ _ consequence _ alternative, h => by
    rcases mem_current_stmt (t := alternative) h with h | h
    · rcases mem_current_stmt (t := consequence) h with h | h
      · exact .inl h
      · exact .inr (List.mem_append_left _ h)
    · exact .inr (List.mem_append_right _ h)
  | s, .whileLoop _ _ body, h => mem_current_stmt (t := body) h
  | _, .forLoop .., h => .inl h
  | _, .expression _, h => .inl h

theorem mem_variables_stmt {s : State} {t : Stmt} (h : v ∈ (stmt s t).state.env.variables) :
    v ∈ s.env.variables ∨ v ∈ (stmt s t).phrase.declared := by
  rcases List.mem_append.mp h with h | h
  · exact (mem_current_stmt h).imp_left (List.mem_append_left _)
  · rw [outer_stmt] at h
    exact .inl (List.mem_append_right _ h)

theorem mem_variables_declare {s : State} {x : Token} {type : Ty} {readOnly : Bool}
    (h : v ∈ (declare s x type readOnly).state.env.variables) :
    v ∈ s.env.variables ∨ v = (declare s x type readOnly).phrase := by
  rcases env_declare s x type readOnly with henv | henv
  · rw [henv] at h
    exact .inl h
  · rw [henv, Environment.variables, List.append_assoc] at h
    rcases List.mem_append.mp h with h | h
    · exact .inl (List.mem_append_left _ h)
    · rcases List.mem_append.mp h with h | h
      · exact .inr (List.mem_singleton.mp h)
      · exact .inl (List.mem_append_right _ h)

variable {exempt : Variable → Prop} {vs : List Variable}

theorem expr_covered {env : Environment} (henv : ∀ v ∈ env.variables, v ∈ vs ∨ exempt v)
    (t : Expr) : (expr env t).phrase.Covered exempt vs :=
  fun v hv => henv v (reads_expr hv)

theorem exprOfType_covered {env : Environment} (henv : ∀ v ∈ env.variables, v ∈ vs ∨ exempt v)
    (t : Expr) (type : Ty) : (exprOfType env t type).phrase.Covered exempt vs := by
  rw [phrase_exprOfType]
  exact expr_covered henv t

mutual

/-- A bound statement is covered by the variables in force at its beginning, if its conditional
variables are exempt. -/
theorem stmt_covered : ∀ {s : State} {t : Stmt} {vs : List Variable},
    (∀ v ∈ s.env.variables, v ∈ vs ∨ exempt v) →
      (∀ v ∈ (stmt s t).phrase.conditional, exempt v) → (stmt s t).phrase.Covered exempt vs
  | s, .block _ body _, _, henv, hexempt =>
    stmts_covered (s := ⟨s.env.push, s.fresh⟩) henv hexempt
  | _, .declaration _ _ _ source, _, henv, _ => expr_covered henv source
  | _, .ifThen _ condition consequence, _, henv, hexempt =>
    ⟨exprOfType_covered henv condition .bool,
      stmt_covered (t := consequence) henv (List.forall_mem_append.mp hexempt).2⟩
  | s, .ifElse _ condition consequence _ alternative, vs, henv, hexempt => by
    obtain ⟨hthen, helse⟩ := List.forall_mem_append.mp hexempt
    obtain ⟨hdeclared, hthen⟩ := List.forall_mem_append.mp hthen
    have henv' : ∀ v ∈ (stmt s consequence).state.env.variables, v ∈ vs ∨ exempt v := by
      intro v hv
      rcases mem_variables_stmt hv with hv | hv
      · exact henv v hv
      · exact .inr (hdeclared v hv)
    exact ⟨exprOfType_covered henv condition .bool, stmt_covered henv hthen,
      stmt_covered henv' (List.forall_mem_append.mp helse).2⟩
  | _, .whileLoop _ condition body, _, henv, hexempt =>
    ⟨exprOfType_covered henv condition .bool,
      stmt_covered (t := body) henv (List.forall_mem_append.mp hexempt).2⟩
  | s, .forLoop _ x _ lower _ upper body, vs, henv, hexempt => by
    refine ⟨exprOfType_covered henv lower .int, exprOfType_covered henv upper .int,
      stmt_covered (fun v hv => ?_) hexempt⟩
    rcases mem_variables_declare hv with hv | hv
    · exact (henv v hv).imp_left (List.mem_append_left _)
    · exact .inl (List.mem_append_right _ (List.mem_singleton.mpr hv))
  | _, .expression source, _, henv, _ => expr_covered henv source

theorem stmts_covered : ∀ {s : State} {ts : List Stmt} {vs : List Variable},
    (∀ v ∈ s.env.variables, v ∈ vs ∨ exempt v) →
      (∀ v ∈ Bound.Stmt.conditionalList (stmts s ts).phrase, exempt v) →
        Bound.Stmt.CoveredList exempt vs (stmts s ts).phrase
  | _, [], _, _, _ => trivial
  | s, t :: ts, vs, henv, hexempt => by
    obtain ⟨hfirst, hrest⟩ := List.forall_mem_append.mp hexempt
    refine ⟨stmt_covered henv hfirst, stmts_covered (fun v hv => ?_) hrest⟩
    rcases mem_variables_stmt hv with hv | hv
    · exact (henv v hv).imp_left (List.mem_append_left _)
    · rcases Bound.Stmt.definite_or_conditional hv with hv | hv
      · exact .inl (List.mem_append_right _ hv)
      · exact .inr (hfirst v hv)

end

end Lumen.Binding
