import Lumen.Proofs.Binding.Assignment
import Lumen.Proofs.Bound.Names

/-!
# The names in bound trees are written in the text

Whatever is wrong with a statement, every name in its bound tree is the text of one of its tokens or
the name of a variable in force around it.
-/

namespace Lumen.Binding

open Lumen.Bound (Node)
open Lumen.Tree (Expr Stmt)

variable {N : String → Prop}

theorem expr_named {env : Environment} (henv : ∀ v ∈ env.variables, N v.name) :
    ∀ t : Expr, (expr env t).phrase.rose.All (Node.Named N)
  | .literal t => by simp [expr, Bound.Expr.rose]
  | .name t => by
    rw [expr, name]
    split
    · simp [zero, Bound.Expr.rose]
    · split
      · next v hv => simp [Bound.Expr.rose, henv v (Environment.mem_of_lookup? hv)]
      · simp [zero, Bound.Expr.rose]
  | .assignment x eq source => by
    have hsource := expr_named henv source
    rw [expr, assignment]
    dsimp only
    split
    · exact hsource
    · next v hv =>
      split
      · simp [Bound.Expr.rose, hsource, henv v (Environment.mem_of_lookup? hv)]
      · exact hsource
  | .unary op source => by
    have hsource := expr_named henv source
    rw [expr, unary]
    dsimp only
    split
    · simp [Bound.Expr.rose, hsource]
    · exact hsource
  | .binary left op right => by
    have hleft := expr_named henv left
    have hright := expr_named henv right
    rw [expr, binary]
    dsimp only
    split
    · simp [Bound.Expr.rose, hleft, hright]
    · exact hleft
  | .parenthesized _ inner _ => expr_named henv inner

theorem variables_named {s : State} {t : Stmt} (henv : ∀ v ∈ s.env.variables, N v.name)
    (hnodes : (stmt s t).phrase.rose.All (Node.Named N)) :
    ∀ v ∈ (stmt s t).state.env.variables, N v.name := by
  intro v hv
  rcases mem_variables_stmt hv with hbefore | hdeclared
  · exact henv v hbefore
  · exact Bound.Stmt.named_of_declared hnodes hdeclared

mutual

/-- Every name in a bound statement is in force around it or is the text of one of its tokens. -/
theorem stmt_named : ∀ {s : State} {t : Stmt}, (∀ v ∈ s.env.variables, N v.name) →
    (∀ l ∈ t.leaves, N l.text) → (stmt s t).phrase.rose.All (Node.Named N)
  | s, .block _ body _, henv, hleaves => by
    simp only [Stmt.leaves, List.forall_mem_cons, List.forall_mem_append] at hleaves
    have hbody := stmts_named (s := ⟨s.env.push, s.fresh⟩) henv hleaves.2.1
    simpa [stmt, Bound.Stmt.rose] using hbody
  | s, .declaration k x _ source, henv, hleaves => by
    simp only [Stmt.leaves, List.forall_mem_cons] at hleaves
    simp [stmt, Bound.Stmt.rose, hleaves.2.1, expr_named henv source]
  | s, .ifThen _ condition consequence, henv, hleaves => by
    simp only [Stmt.leaves, List.forall_mem_cons, List.forall_mem_append] at hleaves
    have hthen := stmt_named henv hleaves.2.2
    simp [stmt, Bound.Stmt.rose, hthen, expr_named henv condition]
  | s, .ifElse _ condition consequence _ alternative, henv, hleaves => by
    simp only [Stmt.leaves, List.forall_mem_cons, List.forall_mem_append] at hleaves
    have hthen := stmt_named henv hleaves.2.1.2
    have helse := stmt_named (variables_named henv hthen) hleaves.2.2.2
    simp [stmt, Bound.Stmt.rose, hthen, helse, expr_named henv condition]
  | s, .whileLoop _ condition body, henv, hleaves => by
    simp only [Stmt.leaves, List.forall_mem_cons, List.forall_mem_append] at hleaves
    have hbody := stmt_named henv hleaves.2.2
    simp [stmt, Bound.Stmt.rose, hbody, expr_named henv condition]
  | s, .forLoop _ x _ lower _ upper body, henv, hleaves => by
    simp only [Stmt.leaves, List.forall_mem_cons, List.forall_mem_append] at hleaves
    obtain ⟨-, hx, -, -, -, -, hleaves⟩ := hleaves
    have hinner : ∀ v ∈ (declare ⟨s.env.push, s.fresh⟩ x .int false).state.env.variables,
        N v.name := by
      intro v hv
      rcases mem_variables_declare hv with hbefore | rfl
      · exact henv v hbefore
      · rw [phrase_declare]
        exact hx
    have hbody := stmt_named hinner hleaves
    simp [stmt, Bound.Stmt.rose, hx, hbody, expr_named henv lower, expr_named henv upper]
  | s, .expression source, henv, _ => by simp [stmt, Bound.Stmt.rose, expr_named henv source]

theorem stmts_named : ∀ {s : State} {ts : List Stmt}, (∀ v ∈ s.env.variables, N v.name) →
    (∀ l ∈ Stmt.leavesOfList ts, N l.text) →
      ∀ u ∈ (stmts s ts).phrase, u.rose.All (Node.Named N)
  | _, [], _, _ => List.forall_mem_nil _
  | s, t :: ts, henv, hleaves => by
    rw [Stmt.leavesOfList, List.forall_mem_append] at hleaves
    have hfirst := stmt_named henv hleaves.1
    exact List.forall_mem_cons.mpr
      ⟨hfirst, stmts_named (variables_named henv hfirst) hleaves.2⟩

end

end Lumen.Binding
