import Lumen.Binding
import Lumen.Proofs.Bound.Labels

/-!
# Scopes behind a statement

Binding a statement leaves the scopes around the current one as they are, and adds to the current
one only variables that the bound statement declares in the scope around it. The names of a bound
expression are variables of the scopes in force.
-/

namespace Lumen

def Environment.variables (env : Environment) : List Variable := env.current ++ env.outer.flatten

theorem Environment.mem_of_lookup? {env : Environment} {name : String} {v : Variable}
    (h : env.lookup? name = some v) : v ∈ env.variables := by
  obtain ⟨scope, hscope, hv⟩ := List.exists_of_findSome?_eq_some h
  have hmem : v ∈ (env.current :: env.outer).flatten :=
    List.mem_flatten_of_mem hscope (List.mem_of_find?_eq_some hv)
  exact hmem

namespace Binding

open Lumen.Tree (Expr Stmt)

@[simp] theorem phrase_exprOfType (env : Environment) (t : Expr) (type : Ty) :
    (exprOfType env t type).phrase = (expr env t).phrase := by
  rw [exprOfType]
  split <;> rfl

@[simp] theorem phrase_declare (s : State) (x : Token) (type : Ty) (readOnly : Bool) :
    (declare s x type readOnly).phrase = ⟨s.fresh, x.text, type, readOnly⟩ := by
  rw [declare]
  split
  · rfl
  · split <;> rfl

theorem env_declare (s : State) (x : Token) (type : Ty) (readOnly : Bool) :
    (declare s x type readOnly).state.env = s.env ∨
      (declare s x type readOnly).state.env =
        ⟨s.env.current ++ [(declare s x type readOnly).phrase], s.env.outer⟩ := by
  rw [phrase_declare, declare]
  split
  · exact .inl rfl
  · split
    · next env henv =>
      obtain ⟨scope, hscope, rfl⟩ := Option.map_eq_some_iff.mp henv
      rw [(Scope.declare?_eq_some hscope).2]
      exact .inr rfl
    · exact .inl rfl

mutual

theorem stmt_structured : ∀ (s : State) (t : Stmt), (stmt s t).phrase.Structured
  | s, .block _ body _ => stmts_structured ⟨s.env.push, s.fresh⟩ body
  | _, .declaration .. => trivial
  | s, .ifThen _ _ consequence => stmt_structured s consequence
  | s, .ifElse _ _ consequence _ alternative =>
    ⟨stmt_structured s consequence, stmt_structured _ alternative⟩
  | s, .whileLoop _ _ body => stmt_structured s body
  | _, .forLoop _ _ _ _ _ _ body => stmt_structured _ body
  | _, .expression _ => trivial

theorem stmts_structured : ∀ (s : State) (ts : List Stmt),
    Bound.Stmt.StructuredList (stmts s ts).phrase
  | _, [] => trivial
  | s, t :: ts => ⟨stmt_structured s t, stmts_structured _ ts⟩

end

theorem outer_stmt : ∀ (s : State) (t : Stmt), (stmt s t).state.env.outer = s.env.outer
  | _, .block .. => rfl
  | s, .declaration k x _ source => by
    rcases env_declare s x (expr s.env source).phrase.type (k.kind = .letKeyword) with h | h
    · rw [stmt, h]
    · rw [stmt, h]
  | s, .ifThen _ _ consequence => outer_stmt s consequence
  | s, .ifElse _ _ consequence _ alternative =>
    (outer_stmt (stmt s consequence).state alternative).trans (outer_stmt s consequence)
  | s, .whileLoop _ _ body => outer_stmt s body
  | _, .forLoop .. => rfl
  | _, .expression _ => rfl

end Binding

end Lumen
