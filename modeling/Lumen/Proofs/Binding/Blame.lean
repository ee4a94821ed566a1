import Lumen.Proofs.Binding.Redeclaring
import Lumen.Proofs.Tree.Parts

/-!
# What complaints of binding are about

Every complaint of binding is about one token or one expression of the tree: an operator, a name, a
target or the equals sign of an assignment, a declared name, or an expression that has another type
than its place asks for.
-/

namespace Lumen

namespace Tree

/-- The conditions and bounds of a statement. -/
def Stmt.checked : Stmt → List Expr
  | ifThen _ c _ => [c]
  | ifElse _ c _ _ _ => [c]
  | whileLoop _ c _ => [c]
  | forLoop _ _ _ lower _ upper _ => [lower, upper]
  | _ => []

theorem Stmt.checked_subset_operands (s : Stmt) : s.checked ⊆ s.operands := by
  cases s <;> first | exact List.nil_subset _ | exact List.Subset.refl _

theorem Expr.mem_enclosed {x eq : Token} {source : Expr} : ∀ {e : Expr},
    assignment x eq source ∈ e.parts → source ∈ e.enclosed
  | literal _, h => nomatch List.mem_singleton.mp h
  | name _, h => nomatch List.mem_singleton.mp h
  | unary _ e, h => mem_enclosed (e := e) ((List.mem_cons.mp h).resolve_left nofun)
  | binary _ _ _, h => by
    rcases List.mem_append.mp ((List.mem_cons.mp h).resolve_left nofun) with hl | hr
    · exact List.mem_append_left _ (mem_enclosed hl)
    · exact List.mem_append_right _ (mem_enclosed hr)
  | parenthesized _ _ _, h =>
    List.mem_cons_of_mem _ (mem_enclosed ((List.mem_cons.mp h).resolve_left nofun))
  | assignment _ _ _, h => by
    rcases List.mem_cons.mp h with heq | h
    · cases heq
      exact List.mem_cons_self
    · exact List.mem_cons_of_mem _ (mem_enclosed h)

end Tree

namespace Binding

open Lumen.Tree (Expr Stmt)

/-- What an expression is complained about for, its parts aside. -/
inductive Blames (env : Environment) : Expr → Diagnostic → Prop
  | name {t : Token} : Blames env (.name t) ⟨t.span, .undefinedName t.text⟩
  | unary {op : Token} {e : Expr} {type : String} :
    Blames env (.unary op e) ⟨op.span, .undefinedUnaryOperator op.text type⟩
  | binary {l r : Expr} {op : Token} {left right : String} :
    Blames env (.binary l op r) ⟨op.span, .undefinedBinaryOperator op.text left right⟩
  | target {x eq : Token} {e : Expr} :
    Blames env (.assignment x eq e) ⟨x.span, .undefinedName x.text⟩
  | readOnly {x eq : Token} {e : Expr} :
    Blames env (.assignment x eq e) ⟨eq.span, .cannotAssign x.text⟩
  | source {x eq : Token} {e : Expr} {type : Ty} :
    Blames env (.assignment x eq e) (mismatch e (expr env e).phrase.type type)

variable {env : Environment} {d : Diagnostic}

theorem blames_of_name {t : Token} (h : d ∈ (name env t).faults) : Blames env (.name t) d := by
  rw [name] at h
  split at h
  · cases h
  · split at h
    · cases h
    · cases List.mem_singleton.mp h
      exact .name

theorem blames_of_unary {op : Token} {e : Expr}
    (h : d ∈ (unary op (expr env e).phrase).faults) : Blames env (.unary op e) d := by
  rw [unary] at h
  split at h
  · cases h
  · cases List.mem_singleton.mp h
    exact .unary

theorem blames_of_binary {l r : Expr} {op : Token}
    (h : d ∈ (binary (expr env l).phrase op (expr env r).phrase).faults) :
    Blames env (.binary l op r) d := by
  rw [binary] at h
  split at h
  · cases h
  · cases List.mem_singleton.mp h
    exact .binary

theorem blames_of_assignment {x eq : Token} {e : Expr}
    (h : d ∈ (assignment env x eq e (expr env e).phrase).faults) :
    Blames env (.assignment x eq e) d := by
  rw [assignment] at h
  split at h
  · cases List.mem_singleton.mp h
    exact .target
  · next v _ =>
    have hfixed : ∀ d ∈ if v.readOnly then [⟨eq.span, .cannotAssign x.text⟩] else [],
        Blames env (.assignment x eq e) d := by
      intro d hd
      split at hd
      · cases List.mem_singleton.mp hd
        exact .readOnly
      · cases hd
    by_cases htype : (expr env e).phrase.type = v.type
    · rw [if_pos htype] at h
      exact hfixed d h
    · rw [if_neg htype] at h
      rcases List.mem_append.mp h with h | h
      · exact hfixed d h
      · cases List.mem_singleton.mp h
        exact .source

theorem exists_blames : ∀ {e : Expr}, d ∈ (expr env e).faults → ∃ a ∈ e.parts, Blames env a d
  | .literal _, h => nomatch h
  | .name _, h => ⟨_, List.mem_cons_self, blames_of_name h⟩
  | .unary _ _, h => by
    rcases List.mem_append.mp h with h | h
    · obtain ⟨a, ha, hd⟩ := exists_blames h
      exact ⟨a, List.mem_cons_of_mem _ ha, hd⟩
    · exact ⟨_, List.mem_cons_self, blames_of_unary h⟩
  | .binary _ _ _, h => by
    rcases List.mem_append.mp h with h | h
    · rcases List.mem_append.mp h with h | h
      · obtain ⟨a, ha, hd⟩ := exists_blames h
        exact ⟨a, List.mem_cons_of_mem _ (List.mem_append_left _ ha), hd⟩
      · obtain ⟨a, ha, hd⟩ := exists_blames h
        exact ⟨a, List.mem_cons_of_mem _ (List.mem_append_right _ ha), hd⟩
    · exact ⟨_, List.mem_cons_self, blames_of_binary h⟩
  | .parenthesized _ e _, h => by
    obtain ⟨a, ha, hd⟩ := exists_blames (e := e) h
    exact ⟨a, List.mem_cons_of_mem _ ha, hd⟩
  | .assignment _ _ _, h => by
    rcases List.mem_append.mp h with h | h
    · obtain ⟨a, ha, hd⟩ := exists_blames h
      exact ⟨a, List.mem_cons_of_mem _ ha, hd⟩
    · exact ⟨_, List.mem_cons_self, blames_of_assignment h⟩

/-- What a statement is complained about for, the statements inside it aside. -/
inductive BlamesStmt (env : Environment) : Stmt → Diagnostic → Prop
  | operand {t : Stmt} {e a : Expr} {d : Diagnostic} :
    e ∈ t.operands → a ∈ e.parts → Blames env a d → BlamesStmt env t d
  | checked {t : Stmt} {e : Expr} {type : Ty} :
    e ∈ t.checked → BlamesStmt env t (mismatch e (expr env e).phrase.type type)
  | declared {t : Stmt} {x : Token} :
    t.declaredToken? = some x → x.isMissing = false →
      BlamesStmt env t ⟨x.span, .alreadyDeclared x.text⟩

theorem blamesStmt_of_operand {t : Stmt} {e : Expr} (he : e ∈ t.operands)
    (h : d ∈ (expr env e).faults) : BlamesStmt env t d := by
  obtain ⟨a, ha, hd⟩ := exists_blames h
  exact .operand he ha hd

theorem blamesStmt_of_checked {t : Stmt} {e : Expr} {type : Ty} (he : e ∈ t.checked)
    (h : d ∈ (exprOfType env e type).faults) : BlamesStmt env t d := by
  have hoperand : d ∈ (expr env e).faults → BlamesStmt env t d :=
    blamesStmt_of_operand (t.checked_subset_operands he)
  rw [exprOfType] at h
  split at h
  · exact hoperand h
  · rcases List.mem_append.mp h with h | h
    · exact hoperand h
    · cases List.mem_singleton.mp h
      exact .checked he

theorem blamesStmt_of_declared {t : Stmt} {s : State} {x : Token} {type : Ty} {readOnly : Bool}
    (hx : t.declaredToken? = some x) (h : d ∈ (declare s x type readOnly).faults) :
    BlamesStmt env t d := by
  obtain ⟨hmade, -, rfl⟩ := (faults_declare s x type readOnly).mp h
  exact .declared hx hmade

theorem blamesStmt_of_complaint {s : State} {t : Stmt} (h : d ∈ complaints s t) :
    BlamesStmt s.env t d := by
  cases t with
  | block => cases h
  | declaration =>
    rcases List.mem_append.mp h with h | h
    · exact blamesStmt_of_operand List.mem_cons_self h
    · exact blamesStmt_of_declared rfl h
  | ifThen | ifElse | whileLoop => exact blamesStmt_of_checked List.mem_cons_self h
  | forLoop =>
    rcases List.mem_append.mp h with h | h
    · rcases List.mem_append.mp h with h | h
      · exact blamesStmt_of_checked List.mem_cons_self h
      · exact blamesStmt_of_checked (List.mem_cons_of_mem _ List.mem_cons_self) h
    · exact blamesStmt_of_declared rfl h
  | expression => exact blamesStmt_of_operand List.mem_cons_self h

theorem exists_blamesStmt {s : State} {t : Stmt} (h : d ∈ (stmt s t).faults) :
    ∃ p u env, t.at? p = some u ∧ BlamesStmt env u d := by
  obtain ⟨p, u, hu, hd⟩ := mem_faults_stmt.mp h
  exact ⟨p, u, _, hu, blamesStmt_of_complaint hd⟩

end Binding

end Lumen
