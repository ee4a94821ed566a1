import Lumen.Binding.Stack
import Lumen.Proofs.Binding.Scoping

/-!
# What a statement leaves of the scopes

A binder goes through a statement as binding says that does not keep a stack: with the same bound
statement, the same complaints, and the scopes that are in force behind it. So each scope that is
pushed is popped again, and the current scope has grown by the variables that the statement declares
in it.
-/

namespace Lumen

open Lumen.Tree (Expr Stmt)

namespace Tree

structure Declarator where
  keyword : Token
  identifier : Token
  source : Expr

/-- The declarations of a statement in the scope around it, in order: those in branches and in
bodies of while loops, but not those in blocks and in loops over numbers. -/
def Stmt.declarators : Stmt → List Declarator
  | .block .. => []
  | .declaration k x _ e => [⟨k, x, e⟩]
  | .ifThen _ _ s => s.declarators
  | .ifElse _ _ s _ t => s.declarators ++ t.declarators
  | .whileLoop _ _ s => s.declarators
  | .forLoop .. => []
  | .expression _ => []

end Tree

open Lumen.Tree (Declarator)

namespace Binding

/-- Whether a variable is that of a declaration in a scope inside others: it has the name, the type
of the source as it is bound there, and may not be assigned to exactly if the keyword is `let`. -/
structure Gives (outer : List Scope) (scope : Scope) (d : Declarator) (v : Variable) : Prop where
  name : v.name = d.identifier.text
  type : v.type = (expr ⟨scope, outer⟩ d.source).phrase.type
  readOnly : v.readOnly = true ↔ d.keyword.kind = .letKeyword

/-- Whether declarations, one after the other in a scope inside others and with a variable for each,
add some of the variables to the scope: those whose name was not made up and is not taken yet. -/
inductive Adds (outer : List Scope) :
    Scope → List Declarator → List Variable → List Variable → Prop
  | nil {scope : Scope} : Adds outer scope [] [] []
  | add {scope : Scope} {d : Declarator} {v : Variable} {ds : List Declarator}
    {vs added : List Variable} :
    Gives outer scope d v → d.identifier.isMissing = false →
      scope.find? d.identifier.text = none → Adds outer (scope ++ [v]) ds vs added →
        Adds outer scope (d :: ds) (v :: vs) (v :: added)
  | skip {scope : Scope} {d : Declarator} {v : Variable} {ds : List Declarator}
    {vs added : List Variable} :
    Gives outer scope d v →
      d.identifier.isMissing = true ∨ scope.find? d.identifier.text ≠ none →
        Adds outer scope ds vs added → Adds outer scope (d :: ds) (v :: vs) added

theorem Adds.append {outer : List Scope} {scope : Scope} {ds ds' : List Declarator}
    {vs vs' added added' : List Variable} (h : Adds outer scope ds vs added)
    (h' : Adds outer (scope ++ added) ds' vs' added') :
    Adds outer scope (ds ++ ds') (vs ++ vs') (added ++ added') := by
  induction h with
  | nil => rwa [List.append_nil] at h'
  | add hd hwritten hfree _ ih =>
    refine .add hd hwritten hfree (ih ?_)
    rwa [List.append_assoc]
  | skip hd hleft _ ih => exact .skip hd hleft (ih h')

theorem Adds.subset {outer : List Scope} {scope : Scope} {ds : List Declarator}
    {vs added : List Variable} (h : Adds outer scope ds vs added) : added ⊆ vs := by
  induction h with
  | nil => exact List.Subset.refl _
  | add _ _ _ _ ih => exact List.cons_subset_cons _ ih
  | skip _ _ _ ih => exact List.subset_cons_of_subset _ ih

theorem declaration_adds (s : State) (k x eq : Token) (source : Expr) :
    ∃ added, (stmt s (.declaration k x eq source)).state.env.current = s.env.current ++ added ∧
      Adds s.env.outer s.env.current [⟨k, x, source⟩]
        [(declare s x (expr s.env source).phrase.type (k.kind = .letKeyword)).phrase] added := by
  have hv : Gives s.env.outer s.env.current ⟨k, x, source⟩
      ⟨s.fresh, x.text, (expr s.env source).phrase.type, k.kind = .letKeyword⟩ :=
    ⟨rfl, rfl, decide_eq_true_iff⟩
  rw [phrase_declare, stmt]
  cases hx : x.isMissing with
  | true =>
    rw [declare_of_missing hx]
    exact ⟨[], (List.append_nil _).symm, .skip hv (.inl hx) .nil⟩
  | false =>
    by_cases hfree : s.env.current.find? x.text = none
    · rw [declare_of_free hx hfree]
      exact ⟨_, rfl, .add hv hx hfree .nil⟩
    · rw [declare_of_taken hx hfree]
      exact ⟨[], (List.append_nil _).symm, .skip hv (.inr hfree) .nil⟩

theorem stmt_adds : ∀ (t : Stmt) (s : State),
    ∃ added, (stmt s t).state.env.current = s.env.current ++ added ∧
      Adds s.env.outer s.env.current t.declarators (stmt s t).phrase.declared added
  | .block .., _ => ⟨[], (List.append_nil _).symm, .nil⟩
  | .declaration k x eq source, s => declaration_adds s k x eq source
  | .ifThen _ _ consequence, s => stmt_adds consequence s
  | .ifElse _ _ consequence _ alternative, s => by
    obtain ⟨first, hfirst, hadds⟩ := stmt_adds consequence s
    obtain ⟨second, hsecond, hadds'⟩ := stmt_adds alternative (stmt s consequence).state
    rw [outer_stmt, hfirst] at hadds'
    refine ⟨first ++ second, ?_, hadds.append hadds'⟩
    rw [← List.append_assoc, ← hfirst]
    exact hsecond
  | .whileLoop _ _ body, s => stmt_adds body s
  | .forLoop .., _ => ⟨[], (List.append_nil _).symm, .nil⟩
  | .expression _, _ => ⟨[], (List.append_nil _).symm, .nil⟩

end Binding

namespace Binder

/-- The scopes of a binder as the one at a place and those around it. -/
def env (b : Binder) : Environment := ⟨b.scopes.headD [], b.scopes.tail⟩

def complain (b : Binder) (faults : List Diagnostic) : Binder :=
  { b with faults := b.faults ++ faults }

variable {b : Binder} {faults more : List Diagnostic}

@[simp] theorem env_complain : (b.complain faults).env = b.env := rfl

@[simp] theorem complain_nil : b.complain [] = b := by simp [complain]

@[simp] theorem complain_complain :
    (b.complain faults).complain more = b.complain (faults ++ more) := by
  simp [complain]

theorem bind_apply {α β : Type} (m : StateM Binder α) (f : α → StateM Binder β) :
    (m >>= f) b = f (m b).1 (m b).2 := rfl

theorem map_apply {α β : Type} (f : α → β) (m : StateM Binder α) :
    (f <$> m) b = (f (m b).1, (m b).2) := rfl

theorem pure_apply {α : Type} (a : α) : (pure a : StateM Binder α) b = (a, b) := rfl

theorem get_apply : (get : StateM Binder Binder) b = (b, b) := rfl

theorem lookup_apply (name : String) : lookup name b = (b.env.lookup? name, b) := by
  obtain ⟨_ | ⟨current, outer⟩, depth, fresh, faults⟩ := b <;> rfl

theorem report_apply (f : Diagnostic) : report f b = ((), b.complain [f]) := rfl

theorem name_apply (t : Token) :
    name t b = ((Binding.name b.env t).phrase, b.complain (Binding.name b.env t).faults) := by
  rw [name, Binding.name]
  split
  · rw [complain_nil]; rfl
  · rw [bind_apply, lookup_apply]
    cases b.env.lookup? t.text with
    | none => rfl
    | some v => rw [complain_nil]; rfl

theorem assignment_apply (x eq : Token) (source : Expr) (e : Bound.Expr) :
    assignment x eq source e b =
      ((Binding.assignment b.env x eq source e).phrase,
        b.complain (Binding.assignment b.env x eq source e).faults) := by
  rw [assignment, Binding.assignment, bind_apply, lookup_apply]
  cases b.env.lookup? x.text with
  | none => rfl
  | some v =>
    by_cases hfixed : v.readOnly = true <;> by_cases htype : e.type = v.type <;>
      simp [hfixed, htype, bind_apply, map_apply, pure_apply, report_apply]

theorem unary_apply (op : Token) (e : Bound.Expr) :
    unary op e b = ((Binding.unary op e).phrase, b.complain (Binding.unary op e).faults) := by
  rw [unary, Binding.unary]
  cases UnaryOperator.resolve? op.kind e.type with
  | none => rfl
  | some o => rw [complain_nil]; rfl

theorem binary_apply (l : Bound.Expr) (op : Token) (r : Bound.Expr) :
    binary l op r b =
      ((Binding.binary l op r).phrase, b.complain (Binding.binary l op r).faults) := by
  rw [binary, Binding.binary]
  cases BinaryOperator.resolve? op.kind l.type r.type with
  | none => rfl
  | some o => rw [complain_nil]; rfl

theorem expr_apply : ∀ (e : Expr) (b : Binder),
    expr e b = ((Binding.expr b.env e).phrase, b.complain (Binding.expr b.env e).faults)
  | .literal t, b => by rw [Binding.expr, complain_nil]; rfl
  | .name t, b => name_apply t
  | .assignment x eq source, b => by
    rw [expr, bind_apply, expr_apply source, assignment_apply, complain_complain]
    rfl
  | .unary op source, b => by
    rw [expr, bind_apply, expr_apply source, unary_apply, complain_complain]
    rfl
  | .binary left op right, b => by
    rw [expr, bind_apply, expr_apply left, bind_apply, expr_apply right, binary_apply,
      complain_complain, complain_complain]
    rfl
  | .parenthesized _ e _, b => expr_apply e b

theorem exprOfType_apply (e : Expr) (type : Ty) :
    exprOfType e type b =
      ((Binding.exprOfType b.env e type).phrase,
        b.complain (Binding.exprOfType b.env e type).faults) := by
  rw [exprOfType, bind_apply, expr_apply, Binding.exprOfType]
  by_cases htype : (Binding.expr b.env e).phrase.type = type <;>
    simp [htype, map_apply, pure_apply, report_apply]

def holding (s : Binding.State) (depth : Nat) (faults : List Diagnostic) : Binder :=
  ⟨s.env.current :: s.env.outer, depth, s.fresh, faults⟩

variable {s : Binding.State} {depth : Nat}

theorem env_holding : (holding s depth faults).env = s.env := rfl

theorem complain_holding :
    (holding s depth faults).complain more = holding s depth (faults ++ more) := rfl

theorem push_holding :
    push (holding s depth faults) = ((), holding ⟨s.env.push, s.fresh⟩ (depth + 1) faults) := rfl

theorem pop_holding {env : Environment} (h : s.env.outer = env.current :: env.outer) :
    pop (holding s (depth + 1) faults) = ((), holding ⟨env, s.fresh⟩ depth faults) := by
  rw [holding, h]
  rfl

theorem place_holding (x : Token) (v : Variable) :
    place x v (holding s depth faults) =
      match s.env.declare? v with
      | some env => ((), holding ⟨env, s.fresh⟩ depth faults)
      | none => ((), holding s depth (faults ++ [⟨x.span, .alreadyDeclared x.text⟩])) := by
  rw [place, bind_apply, get_apply, Environment.declare?]
  dsimp only [holding]
  cases s.env.current.declare? v <;> rfl

theorem declare_holding (x : Token) (type : Ty) (readOnly : Bool) :
    declare x type readOnly (holding s depth faults) =
      ((Binding.declare s x type readOnly).phrase,
        holding (Binding.declare s x type readOnly).state depth
          (faults ++ (Binding.declare s x type readOnly).faults)) := by
  have hcreate : create x.text type readOnly (holding s depth faults) =
      (⟨s.fresh, x.text, type, readOnly⟩, holding { s with fresh := s.fresh + 1 } depth faults) :=
    rfl
  rw [declare, bind_apply, hcreate, Binding.declare]
  cases x.isMissing with
  | true =>
    rw [if_pos rfl, if_pos rfl, List.append_nil]
    rfl
  | false =>
    rw [if_neg Bool.false_ne_true, if_neg Bool.false_ne_true, bind_apply, place_holding]
    cases s.env.declare? ⟨s.fresh, x.text, type, readOnly⟩ with
    | none => rfl
    | some env =>
      rw [List.append_nil]
      rfl

mutual

/-- A binder goes through a statement as binding does without a stack: it gives the same statement,
has the scopes behind it at the depth from before, and has made the same complaints. -/
theorem stmt_holding : ∀ (t : Stmt) (s : Binding.State) (depth : Nat) (faults : List Diagnostic),
    stmt t (holding s depth faults) =
      ((Binding.stmt s t).phrase,
        holding (Binding.stmt s t).state depth (faults ++ (Binding.stmt s t).faults))
  | .block _ body _, s, depth, faults => by
    -- what is popped was pushed, since the body leaves the scopes around it as they are
    rw [stmt, bind_apply, push_holding, bind_apply, stmts_holding body, bind_apply,
      pop_holding (Binding.outer_stmts _ body)]
    rfl
  | .declaration k x _ source, s, depth, faults => by
    rw [stmt, bind_apply, expr_apply, env_holding, complain_holding, bind_apply, declare_holding,
      Binding.stmt, ← List.append_assoc]
    rfl
  | .ifThen _ condition consequence, s, depth, faults => by
    rw [stmt, bind_apply, exprOfType_apply, env_holding, complain_holding, bind_apply,
      stmt_holding consequence, Binding.stmt, ← List.append_assoc]
    rfl
  | .ifElse _ condition consequence _ alternative, s, depth, faults => by
    rw [stmt, bind_apply, exprOfType_apply, env_holding, complain_holding, bind_apply,
      stmt_holding consequence, bind_apply, stmt_holding alternative, Binding.stmt,
      ← List.append_assoc, ← List.append_assoc]
    rfl
  | .whileLoop _ condition body, s, depth, faults => by
    rw [stmt, bind_apply, exprOfType_apply, env_holding, complain_holding, bind_apply,
      stmt_holding body, Binding.stmt, ← List.append_assoc]
    rfl
  | .forLoop _ x _ lower _ upper body, s, depth, faults => by
    have hback := (Binding.outer_stmt _ body).trans
      (Binding.outer_declare ⟨s.env.push, s.fresh⟩ x .int false)
    rw [stmt, bind_apply, exprOfType_apply, env_holding, complain_holding, bind_apply,
      exprOfType_apply, env_holding, complain_holding, bind_apply, push_holding, bind_apply,
      declare_holding, bind_apply, stmt_holding body, bind_apply, pop_holding hback, Binding.stmt,
      ← List.append_assoc, ← List.append_assoc, ← List.append_assoc]
    rfl
  | .expression source, s, depth, faults => by
    rw [stmt, bind_apply, expr_apply]
    rfl

theorem stmts_holding : ∀ (ts : List Stmt) (s : Binding.State) (depth : Nat)
    (faults : List Diagnostic), stmts ts (holding s depth faults) =
      ((Binding.stmts s ts).phrase,
        holding (Binding.stmts s ts).state depth (faults ++ (Binding.stmts s ts).faults))
  | [], s, depth, faults => by
    rw [Binding.stmts, List.append_nil]
    rfl
  | t :: ts, s, depth, faults => by
    rw [stmts, bind_apply, stmt_holding t, bind_apply, stmts_holding ts, Binding.stmts,
      ← List.append_assoc]
    rfl

end

/-- Whether a binder has no scope and is at a depth. -/
def Bare (depth : Nat) (b : Binder) : Prop := b.scopes = [] ∧ b.depth = depth

theorem Bare.push (h : Bare depth b) :
    push b = ((), holding ⟨.inside [], b.fresh⟩ (depth + 1) b.faults) := by
  obtain ⟨scopes, _, fresh, faults⟩ := b
  obtain ⟨rfl, rfl⟩ := h
  rfl

theorem bare_pop (h : s.env.outer = []) : Bare depth (pop (holding s (depth + 1) faults)).2 := by
  rw [holding, h]
  exact ⟨rfl, rfl⟩

theorem Bare.declare (h : Bare depth b) (x : Token) (type : Ty) (readOnly : Bool) :
    Bare depth (declare x type readOnly b).2 := by
  obtain ⟨scopes, _, fresh, faults⟩ := b
  obtain ⟨rfl, rfl⟩ := h
  rw [Binder.declare, bind_apply]
  cases x.isMissing <;> exact ⟨rfl, rfl⟩

theorem Bare.stmt : ∀ (t : Stmt) {b : Binder}, Bare depth b → Bare depth (stmt t b).2
  -- in a block there is a scope, so the parts go as they do in a stack
  | .block _ body _, b, h => by
    rw [Binder.stmt, bind_apply, h.push, bind_apply, stmts_holding body, bind_apply]
    exact bare_pop (Binding.outer_stmts _ body)
  | .declaration k x _ source, b, h => by
    rw [Binder.stmt, bind_apply, expr_apply, bind_apply]
    exact Bare.declare (b := b.complain (Binding.expr b.env source).faults) h x _ _
  | .ifThen _ condition consequence, b, h => by
    rw [Binder.stmt, bind_apply, exprOfType_apply, bind_apply]
    exact Bare.stmt consequence h
  | .ifElse _ condition consequence _ alternative, b, h => by
    rw [Binder.stmt, bind_apply, exprOfType_apply, bind_apply, bind_apply]
    exact Bare.stmt alternative (Bare.stmt consequence h)
  | .whileLoop _ condition body, b, h => by
    rw [Binder.stmt, bind_apply, exprOfType_apply, bind_apply]
    exact Bare.stmt body h
  | .forLoop _ x _ lower _ upper body, b, h => by
    have hbounds : Bare depth (b.complain ((Binding.exprOfType b.env lower .int).faults ++
      (Binding.exprOfType b.env upper .int).faults)) := h
    have hback := (Binding.outer_stmt _ body).trans
      (Binding.outer_declare ⟨.inside [], b.fresh⟩ x .int false)
    rw [Binder.stmt]
    simp only [bind_apply, exprOfType_apply, env_complain, complain_complain, hbounds.push]
    rw [declare_holding, stmt_holding body]
    exact bare_pop hback
  | .expression source, b, h => by
    rw [Binder.stmt, bind_apply, expr_apply]
    exact h

/-- Binding a statement restores the stack of scopes. Behind it the binder is as deep as before,
and without a scope it has none. Otherwise the scopes around the current one are as before, and the
current one has the variables from before, in their order, followed by those of the declarations in
it that were not made up and whose name it did not have yet. All of these are new variables. -/
theorem stmt_restores (b : Binder) (t : Stmt) :
    (stmt t b).2.depth = b.depth ∧
      match b.scopes with
      | [] => (stmt t b).2.scopes = []
      | current :: outer => ∃ added, (stmt t b).2.scopes = (current ++ added) :: outer ∧
        Binding.Adds outer current t.declarators (stmt t b).1.declared added ∧
          ∀ v ∈ added, b.fresh ≤ v.id ∧ v.id < (stmt t b).2.fresh := by
  obtain ⟨_ | ⟨current, outer⟩, depth, fresh, faults⟩ := b
  · obtain ⟨hscopes, hdepth⟩ := Bare.stmt t (b := ⟨[], depth, fresh, faults⟩) ⟨rfl, rfl⟩
    exact ⟨hdepth, hscopes⟩
  · let s : Binding.State := ⟨⟨current, outer⟩, fresh⟩
    obtain ⟨added, hcurrent, hadds⟩ := Binding.stmt_adds t s
    have hnumbers := (Binding.stmt_numberedFrom s t).bounds
    have hstmt : stmt t ⟨current :: outer, depth, fresh, faults⟩ =
        ((Binding.stmt s t).phrase, holding (Binding.stmt s t).state depth
          (faults ++ (Binding.stmt s t).faults)) := stmt_holding t s depth faults
    rw [hstmt]
    refine ⟨rfl, added, ?_, hadds, fun v hv => ?_⟩
    · exact congrArg₂ List.cons hcurrent (Binding.outer_stmt s t)
    · exact hnumbers v (Binding.declared_subset_introduced (hadds.subset hv))

end Binder

end Lumen
