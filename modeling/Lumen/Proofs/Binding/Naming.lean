import Lumen.Proofs.Binding.Scopes
import Lumen.Proofs.Source.Accounting
import Lumen.Proofs.Source.Shape
import Lumen.Proofs.Tree.Names
import Lumen.Text.Identifier.Table

/-!
# Complaints about names do not depend on types

Of the complaints of binding, those about names are exactly the ones that the walk over names finds,
in the same order, whatever else is wrong. Binding leaves out operands and assignments that do not
fit, but only after it has visited them, and the first of two variables of one name keeps the name;
so the names in force are the same at every place, which carries the induction. A made up target of
an assignment would be asked about like any other one, but in the tree of a text no target is made
up.
-/

namespace Lumen

/-- Whether a diagnostic complains about a name: it is undefined, or declared twice. -/
def Diagnostic.isAboutName (d : Diagnostic) : Bool := d.code = 2003 || d.code = 2005

def Scope.names (s : Scope) : List String := s.map Variable.name

def Environment.names (env : Environment) : Names := ⟨env.current.names, env.outer.map Scope.names⟩

theorem Scope.isSome_find?_iff {s : Scope} {name : String} :
    (s.find? name).isSome = true ↔ name ∈ s.names := by
  simp [Scope.find?, Scope.names]

theorem Environment.isSome_lookup?_iff {env : Environment} {name : String} :
    (env.lookup? name).isSome = true ↔ env.names.Sees name := by
  have hscopes : env.names.current :: env.names.outer =
      (env.current :: env.outer).map Scope.names := rfl
  rw [lookup?, List.findSome?_isSome_iff, Names.Sees, hscopes]
  simp only [Scope.isSome_find?_iff, List.mem_map, exists_exists_and_eq_and]

theorem Environment.use_names (env : Environment) (x : Token) : env.names.use x =
    if (env.lookup? x.text).isSome then [] else [⟨x.span, .undefinedName x.text⟩] := by
  simp only [Names.use, isSome_lookup?_iff]

namespace Tree

/-- Whether the targets of the assignments in an expression are of a sort. -/
def Expr.Targets (sort : Token → Bool) (e : Expr) : Prop :=
  ∀ (x eq : Token) (source : Expr), .assignment x eq source ∈ e.parts → sort x = true

def Stmt.Targets (sort : Token → Bool) (t : Stmt) : Prop :=
  ∀ e : Expr, t.Has e → e.Targets sort

theorem Stmt.Targets.inner {sort : Token → Bool} {t c : Stmt} (h : t.Targets sort)
    (hc : c ∈ t.inner) : c.Targets sort :=
  fun e he => h e (he.of_inner hc)

theorem Stmt.Targets.operand {sort : Token → Bool} {t : Stmt} {e : Expr} (h : t.Targets sort)
    (he : e ∈ t.operands) : e.Targets sort :=
  h e (has_of_operand he)

end Tree

namespace Binding

open Lumen.Tree (Expr Stmt)

variable {env : Environment} {asks : Token → Bool}

def aboutNames (faults : List Diagnostic) : List Diagnostic := faults.filter (·.isAboutName)

theorem aboutNames_append (f g : List Diagnostic) :
    aboutNames (f ++ g) = aboutNames f ++ aboutNames g :=
  List.filter_append ..

theorem aboutNames_name (t : Token) :
    aboutNames (name env t).faults = if t.isMissing then [] else env.names.use t := by
  rw [name, Environment.use_names]
  split
  · rfl
  · cases env.lookup? t.text <;> rfl

/-- An assignment complains about the name of its target, whether its value is of the right type or
not and the variable may be assigned to or not. -/
theorem aboutNames_assignment (x eq : Token) (source : Expr) (e : Bound.Expr) :
    aboutNames (assignment env x eq source e).faults = env.names.use x := by
  rw [assignment, Environment.use_names]
  cases env.lookup? x.text with
  | none => rfl
  | some v =>
    have hfixed : aboutNames (if v.readOnly then [⟨eq.span, .cannotAssign x.text⟩] else []) = [] := by
      split <;> rfl
    dsimp only
    split
    · exact hfixed
    · rw [aboutNames_append, hfixed]
      rfl

theorem aboutNames_unary (op : Token) (e : Bound.Expr) : aboutNames (unary op e).faults = [] := by
  rw [unary]
  split <;> rfl

theorem aboutNames_binary (l : Bound.Expr) (op : Token) (r : Bound.Expr) :
    aboutNames (binary l op r).faults = [] := by
  rw [binary]
  split <;> rfl

/-- The complaints about names in an expression are those of a walk over names that asks about the
targets in it. -/
theorem aboutNames_expr : ∀ e : Expr, e.Targets asks →
    aboutNames (expr env e).faults = env.names.expr asks e
  | .literal _, _ => rfl
  | .name t, _ => aboutNames_name t
  | .assignment x eq source, h => by
    have hx : asks x = true := h x eq source List.mem_cons_self
    have hsource : source.Targets asks := fun y e s hs => h y e s (List.mem_cons_of_mem _ hs)
    rw [expr, Names.expr, aboutNames_append, aboutNames_expr source hsource,
      aboutNames_assignment, if_pos hx]
  | .unary op e, h => by
    have he : e.Targets asks := fun y e s hs => h y e s (List.mem_cons_of_mem _ hs)
    rw [expr, Names.expr, aboutNames_append, aboutNames_expr e he, aboutNames_unary,
      List.append_nil]
  | .binary l op r, h => by
    have hl : l.Targets asks := fun y e s hs =>
      h y e s (List.mem_cons_of_mem _ (List.mem_append_left _ hs))
    have hr : r.Targets asks := fun y e s hs =>
      h y e s (List.mem_cons_of_mem _ (List.mem_append_right _ hs))
    rw [expr, Names.expr, aboutNames_append, aboutNames_append, aboutNames_expr l hl,
      aboutNames_expr r hr, aboutNames_binary, List.append_nil]
  | .parenthesized _ e _, h =>
    aboutNames_expr e fun y e s hs => h y e s (List.mem_cons_of_mem _ hs)

theorem aboutNames_exprOfType {e : Expr} (h : e.Targets asks) (type : Ty) :
    aboutNames (exprOfType env e type).faults = env.names.expr asks e := by
  rw [exprOfType]
  split
  · exact aboutNames_expr e h
  · rw [aboutNames_append, aboutNames_expr e h]
    exact List.append_nil _

/-- A step of binding that complains about names, and leaves names in force, as noted. -/
structure Notes {α : Type} (b : Step α) (n : Names.Noted) : Prop where
  names : b.state.env.names = n.names
  complaints : aboutNames b.faults = n.complaints

theorem notes_declare (s : State) (x : Token) (type : Ty) (readOnly : Bool) :
    Notes (declare s x type readOnly) (s.env.names.declare x) := by
  rw [declare, Names.declare]
  split
  · exact ⟨rfl, rfl⟩
  · have htaken : (s.env.current.find? x.text).isSome = true ↔ x.text ∈ s.env.names.current :=
      Scope.isSome_find?_iff
    rw [Environment.declare?, Scope.declare?]
    by_cases h : x.text ∈ s.env.names.current
    · rw [if_pos (htaken.mpr h), if_pos h]
      exact ⟨rfl, rfl⟩
    · rw [if_neg fun hsome => h (htaken.mp hsome), if_neg h]
      refine ⟨?_, rfl⟩
      simp [Environment.names, Scope.names]

mutual

/-- Binding a statement complains about names, and leaves names in force, as a walk over names does
that asks about the targets in the statement. -/
theorem notes_stmt : ∀ (s : State) (t : Stmt), t.Targets asks →
    Notes (stmt s t) (s.env.names.stmt asks t)
  | s, .block _ body _, h => by
    have hbody := notes_stmts ⟨s.env.push, s.fresh⟩ body fun c hc => h.inner hc
    exact ⟨rfl, hbody.complaints⟩
  | s, .declaration k x _ source, h => by
    have hv := notes_declare s x (expr s.env source).phrase.type (k.kind = .letKeyword)
    have hsource := h.operand (e := source) List.mem_cons_self
    refine ⟨hv.names, ?_⟩
    rw [stmt, Names.stmt, aboutNames_append, aboutNames_expr source hsource, hv.complaints]
  | s, .ifThen _ condition consequence, h => by
    have ht := notes_stmt s consequence (h.inner List.mem_cons_self)
    have hcondition := h.operand (e := condition) List.mem_cons_self
    refine ⟨ht.names, ?_⟩
    rw [stmt, Names.stmt, aboutNames_append, aboutNames_exprOfType hcondition, ht.complaints]
  | s, .ifElse _ condition consequence _ alternative, h => by
    have ht := notes_stmt s consequence (h.inner List.mem_cons_self)
    have hu := notes_stmt (stmt s consequence).state alternative
      (h.inner (List.mem_cons_of_mem _ List.mem_cons_self))
    have hcondition := h.operand (e := condition) List.mem_cons_self
    rw [ht.names] at hu
    refine ⟨hu.names, ?_⟩
    rw [stmt, Names.stmt, aboutNames_append, aboutNames_append, aboutNames_exprOfType hcondition,
      ht.complaints, hu.complaints]
  | s, .whileLoop _ condition body, h => by
    have hb := notes_stmt s body (h.inner List.mem_cons_self)
    have hcondition := h.operand (e := condition) List.mem_cons_self
    refine ⟨hb.names, ?_⟩
    rw [stmt, Names.stmt, aboutNames_append, aboutNames_exprOfType hcondition, hb.complaints]
  | s, .forLoop _ x _ lower _ upper body, h => by
    have hv := notes_declare ⟨s.env.push, s.fresh⟩ x .int false
    have hb := notes_stmt (declare ⟨s.env.push, s.fresh⟩ x .int false).state body
      (h.inner List.mem_cons_self)
    have hlower := h.operand (e := lower) List.mem_cons_self
    have hupper := h.operand (e := upper) (List.mem_cons_of_mem _ List.mem_cons_self)
    rw [hv.names] at hb
    refine ⟨rfl, ?_⟩
    rw [stmt, Names.stmt, aboutNames_append, aboutNames_append, aboutNames_append,
      aboutNames_exprOfType hlower, aboutNames_exprOfType hupper, hv.complaints, hb.complaints]
    rfl
  | s, .expression source, h => ⟨rfl, aboutNames_expr source (h.operand List.mem_cons_self)⟩

theorem notes_stmts : ∀ (s : State) (ts : List Stmt), (∀ t ∈ ts, t.Targets asks) →
    Notes (stmts s ts) (s.env.names.stmts asks ts)
  | _, [], _ => ⟨rfl, rfl⟩
  | s, t :: ts, h => by
    obtain ⟨ht, hts⟩ := List.forall_mem_cons.mp h
    have hb := notes_stmt s t ht
    have hbs := notes_stmts (stmt s t).state ts hts
    rw [hb.names] at hbs
    refine ⟨hbs.names, ?_⟩
    rw [stmts, Names.stmts, aboutNames_append, hb.complaints, hbs.complaints]

end

variable [Xid]

theorem targets_parse (text : List Char) :
    (Source.parse text).program.statement.Targets (!·.isMissing) := by
  intro e he x eq source hx
  have hall := Source.stream_significant text
  have hread := (Source.readIn_parse text).wholes hall he e List.mem_cons_self
  obtain ⟨ts, rest, f, hts, hexpr⟩ := hread
  obtain ⟨⟨hmem, -⟩, -⟩ := (hexpr.formed hall hts).parts _ hx
  have hfound : x.isMissing = false := Source.noneMissing_significant text x hmem
  simp [hfound]

/-- The complaints of binding that are about names are exactly those of a walk over names, which
knows nothing of types. The walk asks about every target of an assignment, also about one that was
made up; where no target is made up, as in the tree of every text, it is the walk that passes over
what was made up. -/
theorem name_complaints :
    (∀ (outer : List Scope) (fresh : Nat) (t : Stmt),
      (stmt ⟨.inside outer, fresh⟩ t).faults.filter (·.isAboutName) =
        ((Names.inside (outer.map Scope.names)).stmt (fun _ => true) t).complaints) ∧
      (∀ (outer : List Scope) (fresh : Nat) (t : Stmt), t.Targets (!·.isMissing) →
        (stmt ⟨.inside outer, fresh⟩ t).faults.filter (·.isAboutName) =
          ((Names.inside (outer.map Scope.names)).stmt (!·.isMissing) t).complaints) ∧
      ∀ text : List Char, (Source.parse text).program.statement.Targets (!·.isMissing) := by
  refine ⟨fun outer fresh t => ?_, fun outer fresh t h => ?_, targets_parse⟩
  · exact (notes_stmt ⟨.inside outer, fresh⟩ t fun _ _ _ _ _ _ => rfl).complaints
  · exact (notes_stmt ⟨.inside outer, fresh⟩ t h).complaints

end Binding

open scoped Xid in
/-- Two variables of one name in one scope, an assignment to the first of them that is read-only, an
operator that does not fit, and a loop whose bounds do not see its variable. -/
theorem Binding.name_complaints_of_mixed_faults :
    let text :=
      "\x7b let x = 1 var x = true x = z + true for y = y to y \x7b var y = q var y = 2 \x7d \x7d"
    let t := (Source.parse text.toList).program.statement
    let s : State := ⟨.inside [[⟨0, "n", .int, false⟩]], 1⟩
    (stmt s t).faults.length = 8 ∧
      ((stmt s t).faults.filter (·.isAboutName)).map Diagnostic.code =
        [2005, 2003, 2003, 2003, 2003, 2005] ∧
      (stmt s t).faults.filter (·.isAboutName) =
        ((Names.inside [["n"]]).stmt (!·.isMissing) t).complaints := by
  intro text t s
  have hfound := name_complaints.2.2 text.toList
  have hwalk := name_complaints.2.1 [[⟨0, "n", .int, false⟩]] 1 t hfound
  exact ⟨by decide +kernel, by decide +kernel, hwalk⟩

end Lumen
