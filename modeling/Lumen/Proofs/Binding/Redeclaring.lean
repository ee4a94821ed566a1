import Lumen.Proofs.Binding.Scoping

/-!
# Declarations that come too late

Every complaint about a statement is made at one place in it. A name is complained about as already
declared at exactly the places where an earlier declaration of it is in the same scope.
-/

namespace Lumen

namespace Tree.Stmt

/-- Whether a place in a statement is in a scope that starts inside the statement or with it. -/
def opens : Path → Stmt → Bool
  | [], t => t.isScope
  | i :: p, t => t.isScope || t.inner[i]?.any (opens p)

/-- The declarations before a place in a statement that are in the scope around the place, and do
not stand outside the statement. -/
def here : Path → Stmt → List Site
  | [], _ => []
  | i :: p, t =>
    match t.inner[i]? with
    | none => []
    | some c => (if opens p c then [] else t.ahead i) ++ (here p c).map (Site.under i)

variable {t c s : Stmt} {i : Nat} {p d : Path} {name : String}

theorem opens_iff (hp : t.at? p = some s) : opens p t = true ↔ ∃ q, t.Encloses q p := by
  induction p generalizing t with
  | nil => simp [opens]
  | cons i p ih =>
    obtain ⟨c, hc, hp⟩ := Option.bind_eq_some_iff.mp hp
    rw [opens, hc, Option.any_some, Bool.or_eq_true, ih hp]
    simp only [encloses_cons hc]
    constructor
    · rintro (hscope | ⟨q, hq⟩)
      · exact ⟨[], .inl ⟨rfl, hscope⟩⟩
      · exact ⟨i :: q, .inr ⟨q, rfl, hq⟩⟩
    · rintro ⟨q, ⟨-, hscope⟩ | ⟨q', -, hq'⟩⟩
      · exact .inl hscope
      · exact .inr ⟨q', hq'⟩

/-- What stands before a part of a statement is in the scope around a place in the part unless that
scope starts in the part. -/
theorem scopes_of_mem_ahead {a : Site} (hc : t.inner[i]? = some c) (hp : c.at? p = some s)
    (ha : a ∈ t.ahead i) :
    (∀ q, t.Encloses q (i :: p) → t.Encloses q a.path) ↔ opens p c = false := by
  simp only [encloses_of_mem_ahead ha, encloses_cons hc]
  rw [Bool.eq_false_iff, ne_eq, opens_iff hp]
  constructor
  · rintro h ⟨q, hq⟩
    have hroot := (h (i :: q) (.inr ⟨q, rfl, hq⟩)).1
    cases hroot
  · rintro hclosed q (hroot | ⟨q', -, hq'⟩)
    · exact hroot
    · exact absurd ⟨q', hq'⟩ hclosed

theorem mem_here (hp : t.at? p = some s) : ⟨d, name⟩ ∈ here p t ↔
    t.InForce p name d ∧ ∀ q, t.Encloses q p → t.Encloses q d := by
  induction p generalizing t d with
  | nil => exact iff_of_false List.not_mem_nil fun h => List.not_lt_nil d h.1.before
  | cons i p ih =>
    obtain ⟨c, hc, hp⟩ := Option.bind_eq_some_iff.mp hp
    rw [here, hc, inForce_cons hc, List.mem_append, mem_map_under, or_and_right]
    refine or_congr ?_ ?_
    · have hmem : ⟨d, name⟩ ∈ (if opens p c then [] else t.ahead i) ↔
          ⟨d, name⟩ ∈ t.ahead i ∧ opens p c = false := by
        cases opens p c <;> simp
      exact hmem.trans (and_congr_right fun ha => (scopes_of_mem_ahead hc hp ha).symm)
    · rw [← exists_and_right]
      refine exists_congr fun d' => ?_
      rw [and_assoc]
      refine and_congr_right fun hd => ?_
      rw [hd, encloses_under hc]
      exact ih hp

theorem redeclares_iff (hd : t.Declares d name) :
    t.Redeclares d ↔ ∃ d', ⟨d', name⟩ ∈ here d t := by
  obtain ⟨s, hs, -⟩ := id hd
  simp only [mem_here hs]
  constructor
  · rintro ⟨other, d', hother, hd', hlt, hscopes⟩
    cases hd.unique hother
    exact ⟨d', ⟨hd', hlt, fun q hq => ((hscopes q).mp hq).1⟩, fun q hq => (hscopes q).mpr hq⟩
  · rintro ⟨d', hforce, hscopes⟩
    refine ⟨name, d', hd, hforce.declares, hforce.before, fun q => ⟨fun hq => ?_, hscopes q⟩⟩
    exact ⟨hforce.inside q hq, hq.2⟩

theorem not_append_lt (d r : Path) : ¬ d ++ r < d := by
  induction d with
  | nil => exact List.not_lt_nil _
  | cons i d ih => simpa using ih

/-- The variable of a loop never comes too late, for the loop is a scope of its own. -/
theorem not_redeclares_of_isScope (hd : t.at? d = some s) (hs : s.isScope = true) :
    ¬ t.Redeclares d := by
  rintro ⟨-, d', -, -, hlt, hscopes⟩
  obtain ⟨r, rfl⟩ : d <+: d' := ((hscopes d).mpr ⟨List.prefix_refl d, s, hd, hs⟩).1
  exact not_append_lt d r hlt

theorem sizeOf_lt_of_mem_inner (hc : c ∈ t.inner) : sizeOf c < sizeOf t := by
  cases t with
  | block o body e =>
    have hlt := List.sizeOf_lt_of_mem hc
    rw [inner] at hlt
    rw [block.sizeOf_spec]
    omega
  | ifThen k e s =>
    cases List.mem_singleton.mp hc
    rw [ifThen.sizeOf_spec]
    omega
  | ifElse k e s el u =>
    rw [ifElse.sizeOf_spec]
    rcases List.mem_pair.mp hc with rfl | rfl <;> omega
  | whileLoop k e s =>
    cases List.mem_singleton.mp hc
    rw [whileLoop.sizeOf_spec]
    omega
  | forLoop k x eq lo toKw hi s =>
    cases List.mem_singleton.mp hc
    rw [forLoop.sizeOf_spec]
    omega
  | declaration => cases hc
  | expression => cases hc

theorem inner_induction {P : Stmt → Prop} (h : ∀ t, (∀ c ∈ t.inner, P c) → P t) (t : Stmt) : P t :=
  h t fun c hc =>
    have := sizeOf_lt_of_mem_inner hc
    inner_induction h c
termination_by sizeOf t

end Tree.Stmt

namespace Binding

open Lumen.Tree (Expr Stmt)

/-- The complaints of a statement that are not those of statements inside it. -/
def complaints (s : State) : Stmt → List Diagnostic
  | .block .. => []
  | .declaration k x _ e =>
    (expr s.env e).faults ++
      (declare s x (expr s.env e).phrase.type (k.kind = .letKeyword)).faults
  | .ifThen _ c _ => (exprOfType s.env c .bool).faults
  | .ifElse _ c _ _ _ => (exprOfType s.env c .bool).faults
  | .whileLoop _ c _ => (exprOfType s.env c .bool).faults
  | .forLoop _ x _ lower _ upper _ =>
    (exprOfType s.env lower .int).faults ++ (exprOfType s.env upper .int).faults ++
      (declare ⟨s.env.push, s.fresh⟩ x .int false).faults
  | .expression e => (expr s.env e).faults

variable {s : State} {t c u : Stmt} {p d : Path} {name : String} {f : Diagnostic}

theorem faults_stmt (s : State) (t : Stmt) :
    (stmt s t).faults = complaints s t ++ (stmts (enter s t) t.inner).faults := by
  cases t <;> simp [stmt, stmts, complaints, enter, Stmt.inner]

theorem mem_faults_stmts {ts : List Stmt} : f ∈ (stmts s ts).faults ↔
    ∃ i c, ts[i]? = some c ∧ f ∈ (stmt (stmts s (ts.take i)).state c).faults := by
  induction ts generalizing s with
  | nil => simp [stmts]
  | cons t ts ih =>
    rw [stmts]
    dsimp only
    rw [List.mem_append, ih]
    constructor
    · rintro (hf | ⟨i, c, hc, hf⟩)
      · exact ⟨0, t, rfl, hf⟩
      · exact ⟨i + 1, c, hc, hf⟩
    · rintro ⟨i, c, hc, hf⟩
      cases i with
      | zero =>
        cases hc
        exact .inl hf
      | succ i => exact .inr ⟨i, c, hc, hf⟩

theorem mem_faults_stmt : f ∈ (stmt s t).faults ↔
    ∃ d u, t.at? d = some u ∧ f ∈ complaints (stateAt d s t) u := by
  induction t using Stmt.inner_induction generalizing s with
  | h t ih =>
    rw [faults_stmt, List.mem_append, mem_faults_stmts]
    constructor
    · rintro (hf | ⟨i, c, hc, hf⟩)
      · exact ⟨[], t, rfl, hf⟩
      · obtain ⟨d, u, hu, hf⟩ := (ih c (List.mem_of_getElem? hc)).mp hf
        refine ⟨i :: d, u, Option.bind_eq_some_iff.mpr ⟨c, hc, hu⟩, ?_⟩
        rwa [stateAt, hc]
    · rintro ⟨d, u, hu, hf⟩
      cases d with
      | nil =>
        cases hu
        exact .inl hf
      | cons i d =>
        obtain ⟨c, hc, hu⟩ := Option.bind_eq_some_iff.mp hu
        rw [stateAt, hc] at hf
        exact .inr ⟨i, c, hc, (ih c (List.mem_of_getElem? hc)).mpr ⟨d, u, hu, hf⟩⟩

/-- The current scope at a place, unless the place starts a scope, has the declarations in the scope
around the place; if that one does not start inside the statement, they come behind what it had
before. -/
theorem current_stateAt (hp : t.at? p = some u) (hu : u.isScope = false) :
    (stateAt p s t).env.current.find? name =
      (if Stmt.opens p t then none else s.env.current.find? name).or
        (pick (stmt s t).phrase (Stmt.here p t) name) := by
  induction p generalizing s t with
  | nil =>
    cases hp
    rw [stateAt, Stmt.opens, hu]
    exact Option.or_none.symm
  | cons i p ih =>
    obtain ⟨c, hc, hp⟩ := Option.bind_eq_some_iff.mp hp
    rw [stateAt, Stmt.opens, Stmt.here, hc]
    dsimp only
    rw [ih hp, pick_append, pick_under (getElem?_inner hc), current_part hc, Option.any_some]
    cases Stmt.opens p c with
    | true => simp
    | false => simp [Option.or_assoc]

theorem faults_declare (s : State) (x : Token) (type : Ty) (readOnly : Bool) :
    f ∈ (declare s x type readOnly).faults ↔ x.isMissing = false ∧
      s.env.current.find? x.text ≠ none ∧ f = ⟨x.span, .alreadyDeclared x.text⟩ := by
  cases hx : x.isMissing with
  | true => simp [declare_of_missing hx]
  | false =>
    by_cases hfree : s.env.current.find? x.text = none
    · simp [declare_of_free hx hfree, hfree]
    · simp [declare_of_taken hx hfree, hfree]

theorem not_alreadyDeclared_expr {env : Environment} {span : Span} :
    ∀ e : Expr, ⟨span, .alreadyDeclared name⟩ ∉ (expr env e).faults
  | .literal _ => List.not_mem_nil
  | .name t => by
    rw [expr, Binding.name]
    split
    · simp
    · split <;> simp
  | .assignment x eq e => by
    have he : ⟨span, .alreadyDeclared name⟩ ∉ (expr env e).faults := not_alreadyDeclared_expr e
    refine List.not_mem_append he ?_
    rw [assignment]
    split
    · simp
    · dsimp only
      split <;> split <;> simp [mismatch]
  | .unary op e => by
    have he : ⟨span, .alreadyDeclared name⟩ ∉ (expr env e).faults := not_alreadyDeclared_expr e
    refine List.not_mem_append he ?_
    rw [unary]
    split <;> simp
  | .binary l op r => by
    have hl : ⟨span, .alreadyDeclared name⟩ ∉ (expr env l).faults := not_alreadyDeclared_expr l
    have hr : ⟨span, .alreadyDeclared name⟩ ∉ (expr env r).faults := not_alreadyDeclared_expr r
    refine List.not_mem_append (List.not_mem_append hl hr) ?_
    rw [binary]
    split <;> simp
  | .parenthesized _ e _ => not_alreadyDeclared_expr e

theorem not_alreadyDeclared_exprOfType {env : Environment} {span : Span} (e : Expr) (type : Ty) :
    ⟨span, .alreadyDeclared name⟩ ∉ (exprOfType env e type).faults := by
  have he : ⟨span, .alreadyDeclared name⟩ ∉ (expr env e).faults := not_alreadyDeclared_expr e
  rw [exprOfType]
  split
  · exact he
  · exact List.not_mem_append he (by simp [mismatch])

/-- Of the complaints at a place, those about a declared name are made if the name is taken in the
current scope. The scope that a loop starts for its variable takes no name before. -/
theorem alreadyDeclared_mem_complaints {span : Span} :
    ⟨span, .alreadyDeclared name⟩ ∈ complaints s u ↔
      (∃ x, u.declaredToken? = some x ∧ x.span = span) ∧ u.declared? = some name ∧
        u.isScope = false ∧ s.env.current.find? name ≠ none := by
  have hnone {u : Stmt} (hf : ⟨span, .alreadyDeclared name⟩ ∉ complaints s u)
      (hu : u.declared? = none) : ⟨span, .alreadyDeclared name⟩ ∈ complaints s u ↔
        (∃ x, u.declaredToken? = some x ∧ x.span = span) ∧ u.declared? = some name ∧
          u.isScope = false ∧ s.env.current.find? name ≠ none :=
    iff_of_false hf fun h => Option.some_ne_none name (h.2.1.symm.trans hu)
  cases u with
  | declaration k x eq e =>
    rw [complaints, List.mem_append, or_iff_right (not_alreadyDeclared_expr e), faults_declare]
    cases hx : x.isMissing with
    | true => simp [Stmt.declared?, hx]
    | false =>
      simp only [Stmt.declaredToken?, Stmt.declared?, Stmt.isScope, hx, Diagnostic.mk.injEq,
        Cause.alreadyDeclared.injEq, Option.some.injEq, true_and, exists_eq_left',
        Bool.false_eq_true, if_false]
      constructor
      · rintro ⟨htaken, rfl, rfl⟩
        exact ⟨rfl, rfl, htaken⟩
      · rintro ⟨rfl, rfl, htaken⟩
        exact ⟨htaken, rfl, rfl⟩
  | forLoop k x eq lo toKw hi b =>
    refine iff_of_false ?_ fun h => Bool.noConfusion h.2.2.1
    refine List.not_mem_append (List.not_mem_append ?_ ?_) fun hdeclare => ?_
    · exact not_alreadyDeclared_exprOfType lo .int
    · exact not_alreadyDeclared_exprOfType hi .int
    · exact (faults_declare ..).mp hdeclare |>.2.1 rfl
  | block => exact hnone List.not_mem_nil rfl
  | expression e => exact hnone (not_alreadyDeclared_expr e) rfl
  | ifThen k c s => exact hnone (not_alreadyDeclared_exprOfType c .bool) rfl
  | ifElse k c s el v => exact hnone (not_alreadyDeclared_exprOfType c .bool) rfl
  | whileLoop k c s => exact hnone (not_alreadyDeclared_exprOfType c .bool) rfl

variable {outer : List Scope} {fresh : Nat}

/-- At a declaration inside given scopes, its name is taken exactly if the declaration comes too
late. -/
theorem taken_iff_redeclares (hu : t.at? d = some u) (hname : u.declared? = some name)
    (hscope : u.isScope = false) :
    (stateAt d ⟨.inside outer, fresh⟩ t).env.current.find? name ≠ none ↔ t.Redeclares d := by
  rw [Stmt.redeclares_iff ⟨u, hu, hname⟩, current_stateAt hu hscope]
  have hempty : (if Stmt.opens d t then none else (Environment.inside outer).current.find? name) =
      none := ite_self none
  rw [hempty, Option.none_or, ne_eq, pick_eq_none_iff, not_forall_not]

/-- A name is complained about as already declared exactly at the declarations that come too
late. -/
theorem alreadyDeclared_mem_faults {span : Span} :
    ⟨span, .alreadyDeclared name⟩ ∈ (stmt ⟨.inside outer, fresh⟩ t).faults ↔
      ∃ d u x, t.at? d = some u ∧ u.declaredToken? = some x ∧ x.span = span ∧
        u.declared? = some name ∧ t.Redeclares d := by
  rw [mem_faults_stmt]
  refine exists_congr fun d => exists_congr fun u => ?_
  rw [alreadyDeclared_mem_complaints]
  constructor
  · rintro ⟨hu, ⟨x, hx, hspan⟩, hname, hscope, htaken⟩
    exact ⟨x, hu, hx, hspan, hname, (taken_iff_redeclares hu hname hscope).mp htaken⟩
  · rintro ⟨x, hu, hx, hspan, hname, hlate⟩
    have hscope : u.isScope = false :=
      Bool.eq_false_iff.mpr fun hscope => Stmt.not_redeclares_of_isScope hu hscope hlate
    exact ⟨hu, ⟨x, hx, hspan⟩, hname, hscope, (taken_iff_redeclares hu hname hscope).mpr hlate⟩

end Binding

end Lumen
