import Lumen.Proofs.Binding.Assignment
import Lumen.Proofs.Binding.Writes

/-!
# Joining scopes

Statements may be bound behind others in one scope, or in a scope of their own inside the scope of
the others. As long as they declare no name of the others in that scope, both ways give the same
bound statements and the same complaints, and the one scope is that of the others and their own,
joined.
-/

namespace Lumen

theorem Scope.find?_eq_none_iff {s : Scope} {name : String} :
    s.find? name = none ↔ ∀ v ∈ s, v.name ≠ name := by
  simp [find?, List.find?_eq_none]

@[simp] theorem Scope.find?_append (s t : Scope) (name : String) :
    Scope.find? (s ++ t) name = (s.find? name).or (t.find? name) := List.find?_append

theorem Scope.name_of_find? {s : Scope} {name : String} {v : Variable}
    (h : s.find? name = some v) : v ∈ s ∧ v.name = name :=
  ⟨List.mem_of_find?_eq_some h, by simpa using List.find?_some h⟩

theorem Environment.lookup?_mk (current : Scope) (outer : List Scope) (name : String) :
    (Environment.mk current outer).lookup? name =
      (current.find? name).or (Scope.global? outer name) := by
  rw [lookup?, List.findSome?_cons]
  cases current.find? name <;> rfl

namespace Binding

open Lumen.Tree (Expr Stmt)

theorem expr_congr {env env' : Environment} (h : ∀ name, env'.lookup? name = env.lookup? name) :
    ∀ t : Expr, expr env' t = expr env t
  | .literal _ => rfl
  | .name t => by rw [expr, expr, name, name, h]
  | .assignment x eq source => by
    rw [expr, expr, expr_congr h source]
    simp only [assignment, h]
  | .unary _ source => by rw [expr, expr, expr_congr h source]
  | .binary left _ right => by rw [expr, expr, expr_congr h left, expr_congr h right]
  | .parenthesized _ inner _ => expr_congr h inner

theorem exprOfType_congr {env env' : Environment}
    (h : ∀ name, env'.lookup? name = env.lookup? name) (t : Expr) (type : Ty) :
    exprOfType env' t type = exprOfType env t type := by
  rw [exprOfType, exprOfType, expr_congr h]

/-- Scopes in which the variables of others come before those of the scope at a depth, seen from the
scopes in which the others form scopes of their own around it. -/
inductive Joined (outer outer' : List Scope) (others : Scope) :
    Nat → Environment → Environment → Prop
  | base {own : Scope} : (∀ v ∈ own, others.find? v.name = none) →
    Joined outer outer' others 0 ⟨own, outer⟩ ⟨others ++ own, outer'⟩
  | inner {depth : Nat} {env env' : Environment} (current : Scope) :
    Joined outer outer' others depth env env' →
      Joined outer outer' others (depth + 1) ⟨current, env.current :: env.outer⟩
        ⟨current, env'.current :: env'.outer⟩

/-- Whether outer scopes mean the same by a name as those of others joined with other outer ones. -/
def Joins (outer outer' : List Scope) (others : Scope) : Prop :=
  ∀ name, Scope.global? outer name = (others.find? name).or (Scope.global? outer' name)

/-- What two ways of binding a phrase have in common. -/
structure Agree {α : Type} (outer outer' : List Scope) (others : Scope) (depth : Nat)
    (b b' : Step α) : Prop where
  phrase : b'.phrase = b.phrase
  faults : b'.faults = b.faults
  fresh : b'.state.fresh = b.state.fresh
  env : Joined outer outer' others depth b.state.env b'.state.env

variable {outer outer' : List Scope} {others : Scope} {depth : Nat} {env env' : Environment}

namespace Joined

theorem lookup?_eq (hjoins : Joins outer outer' others)
    (h : Joined outer outer' others depth env env') (name : String) :
    env'.lookup? name = env.lookup? name := by
  induction h with
  | @base own hown =>
    rw [Environment.lookup?_mk, Environment.lookup?_mk, hjoins, Scope.find?_append]
    cases hown' : own.find? name with
    | none => rw [Option.or_none, Option.none_or]
    | some v =>
      obtain ⟨hmem, hname⟩ := Scope.name_of_find? hown'
      rw [← hname, hown v hmem]
      rfl
  | @inner depth env env' current h ih =>
    have hglobal : Scope.global? (env'.current :: env'.outer) name =
        Scope.global? (env.current :: env.outer) name := ih
    rw [Environment.lookup?_mk, Environment.lookup?_mk, hglobal]

theorem start (outer outer' : List Scope) (others : Scope) :
    Joined outer outer' others 0 (.inside outer) ⟨others, outer'⟩ := by
  have h : Joined outer outer' others 0 ⟨[], outer⟩ ⟨others ++ [], outer'⟩ :=
    .base (List.forall_mem_nil _)
  rwa [List.append_nil] at h

theorem eq_append (h : Joined outer outer' others 0 env env') :
    env' = ⟨others ++ env.current, outer'⟩ := by
  cases h with
  | base _ => rfl

theorem push (h : Joined outer outer' others depth env env') :
    Joined outer outer' others (depth + 1) env.push env'.push :=
  .inner [] h

end Joined

theorem current_subset_declare {s : State} {x : Token} {type : Ty} {readOnly : Bool}
    {v : Variable} (hv : v ∈ s.env.current) :
    v ∈ (declare s x type readOnly).state.env.current := by
  rcases env_declare s x type readOnly with henv | henv
  · exact henv ▸ hv
  · rw [henv]
    exact List.mem_append_left _ hv

theorem declare_of_missing {x : Token} (hx : x.isMissing = true) (s : State) (type : Ty)
    (readOnly : Bool) : declare s x type readOnly =
      ⟨⟨s.fresh, x.text, type, readOnly⟩, { s with fresh := s.fresh + 1 }, []⟩ := by
  rw [declare, if_pos hx]

theorem declare_of_taken {s : State} {x : Token} (hx : x.isMissing = false)
    (h : s.env.current.find? x.text ≠ none) (type : Ty) (readOnly : Bool) :
    declare s x type readOnly =
      ⟨⟨s.fresh, x.text, type, readOnly⟩, { s with fresh := s.fresh + 1 },
        [⟨x.span, .alreadyDeclared x.text⟩]⟩ := by
  have htaken := Option.isSome_iff_ne_none.mpr h
  simp [declare, hx, Environment.declare?, Scope.declare?, htaken]

theorem declare_of_free {s : State} {x : Token} (hx : x.isMissing = false)
    (h : s.env.current.find? x.text = none) (type : Ty) (readOnly : Bool) :
    declare s x type readOnly =
      ⟨⟨s.fresh, x.text, type, readOnly⟩,
        ⟨⟨s.env.current ++ [⟨s.fresh, x.text, type, readOnly⟩], s.env.outer⟩, s.fresh + 1⟩,
        []⟩ := by
  simp [declare, hx, Environment.declare?, Scope.declare?, h]

/-- Declaring a variable agrees, if no other one at the depth of the joined scope has its name. -/
theorem declare_agree {s s' : State} (x : Token) (type : Ty) (readOnly : Bool)
    (h : Joined outer outer' others depth s.env s'.env) (hfresh : s'.fresh = s.fresh)
    (hapart : depth = 0 → ∀ v ∈ (declare s x type readOnly).state.env.current,
      others.find? v.name = none) :
    Agree outer outer' others depth (declare s x type readOnly)
      (declare s' x type readOnly) := by
  obtain ⟨env, fresh⟩ := s
  obtain ⟨env', fresh'⟩ := s'
  cases hfresh
  cases hx : x.isMissing with
  | true =>
    rw [declare_of_missing hx, declare_of_missing hx]
    exact ⟨rfl, rfl, rfl, h⟩
  | false =>
    cases h with
    | @base own hown =>
      by_cases hfree : own.find? x.text = none
      · rw [declare_of_free hx hfree] at hapart ⊢
        have hnew := hapart rfl
        have hother : others.find? x.text = none :=
          hnew _ (List.mem_append_right _ List.mem_cons_self)
        have hjoined : (others ++ own : Scope).find? x.text = none := by
          rw [Scope.find?_append, hother, hfree]
          rfl
        rw [declare_of_free hx hjoined]
        refine ⟨rfl, rfl, rfl, ?_⟩
        rw [List.append_assoc]
        exact .base hnew
      · have hjoined : (others ++ own : Scope).find? x.text ≠ none := by
          rw [Scope.find?_append]
          exact mt (fun h => (Option.or_eq_none_iff.mp h).2) hfree
        rw [declare_of_taken hx hfree, declare_of_taken hx hjoined]
        exact ⟨rfl, rfl, rfl, .base hown⟩
    | @inner depth env env' current h =>
      by_cases hfree : current.find? x.text = none
      · rw [declare_of_free hx hfree, declare_of_free hx hfree]
        exact ⟨rfl, rfl, rfl, .inner _ h⟩
      · rw [declare_of_taken hx hfree, declare_of_taken hx hfree]
        exact ⟨rfl, rfl, rfl, .inner _ h⟩

theorem current_subset_stmt : ∀ {s : State} {t : Stmt} {v : Variable}, v ∈ s.env.current →
    v ∈ (stmt s t).state.env.current
  | _, .block .., _, hv => hv
  | _, .declaration .., _, hv => current_subset_declare hv
  | _, .ifThen _ _ consequence, _, hv => current_subset_stmt (t := consequence) hv
  | _, .ifElse _ _ consequence _ alternative, _, hv =>
    current_subset_stmt (t := alternative) (current_subset_stmt (t := consequence) hv)
  | _, .whileLoop _ _ body, _, hv => current_subset_stmt (t := body) hv
  | _, .forLoop .., _, hv => hv
  | _, .expression _, _, hv => hv

theorem current_subset_stmts : ∀ {s : State} {ts : List Stmt} {v : Variable}, v ∈ s.env.current →
    v ∈ (stmts s ts).state.env.current
  | _, [], _, hv => hv
  | s, t :: ts, v, hv => by
    have hrest : v ∈ (stmts (stmt s t).state ts).state.env.current :=
      current_subset_stmts (current_subset_stmt hv)
    exact hrest

mutual

/-- Binding a statement agrees, if at the depth of the joined scope it declares no name of the
others. -/
theorem stmt_agree (hjoins : Joins outer outer' others) : ∀ {depth : Nat} {s s' : State} (t : Stmt),
    Joined outer outer' others depth s.env s'.env → s'.fresh = s.fresh →
      (depth = 0 → ∀ v ∈ (stmt s t).state.env.current, others.find? v.name = none) →
        Agree outer outer' others depth (stmt s t) (stmt s' t)
  | depth, s, s', .block _ body _, h, hfresh, _ => by
    have hbody : Agree outer outer' others (depth + 1) (stmts ⟨s.env.push, s.fresh⟩ body)
        (stmts ⟨s'.env.push, s'.fresh⟩ body) :=
      stmts_agree hjoins body h.push hfresh nofun
    exact ⟨congrArg Bound.Stmt.block hbody.phrase, hbody.faults, hbody.fresh, h⟩
  | depth, s, s', .declaration k x _ source, h, hfresh, hapart => by
    have he := expr_congr (h.lookup?_eq hjoins) source
    have hv := declare_agree x (expr s.env source).phrase.type (k.kind = .letKeyword) h hfresh
      hapart
    rw [stmt, stmt, he]
    exact ⟨by rw [hv.phrase], by rw [hv.faults], hv.fresh, hv.env⟩
  | depth, s, s', .ifThen _ condition consequence, h, hfresh, hapart => by
    have hc := exprOfType_congr (h.lookup?_eq hjoins) condition .bool
    have ht := stmt_agree hjoins consequence h hfresh hapart
    rw [stmt, stmt, hc]
    exact ⟨by rw [ht.phrase], by rw [ht.faults], ht.fresh, ht.env⟩
  | depth, s, s', .ifElse _ condition consequence _ alternative, h, hfresh, hapart => by
    have hc := exprOfType_congr (h.lookup?_eq hjoins) condition .bool
    have ht := stmt_agree hjoins consequence h hfresh fun hdepth v hv =>
      hapart hdepth v (current_subset_stmt (t := alternative) hv)
    have hu := stmt_agree hjoins alternative ht.env ht.fresh hapart
    rw [stmt, stmt, hc]
    exact ⟨by rw [ht.phrase, hu.phrase], by rw [ht.faults, hu.faults], hu.fresh, hu.env⟩
  | depth, s, s', .whileLoop _ condition body, h, hfresh, hapart => by
    have hc := exprOfType_congr (h.lookup?_eq hjoins) condition .bool
    have hb := stmt_agree hjoins body h hfresh hapart
    rw [stmt, stmt, hc]
    exact ⟨by rw [hb.phrase], by rw [hb.faults], hb.fresh, hb.env⟩
  | depth, s, s', .forLoop _ x _ lower _ upper body, h, hfresh, _ => by
    have hlo := exprOfType_congr (h.lookup?_eq hjoins) lower .int
    have hhi := exprOfType_congr (h.lookup?_eq hjoins) upper .int
    have hv : Agree outer outer' others (depth + 1)
        (declare ⟨s.env.push, s.fresh⟩ x .int false)
        (declare ⟨s'.env.push, s'.fresh⟩ x .int false) :=
      declare_agree x .int false h.push hfresh nofun
    have hb := stmt_agree hjoins body hv.env hv.fresh nofun
    rw [stmt, stmt, hlo, hhi]
    exact ⟨by rw [hv.phrase, hb.phrase], by rw [hv.faults, hb.faults], hb.fresh, h⟩
  | depth, s, s', .expression source, h, hfresh, _ => by
    have he := expr_congr (h.lookup?_eq hjoins) source
    rw [stmt, stmt, he]
    exact ⟨rfl, rfl, hfresh, h⟩

theorem stmts_agree (hjoins : Joins outer outer' others) : ∀ {depth : Nat} {s s' : State}
    (ts : List Stmt), Joined outer outer' others depth s.env s'.env → s'.fresh = s.fresh →
      (depth = 0 → ∀ v ∈ (stmts s ts).state.env.current, others.find? v.name = none) →
        Agree outer outer' others depth (stmts s ts) (stmts s' ts)
  | _, _, _, [], h, hfresh, _ => ⟨rfl, rfl, hfresh, h⟩
  | depth, s, s', t :: ts, h, hfresh, hapart => by
    have hkept : ∀ v ∈ (stmt s t).state.env.current,
        v ∈ (stmts (stmt s t).state ts).state.env.current := fun v hv => current_subset_stmts hv
    have hfirst := stmt_agree hjoins t h hfresh fun hdepth v hv => hapart hdepth v (hkept v hv)
    have hrest := stmts_agree hjoins ts hfirst.env hfirst.fresh hapart
    rw [stmts, stmts]
    exact ⟨by rw [hfirst.phrase, hrest.phrase], by rw [hfirst.faults, hrest.faults], hrest.fresh,
      hrest.env⟩

end

end Binding

end Lumen
