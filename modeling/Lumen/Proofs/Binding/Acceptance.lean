import Lumen.Proofs.Binding.Rules
import Lumen.Proofs.Binding.Scopes
import Lumen.Proofs.Bound.Typing

/-!
# Binding accepts exactly the well typed programs

On a complete syntax tree binding has no complaint exactly if the tree is well typed by the rules.
The node that binding goes on with after a complaint can neither hide that complaint nor take part
in a derivation, so expressions and statements are compared phrase by phrase: no complaint and the
type of the bound phrase on the one side, a derivation on the other.
-/

namespace Lumen

def Declaration.ofVariable (v : Variable) : Declaration := ⟨v.name, v.type, v.readOnly⟩

def Context.ofScopes (scopes : List Scope) : Context :=
  scopes.map fun scope => scope.map Declaration.ofVariable

def Environment.context (env : Environment) : Context := .ofScopes (env.current :: env.outer)

theorem Rules.visible_ofScopes {name : String} {d : Declaration} (scopes : List Scope) :
    Visible name (.ofScopes scopes) d ↔
      ∃ v, scopes.findSome? (·.find? name) = some v ∧ .ofVariable v = d := by
  induction scopes with
  | nil =>
    constructor
    · rintro ⟨⟩
    · rintro ⟨v, hv, -⟩
      cases hv
  | cons scope scopes ih =>
    rw [List.findSome?_cons]
    induction scope with
    | nil =>
      constructor
      · intro h
        cases h with
        | outward h => exact ih.mp h
      · intro h
        exact .outward (ih.mpr h)
    | cons w scope ihscope =>
      by_cases hw : w.name = name
      · have hfind : Scope.find? (w :: scope) name = some w := List.find?_cons_of_pos (by simpa)
        rw [hfind]
        constructor
        · intro h
          cases h with
          | here _ => exact ⟨w, rfl, rfl⟩
          | later hne _ => exact absurd hw hne
        · rintro ⟨v, hv, rfl⟩
          cases hv
          exact .here hw
      · have hfind : Scope.find? (w :: scope) name = Scope.find? scope name :=
          List.find?_cons_of_neg (by simpa)
        rw [hfind, ← ihscope]
        constructor
        · intro h
          cases h with
          | here h => exact absurd h hw
          | later _ h => exact h
        · exact .later hw

theorem Environment.visible_iff {env : Environment} {name : String} {d : Declaration} :
    Rules.Visible name env.context d ↔ ∃ v, env.lookup? name = some v ∧ .ofVariable v = d :=
  Rules.visible_ofScopes _

namespace Binding

open Lumen.Rules (HasType Accepts AcceptsAll)
open Lumen.Tree (Expr Stmt)

variable {env : Environment} {τ : Ty}

theorem name_accepted {t : Token} (ht : t.isMissing = false) :
    (name env t).faults = [] ∧ (name env t).phrase.type = τ ↔
      ∃ v, env.lookup? t.text = some v ∧ v.type = τ := by
  rw [name, ht]
  cases env.lookup? t.text with
  | none => simp
  | some v => simp [Bound.Expr.type]

theorem assignment_accepted {x eq : Token} {source : Expr} {e : Bound.Expr} :
    (assignment env x eq source e).faults = [] ∧ (assignment env x eq source e).phrase.type = τ ↔
      ∃ v, env.lookup? x.text = some v ∧ v.readOnly = false ∧ e.type = v.type ∧ e.type = τ := by
  rw [assignment]
  cases env.lookup? x.text with
  | none => simp
  | some v =>
    by_cases htype : e.type = v.type
    · cases v.readOnly <;> simp [htype, Bound.Expr.type]
    · simp [htype]

theorem unary_accepted {op : Token} {e : Bound.Expr} :
    (unary op e).faults = [] ∧ (unary op e).phrase.type = τ ↔
      ∃ o, UnaryOperator.resolve? op.kind e.type = some o ∧ o.result = τ := by
  rw [unary]
  cases UnaryOperator.resolve? op.kind e.type <;> simp [Bound.Expr.type]

theorem binary_accepted {op : Token} {l r : Bound.Expr} :
    (binary l op r).faults = [] ∧ (binary l op r).phrase.type = τ ↔
      ∃ o, BinaryOperator.resolve? op.kind l.type r.type = some o ∧ o.result = τ := by
  rw [binary]
  cases BinaryOperator.resolve? op.kind l.type r.type <;> simp [Bound.Expr.type]

/-- A complete expression has a type by the rules exactly if binding has no complaint about it and
gives it that type. -/
theorem hasType_iff : ∀ {e : Expr} {τ : Ty}, e.Complete →
    (HasType env.context e τ ↔ (expr env e).faults = [] ∧ (expr env e).phrase.type = τ)
  | .literal t, τ, h => by
    obtain ⟨x, hx⟩ := Option.ne_none_iff_exists'.mp h.2
    constructor
    · intro ht
      cases ht with
      | literal hx' =>
        rw [expr, hx']
        exact ⟨rfl, rfl⟩
    · rw [expr, hx]
      rintro ⟨-, rfl⟩
      exact .literal hx
  | .name t, τ, h => by
    rw [expr, name_accepted h]
    constructor
    · intro ht
      cases ht with
      | name hd =>
        obtain ⟨v, hv, rfl⟩ := Environment.visible_iff.mp hd
        exact ⟨v, hv, rfl⟩
    · rintro ⟨v, hv, rfl⟩
      exact .name (Environment.visible_iff.mpr ⟨v, hv, rfl⟩)
  | .assignment x eq e, τ, h => by
    simp only [expr, List.append_eq_nil_iff, and_assoc, assignment_accepted]
    constructor
    · intro ht
      cases ht with
      | assignment he hd hfree =>
        obtain ⟨v, hv, rfl⟩ := Environment.visible_iff.mp hd
        obtain ⟨hfaults, htype⟩ := (hasType_iff h.2.2).mp he
        exact ⟨hfaults, v, hv, hfree, htype, htype⟩
    · rintro ⟨hfaults, v, hv, hfree, htype, rfl⟩
      rw [htype]
      exact .assignment ((hasType_iff h.2.2).mpr ⟨hfaults, htype⟩)
        (Environment.visible_iff.mpr ⟨v, hv, rfl⟩) hfree
  | .unary op e, τ, h => by
    simp only [expr, List.append_eq_nil_iff, and_assoc, unary_accepted,
      UnaryOperator.resolve?_eq_some]
    constructor
    · intro ht
      cases ht with
      | unary ho htoken he =>
        obtain ⟨hfaults, htype⟩ := (hasType_iff h.2).mp he
        exact ⟨hfaults, _, ho, htoken, htype.symm, rfl⟩
    · rintro ⟨hfaults, o, ho, htoken, hoperand, rfl⟩
      exact .unary ho htoken ((hasType_iff h.2).mpr ⟨hfaults, hoperand.symm⟩)
  | .binary l op r, τ, h => by
    simp only [expr, List.append_eq_nil_iff, and_assoc, binary_accepted,
      BinaryOperator.resolve?_eq_some]
    constructor
    · intro ht
      cases ht with
      | binary ho htoken hl hr =>
        obtain ⟨hlfaults, hltype⟩ := (hasType_iff h.1).mp hl
        obtain ⟨hrfaults, hrtype⟩ := (hasType_iff h.2.2).mp hr
        exact ⟨hlfaults, hrfaults, _, ho, htoken, hltype.symm, hrtype.symm, rfl⟩
    · rintro ⟨hlfaults, hrfaults, o, ho, htoken, hleft, hright, rfl⟩
      exact .binary ho htoken ((hasType_iff h.1).mpr ⟨hlfaults, hleft.symm⟩)
        ((hasType_iff h.2.2).mpr ⟨hrfaults, hright.symm⟩)
  | .parenthesized p e q, τ, h => by
    rw [expr, ← hasType_iff h.2.1]
    constructor
    · intro ht
      cases ht with
      | parenthesized he => exact he
    · exact .parenthesized

theorem hasType_iff_exprOfType {e : Expr} (h : e.Complete) (τ : Ty) :
    HasType env.context e τ ↔ (exprOfType env e τ).faults = [] := by
  rw [hasType_iff h, exprOfType]
  split
  · next htype => simp [htype]
  · next htype => simp [htype]

theorem declare_accepted {s : State} {x : Token} (hx : x.isMissing = false) (type : Ty)
    (readOnly : Bool) (Γ : Context) :
    (declare s x type readOnly).faults = [] ∧ (declare s x type readOnly).state.env.context = Γ ↔
      (∀ d ∈ s.env.current.map Declaration.ofVariable, d.name ≠ x.text) ∧
        (s.env.current.map Declaration.ofVariable ++ [⟨x.text, type, readOnly⟩]) ::
          Context.ofScopes s.env.outer = Γ := by
  simp only [declare, hx, Environment.declare?, Scope.declare?, List.forall_mem_map]
  cases hfind : s.env.current.find? x.text with
  | none =>
    have hfree : ∀ v ∈ s.env.current, (Declaration.ofVariable v).name ≠ x.text := by
      intro v hv
      have hne := List.find?_eq_none.mp hfind v hv
      exact of_decide_eq_false (Bool.eq_false_iff.mpr hne)
    constructor
    · rintro ⟨-, rfl⟩
      exact ⟨hfree, by simp [Environment.context, Context.ofScopes, Declaration.ofVariable]⟩
    · rintro ⟨-, rfl⟩
      exact ⟨rfl, by simp [Environment.context, Context.ofScopes, Declaration.ofVariable]⟩
  | some w =>
    constructor
    · rintro ⟨hfaults, -⟩
      cases hfaults
    · rintro ⟨hfree, -⟩
      have hname := List.find?_some hfind
      exact absurd (of_decide_eq_true hname) (hfree w (List.mem_of_find?_eq_some hfind))

mutual

/-- A complete statement is accepted by the rules, with a context behind it, exactly if binding has
no complaint about it and hands on these scopes. -/
theorem accepts_iff : ∀ {s : State} {t : Stmt} {Γ : Context}, t.Complete →
    (Accepts s.env.context t Γ ↔ (stmt s t).faults = [] ∧ (stmt s t).state.env.context = Γ)
  | s, .block o body c, Γ, h => by
    have hbody := fun Δ => acceptsAll_iff (s := ⟨s.env.push, s.fresh⟩) (Γ := Δ) h.2.1
    rw [stmt]
    constructor
    · intro ht
      cases ht with
      | block hall => exact ⟨((hbody _).mp hall).1, rfl⟩
    · rintro ⟨hfaults, rfl⟩
      exact .block ((hbody _).mpr ⟨hfaults, rfl⟩)
  | s, .declaration k x eq e, Γ, h => by
    rw [stmt]
    simp only [List.append_eq_nil_iff, and_assoc, declare_accepted h.2.1]
    refine Rules.accepts_declaration_iff.trans ?_
    constructor
    · rintro ⟨τ, he, hfree, hΓ⟩
      obtain ⟨hfaults, rfl⟩ := (hasType_iff h.2.2.2).mp he
      exact ⟨hfaults, hfree, hΓ⟩
    · rintro ⟨hfaults, hfree, hΓ⟩
      exact ⟨_, (hasType_iff h.2.2.2).mpr ⟨hfaults, rfl⟩, hfree, hΓ⟩
  | s, .ifThen k c t, Γ, h => by
    rw [stmt]
    simp only [List.append_eq_nil_iff, and_assoc, ← hasType_iff_exprOfType h.2.1,
      ← accepts_iff h.2.2]
    constructor
    · intro ht
      cases ht with
      | ifThen hc ht => exact ⟨hc, ht⟩
    · exact fun ⟨hc, ht⟩ => .ifThen hc ht
  | s, .ifElse k c t el u, Γ, h => by
    obtain ⟨-, hc, ht, -, hu⟩ := h
    have hthen := fun Δ => accepts_iff (s := s) (Γ := Δ) ht
    rw [stmt]
    simp only [List.append_eq_nil_iff, and_assoc, ← hasType_iff_exprOfType hc]
    constructor
    · intro ht
      cases ht with
      | ifElse hc ht hu' =>
        obtain ⟨hfaults, rfl⟩ := (hthen _).mp ht
        exact ⟨hc, hfaults, (accepts_iff hu).mp hu'⟩
    · rintro ⟨hc, hfaults, hrest⟩
      exact .ifElse hc ((hthen _).mpr ⟨hfaults, rfl⟩) ((accepts_iff hu).mpr hrest)
  | s, .whileLoop k c t, Γ, h => by
    rw [stmt]
    simp only [List.append_eq_nil_iff, and_assoc, ← hasType_iff_exprOfType h.2.1,
      ← accepts_iff h.2.2]
    constructor
    · intro ht
      cases ht with
      | whileLoop hc ht => exact ⟨hc, ht⟩
    · exact fun ⟨hc, ht⟩ => .whileLoop hc ht
  | s, .forLoop k x eq lower toKw upper t, Γ, h => by
    obtain ⟨-, hx, -, hlower, -, hupper, hbody⟩ := h
    have hdeclare := (declare_accepted (s := ⟨s.env.push, s.fresh⟩) hx .int false
      ([⟨x.text, .int, false⟩] :: s.env.context)).mpr ⟨List.forall_mem_nil _, rfl⟩
    have hround := fun Δ =>
      accepts_iff (s := (declare ⟨s.env.push, s.fresh⟩ x .int false).state) (Γ := Δ) hbody
    rw [hdeclare.2] at hround
    rw [stmt]
    simp only [List.append_eq_nil_iff, and_assoc, ← hasType_iff_exprOfType hlower,
      ← hasType_iff_exprOfType hupper, hdeclare.1, true_and]
    constructor
    · intro ht
      cases ht with
      | forLoop hlo hhi ht => exact ⟨hlo, hhi, ((hround _).mp ht).1, rfl⟩
    · rintro ⟨hlo, hhi, hfaults, rfl⟩
      exact .forLoop hlo hhi ((hround _).mpr ⟨hfaults, rfl⟩)
  | s, .expression e, Γ, h => by
    rw [stmt]
    constructor
    · intro ht
      cases ht with
      | expression he => exact ⟨((hasType_iff h).mp he).1, rfl⟩
    · rintro ⟨hfaults, rfl⟩
      exact .expression ((hasType_iff h).mpr ⟨hfaults, rfl⟩)

theorem acceptsAll_iff : ∀ {s : State} {ts : List Stmt} {Γ : Context},
    Stmt.CompleteList ts →
      (AcceptsAll s.env.context ts Γ ↔ (stmts s ts).faults = [] ∧
        (stmts s ts).state.env.context = Γ)
  | s, [], Γ, _ => by
    rw [stmts]
    constructor
    · intro ht
      cases ht
      exact ⟨rfl, rfl⟩
    · rintro ⟨-, rfl⟩
      exact .nil
  | s, t :: ts, Γ, h => by
    have hfirst := fun Δ => accepts_iff (s := s) (Γ := Δ) h.1
    rw [stmts]
    simp only [List.append_eq_nil_iff, and_assoc]
    constructor
    · intro ht
      cases ht with
      | cons ht hts =>
        obtain ⟨hfaults, rfl⟩ := (hfirst _).mp ht
        exact ⟨hfaults, (acceptsAll_iff h.2).mp hts⟩
    · rintro ⟨hfaults, hrest⟩
      exact .cons ((hfirst _).mpr ⟨hfaults, rfl⟩) ((acceptsAll_iff h.2).mpr hrest)

end

/-- Binding accepts exactly the well typed programs: behind any scopes, a complete tree is bound
without complaint exactly if it is well typed by the rules. -/
theorem faultless_iff_accepts {t : Stmt} (ht : t.Complete) (outer : List Scope) (fresh : Nat) :
    (stmt ⟨.inside outer, fresh⟩ t).faults = [] ↔
      ∃ Γ, Accepts ([] :: Context.ofScopes outer) t Γ := by
  constructor
  · intro hfaults
    exact ⟨_, (accepts_iff (s := ⟨.inside outer, fresh⟩) ht).mpr ⟨hfaults, rfl⟩⟩
  · rintro ⟨Γ, hΓ⟩
    exact ((accepts_iff (s := ⟨.inside outer, fresh⟩) ht).mp hΓ).1

/-- A block that declares a variable of its own from a read-only one of the same name, which an
earlier submission has, and then assigns to it. -/
theorem faultless_iff_accepts_of_shadowing :
    let x : Token := ⟨.identifier, 6, "x", none⟩
    let t : Stmt := .block ⟨.openBrace, 0, "\x7b", none⟩
      [.declaration ⟨.varKeyword, 2, "var", none⟩ x ⟨.equals, 8, "=", none⟩ (.name x),
        .expression (.assignment x ⟨.equals, 14, "=", none⟩
          (.literal ⟨.number, 16, "2", some (.int 2)⟩))]
      ⟨.closeBrace, 18, "\x7d", none⟩
    t.Complete ∧ ∃ Γ, Accepts [[], [⟨"x", .int, true⟩]] t Γ := by
  intro x t
  have ht : t.Complete := by
    simp [t, x, Stmt.Complete, Stmt.CompleteList, Expr.Complete, Token.isMissing]
  exact ⟨ht, (faultless_iff_accepts ht [[⟨0, "x", .int, true⟩]] 1).mp (by decide)⟩

end Binding

end Lumen
