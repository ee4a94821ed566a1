import Lumen.Operator
import Lumen.Tree

/-!
# The rules of the language

Which programs are well typed, said of syntax trees alone and without an order of checking. A
context lists the scopes in force, innermost first, and each scope its declarations in order. Blocks
and loops over numbers open a scope, while branches and other loops share the one around them; so a
statement hands on a context.
-/

namespace Lumen

structure Declaration where
  name : String
  type : Ty
  readOnly : Bool
  deriving DecidableEq

/-- The declarations of the scopes in force, innermost first. -/
abbrev Context := List (List Declaration)

namespace Rules

open Lumen.Tree (Expr Stmt)

/-- Whether a name means a declaration: the one of the innermost scope that declares the name. -/
inductive Visible (name : String) : Context → Declaration → Prop
  | here {d : Declaration} {scope : List Declaration} {Γ : Context} :
    d.name = name → Visible name ((d :: scope) :: Γ) d
  | later {d e : Declaration} {scope : List Declaration} {Γ : Context} :
    d.name ≠ name → Visible name (scope :: Γ) e → Visible name ((d :: scope) :: Γ) e
  | outward {e : Declaration} {Γ : Context} : Visible name Γ e → Visible name ([] :: Γ) e

inductive HasType (Γ : Context) : Expr → Ty → Prop
  | literal {t : Token} {x : Value} : t.value = some x → HasType Γ (.literal t) x.type
  | name {t : Token} {d : Declaration} : Visible t.text Γ d → HasType Γ (.name t) d.type
  | assignment {x eq : Token} {e : Expr} {d : Declaration} :
    HasType Γ e d.type → Visible x.text Γ d → d.readOnly = false →
      HasType Γ (.assignment x eq e) d.type
  | unary {op : Token} {e : Expr} {o : UnaryOperator} :
    o ∈ UnaryOperator.table → o.token = op.kind → HasType Γ e o.operand →
      HasType Γ (.unary op e) o.result
  | binary {op : Token} {l r : Expr} {o : BinaryOperator} :
    o ∈ BinaryOperator.table → o.token = op.kind → HasType Γ l o.left → HasType Γ r o.right →
      HasType Γ (.binary l op r) o.result
  | parenthesized {p q : Token} {e : Expr} {τ : Ty} :
    HasType Γ e τ → HasType Γ (.parenthesized p e q) τ

mutual

/-- Whether a statement is well typed, and the context behind it. -/
inductive Accepts : Context → Stmt → Context → Prop
  | block {Γ Γ' : Context} {o c : Token} {body : List Stmt} :
    AcceptsAll ([] :: Γ) body Γ' → Accepts Γ (.block o body c) Γ
  | declaration {scope : List Declaration} {Γ : Context} {k x eq : Token} {e : Expr} {τ : Ty} :
    HasType (scope :: Γ) e τ → (∀ d ∈ scope, d.name ≠ x.text) →
      Accepts (scope :: Γ) (.declaration k x eq e)
        ((scope ++ [⟨x.text, τ, k.kind = .letKeyword⟩]) :: Γ)
  | ifThen {Γ Γ' : Context} {k : Token} {c : Expr} {t : Stmt} :
    HasType Γ c .bool → Accepts Γ t Γ' → Accepts Γ (.ifThen k c t) Γ'
  | ifElse {Γ Γ' Γ'' : Context} {k el : Token} {c : Expr} {t u : Stmt} :
    HasType Γ c .bool → Accepts Γ t Γ' → Accepts Γ' u Γ'' → Accepts Γ (.ifElse k c t el u) Γ''
  | whileLoop {Γ Γ' : Context} {k : Token} {c : Expr} {t : Stmt} :
    HasType Γ c .bool → Accepts Γ t Γ' → Accepts Γ (.whileLoop k c t) Γ'
  | forLoop {Γ Γ' : Context} {k x eq toKw : Token} {lower upper : Expr} {t : Stmt} :
    HasType Γ lower .int → HasType Γ upper .int → Accepts ([⟨x.text, .int, false⟩] :: Γ) t Γ' →
      Accepts Γ (.forLoop k x eq lower toKw upper t) Γ
  | expression {Γ : Context} {e : Expr} {τ : Ty} :
    HasType Γ e τ → Accepts Γ (.expression e) Γ

inductive AcceptsAll : Context → List Stmt → Context → Prop
  | nil {Γ : Context} : AcceptsAll Γ [] Γ
  | cons {Γ Γ' Γ'' : Context} {t : Stmt} {ts : List Stmt} :
    Accepts Γ t Γ' → AcceptsAll Γ' ts Γ'' → AcceptsAll Γ (t :: ts) Γ''

end

theorem accepts_declaration_iff {scope : List Declaration} {Γ Δ : Context} {k x eq : Token}
    {e : Expr} :
    Accepts (scope :: Γ) (.declaration k x eq e) Δ ↔
      ∃ τ, HasType (scope :: Γ) e τ ∧ (∀ d ∈ scope, d.name ≠ x.text) ∧
        (scope ++ [⟨x.text, τ, k.kind = .letKeyword⟩]) :: Γ = Δ := by
  constructor
  · intro h
    cases h with
    | declaration he hfree => exact ⟨_, he, hfree, rfl⟩
  · rintro ⟨τ, he, hfree, rfl⟩
    exact .declaration he hfree

end Rules

namespace Tree

/-- Whether no token of an expression is made up and every literal has a value. -/
def Expr.Complete : Expr → Prop
  | literal t => t.isMissing = false ∧ t.value ≠ none
  | name t => t.isMissing = false
  | unary op e => op.isMissing = false ∧ e.Complete
  | binary l op r => l.Complete ∧ op.isMissing = false ∧ r.Complete
  | parenthesized o e c => o.isMissing = false ∧ e.Complete ∧ c.isMissing = false
  | assignment x eq e => x.isMissing = false ∧ eq.isMissing = false ∧ e.Complete

namespace Stmt

mutual

def Complete : Stmt → Prop
  | block o body c => o.isMissing = false ∧ CompleteList body ∧ c.isMissing = false
  | declaration k x eq e =>
    k.isMissing = false ∧ x.isMissing = false ∧ eq.isMissing = false ∧ e.Complete
  | ifThen k e t => k.isMissing = false ∧ e.Complete ∧ t.Complete
  | ifElse k e t el u =>
    k.isMissing = false ∧ e.Complete ∧ t.Complete ∧ el.isMissing = false ∧ u.Complete
  | whileLoop k e t => k.isMissing = false ∧ e.Complete ∧ t.Complete
  | forLoop k x eq lo toKw hi t =>
    k.isMissing = false ∧ x.isMissing = false ∧ eq.isMissing = false ∧ lo.Complete ∧
      toKw.isMissing = false ∧ hi.Complete ∧ t.Complete
  | expression e => e.Complete

def CompleteList : List Stmt → Prop
  | [] => True
  | t :: ts => t.Complete ∧ CompleteList ts

end

end Stmt

end Tree

end Lumen
