import Lumen.Proofs.Tree.Accounting
import Lumen.Proofs.Tree.Placement
import Lumen.Proofs.Tree.Scoping

/-!
# The parts of a tree

Among the parts of an expression are whole ones, which no operator stands before or behind: the
expression itself, the contents of parentheses and the right sides of assignments. Every statement
inside a statement that is read is read itself, and so is every whole expression.
-/

namespace Lumen.Tree

namespace Expr

/-- The expressions in an expression in order, itself first. -/
def parts : Expr → List Expr
  | literal t => [literal t]
  | name t => [name t]
  | unary op e => unary op e :: e.parts
  | binary l op r => binary l op r :: (l.parts ++ r.parts)
  | parenthesized o e c => parenthesized o e c :: e.parts
  | assignment x eq e => assignment x eq e :: e.parts

/-- The contents of parentheses and the right sides of assignments in an expression, in order. -/
def enclosed : Expr → List Expr
  | literal _ => []
  | name _ => []
  | unary _ e => e.enclosed
  | binary l _ r => l.enclosed ++ r.enclosed
  | parenthesized _ e _ => e :: e.enclosed
  | assignment _ _ e => e :: e.enclosed

/-- The whole expressions in an expression in order, itself first. -/
def wholes (e : Expr) : List Expr := e :: e.enclosed

end Expr

def Stmt.Has (t : Stmt) (e : Expr) : Prop := ∃ p s, t.at? p = some s ∧ e ∈ s.operands

theorem Stmt.has_of_operand {t : Stmt} {e : Expr} (h : e ∈ t.operands) : t.Has e :=
  ⟨[], t, rfl, h⟩

theorem Stmt.Has.of_inner {t c : Stmt} {e : Expr} (h : c.Has e) (hc : c ∈ t.inner) : t.Has e := by
  obtain ⟨p, s, hs, he⟩ := h
  obtain ⟨i, hi⟩ := List.mem_iff_getElem?.mp hc
  exact ⟨i :: p, s, Option.bind_eq_some_iff.mpr ⟨c, hi, hs⟩, he⟩

/-- Whether an expression is read at one of the places of some tokens. -/
def Expr.ReadIn (last : Token) (all : List Token) (e : Expr) : Prop :=
  ∃ ts rest f, ts <:+ all ∧ ReadsExpr last ts e rest f

def Stmt.ReadIn (last : Token) (all : List Token) (s : Stmt) : Prop :=
  ∃ ts rest f dropped, ts <:+ all ∧ ReadsStmt last ts s rest f dropped

variable {last : Token} {all ts rest : List Token} {f : List Diagnostic}

section

variable {kind : TokenKind} {parent : Precedence} {t : Token} {e : Expr}

theorem ReadsToken.suffix (h : ReadsToken last kind ts t rest f) : rest <:+ ts := by
  cases h with
  | found _ => exact List.suffix_cons _ _
  | missing _ => exact List.suffix_rfl

theorem ReadsExpr.suffix (hall : Stream last all) (hts : ts <:+ all)
    (h : ReadsExpr last ts e rest f) : rest <:+ all :=
  (h.laid (hall.of_suffix hts)).suffix.trans hts

theorem ReadsBinary.suffix (hall : Stream last all) (hts : ts <:+ all)
    (h : ReadsBinary last parent ts e rest f) : rest <:+ all :=
  (h.laid (hall.of_suffix hts)).suffix.trans hts

theorem ReadsPrimary.suffix (hall : Stream last all) (hts : ts <:+ all)
    (h : ReadsPrimary last ts e rest f) : rest <:+ all :=
  (h.laid (hall.of_suffix hts)).suffix.trans hts

theorem ReadsStmt.suffix {s : Stmt} {dropped : List Token} (hall : Stream last all)
    (hts : ts <:+ all) (h : ReadsStmt last ts s rest f dropped) : rest <:+ all :=
  (h.laid (hall.of_suffix hts)).suffix.trans hts

end

theorem suffix_of_cons {t : Token} (hts : t :: ts <:+ all) : ts <:+ all :=
  (List.suffix_cons t ts).trans hts

mutual

theorem ReadsExpr.wholes {ts rest : List Token} {e : Expr} {f : List Diagnostic}
    (hall : Stream last all) : ReadsExpr last ts e rest f → ts <:+ all →
      ∀ a ∈ e.wholes, a.ReadIn last all
  | .assignment hx heq h, hts => List.forall_mem_cons.mpr
      ⟨⟨_, _, _, hts, .assignment hx heq h⟩,
        h.wholes hall (suffix_of_cons (suffix_of_cons hts))⟩
  | .binary hstart h, hts => List.forall_mem_cons.mpr
      ⟨⟨_, _, _, hts, .binary hstart h⟩, h.enclosed hall hts⟩

theorem ReadsBinary.enclosed {parent : Precedence} {ts rest : List Token} {e : Expr}
    {f : List Diagnostic} (hall : Stream last all) : ReadsBinary last parent ts e rest f →
      ts <:+ all → ∀ a ∈ e.enclosed, a.ReadIn last all
  | .unary _ h hoperators, hts => by
    have hts := suffix_of_cons hts
    have hoperand := h.enclosed hall hts
    exact hoperators.enclosed hall (h.suffix hall hts) hoperand
  | .primary _ h hoperators, hts =>
    hoperators.enclosed hall (h.suffix hall hts) (h.enclosed hall hts)

theorem ReadsOperators.enclosed {parent : Precedence} {ts rest : List Token} {left e : Expr}
    {f : List Diagnostic} (hall : Stream last all) :
    ReadsOperators last parent left ts e rest f → ts <:+ all →
      (∀ a ∈ left.enclosed, a.ReadIn last all) → ∀ a ∈ e.enclosed, a.ReadIn last all
  | .stop _, _, hleft => hleft
  | .step _ _ h hoperators, hts, hleft => by
    have hts := suffix_of_cons hts
    refine hoperators.enclosed hall (h.suffix hall hts) ?_
    exact List.forall_mem_append.mpr ⟨hleft, h.enclosed hall hts⟩

theorem ReadsPrimary.enclosed {ts rest : List Token} {e : Expr} {f : List Diagnostic}
    (hall : Stream last all) : ReadsPrimary last ts e rest f → ts <:+ all →
      ∀ a ∈ e.enclosed, a.ReadIn last all
  | .parenthesized _ h _, hts => h.wholes hall (suffix_of_cons hts)
  | .truth _, _ => List.forall_mem_nil _
  | .name _, _ => List.forall_mem_nil _
  | .number _ _, _ => List.forall_mem_nil _

end

theorem ReadsStmts.readIn {ts rest dropped : List Token} {ss : List Stmt} {f : List Diagnostic}
    (hall : Stream last all) : ReadsStmts last ts ss rest f dropped → ts <:+ all →
      ∀ s ∈ ss, s.ReadIn last all
  | .done _, _ => List.forall_mem_nil _
  | .used _ h _ hrest, hts => List.forall_mem_cons.mpr
      ⟨⟨_, _, _, _, hts, h⟩, hrest.readIn hall (h.suffix hall hts)⟩
  | .idle _ h _ hrest, hts => List.forall_mem_cons.mpr
      ⟨⟨_, _, _, _, hts, h⟩, hrest.readIn hall (suffix_of_cons hts)⟩

variable {s t u : Stmt} {dropped : List Token}

theorem ReadsStmt.inner (hall : Stream last all) (h : ReadsStmt last ts s rest f dropped)
    (hts : ts <:+ all) : ∀ c ∈ s.inner, c.ReadIn last all := by
  cases h with
  | block _ h _ => exact h.readIn hall (suffix_of_cons hts)
  | declaration => exact List.forall_mem_nil _
  | ifThen _ he h _ =>
    have hmid := he.suffix hall (suffix_of_cons hts)
    exact List.forall_mem_singleton.mpr ⟨_, _, _, _, hmid, h⟩
  | ifElse _ he h _ h' =>
    have hmid := he.suffix hall (suffix_of_cons hts)
    have hbehind := suffix_of_cons (h.suffix hall hmid)
    exact List.forall_mem_cons.mpr ⟨⟨_, _, _, _, hmid, h⟩,
      List.forall_mem_singleton.mpr ⟨_, _, _, _, hbehind, h'⟩⟩
  | whileLoop _ he h =>
    have hmid := he.suffix hall (suffix_of_cons hts)
    exact List.forall_mem_singleton.mpr ⟨_, _, _, _, hmid, h⟩
  | forLoop _ hx heq hlower hto hupper h =>
    have hhead := heq.suffix.trans (hx.suffix.trans (suffix_of_cons hts))
    have hmid := hupper.suffix hall (hto.suffix.trans (hlower.suffix hall hhead))
    exact List.forall_mem_singleton.mpr ⟨_, _, _, _, hmid, h⟩
  | expression => exact List.forall_mem_nil _

theorem ReadsStmt.operands (hall : Stream last all) (h : ReadsStmt last ts s rest f dropped)
    (hts : ts <:+ all) : ∀ e ∈ s.operands, e.ReadIn last all := by
  cases h with
  | block => exact List.forall_mem_nil _
  | declaration _ hx heq he =>
    have hmid := heq.suffix.trans (hx.suffix.trans (suffix_of_cons hts))
    exact List.forall_mem_singleton.mpr ⟨_, _, _, hmid, he⟩
  | ifThen _ he => exact List.forall_mem_singleton.mpr ⟨_, _, _, suffix_of_cons hts, he⟩
  | ifElse _ he => exact List.forall_mem_singleton.mpr ⟨_, _, _, suffix_of_cons hts, he⟩
  | whileLoop _ he => exact List.forall_mem_singleton.mpr ⟨_, _, _, suffix_of_cons hts, he⟩
  | forLoop _ hx heq hlower hto hupper _ =>
    have hlo := heq.suffix.trans (hx.suffix.trans (suffix_of_cons hts))
    have hhi := hto.suffix.trans (hlower.suffix hall hlo)
    exact List.forall_mem_cons.mpr ⟨⟨_, _, _, hlo, hlower⟩,
      List.forall_mem_singleton.mpr ⟨_, _, _, hhi, hupper⟩⟩
  | expression _ he => exact List.forall_mem_singleton.mpr ⟨_, _, _, hts, he⟩

/-- A declared name that was not made up is one of the tokens read. -/
theorem ReadsStmt.declaredToken {x : Token} (h : ReadsStmt last ts s rest f dropped)
    (hts : ts <:+ all) (hx : s.declaredToken? = some x) (hmade : x.isMissing = false) :
    x ∈ all ∧ x.kind = .identifier := by
  have hread {ts rest : List Token} {f : List Diagnostic} (hts : ts <:+ all)
      (h : ReadsToken last .identifier ts x rest f) : x ∈ all ∧ x.kind = .identifier := by
    cases h with
    | found hkind => exact ⟨hts.subset List.mem_cons_self, hkind⟩
    | missing _ =>
      rw [Token.isMissing_missing (by decide)] at hmade
      cases hmade
  cases h with
  | declaration _ h =>
    cases hx
    exact hread (suffix_of_cons hts) h
  | forLoop _ h =>
    cases hx
    exact hread (suffix_of_cons hts) h
  | block | ifThen | ifElse | whileLoop | expression => cases hx

theorem Stmt.ReadIn.at {p : Path} (hall : Stream last all) (h : t.ReadIn last all)
    (hp : t.at? p = some u) : u.ReadIn last all := by
  induction p generalizing t with
  | nil =>
    cases hp
    exact h
  | cons i p ih =>
    obtain ⟨c, hc, hp⟩ := Option.bind_eq_some_iff.mp hp
    obtain ⟨ts, rest, f, dropped, hts, hread⟩ := h
    exact ih (hread.inner hall hts c (List.mem_of_getElem? hc)) hp

theorem Stmt.ReadIn.wholes {e : Expr} (hall : Stream last all) (h : t.ReadIn last all)
    (he : t.Has e) : ∀ a ∈ e.wholes, a.ReadIn last all := by
  obtain ⟨p, s, hp, hmem⟩ := he
  obtain ⟨ts, rest, f, dropped, hts, hread⟩ := h.at hall hp
  obtain ⟨ts', rest', f', hts', hread'⟩ := hread.operands hall hts e hmem
  exact hread'.wholes hall hts'

end Lumen.Tree
