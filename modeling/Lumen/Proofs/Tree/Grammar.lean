import Lumen.Precedence
import Lumen.Tree

/-!
# The grammar of syntax trees

A tree is grammatical if every leaf is of a kind that the grammar has at its place and every operand
binds at least as tight as its operator asks for: no tighter than the operator on the left of a
binary one, tighter on its right, and as a unary or primary expression behind a unary one. That a
tree can be told from its leaves in order also takes two conditions on what follows its parts: a sign
behind an expression would go on with it, and an else belongs to the nearest if before it.
-/

namespace Lumen.Tree

namespace Expr

/-- The level at which the outermost operator of an expression binds; an assignment binds at the
lowest one. -/
def level : Expr → Precedence
  | assignment .. => .lowest
  | binary _ op _ => op.kind.binaryPrecedence?.getD .lowest
  | _ => .unary

/-- Whether the leaves of an expression are of the kinds of their places, and its operands bind as
tight as its operators ask for. -/
def Grammatical : Expr → Prop
  | literal t => t.kind ∈ [.number, .trueKeyword, .falseKeyword]
  | name t => t.kind = .identifier
  | unary op e =>
    op.kind.isUnaryOperator = true ∧ Precedence.unary.rank ≤ e.level.rank ∧ e.Grammatical
  | binary l op r => ∃ p, op.kind.binaryPrecedence? = some p ∧
    (p.rank ≤ l.level.rank ∧ l.Grammatical) ∧ p.rank < r.level.rank ∧ r.Grammatical
  | parenthesized o e c => o.kind = .openParen ∧ e.Grammatical ∧ c.kind = .closeParen
  | assignment x eq e => x.kind = .identifier ∧ eq.kind = .equals ∧ e.Grammatical

end Expr

/-- Whether some tokens start with a sign that could go on with an expression before them. -/
def StartsWithSign : List Token → Prop
  | [] => False
  | t :: _ => t.kind = .plus ∨ t.kind = .minus

def StartsWithElse : List Token → Prop
  | [] => False
  | t :: _ => t.kind = .elseKeyword

namespace Stmt

mutual

def Grammatical : Stmt → Prop
  | block o body c => o.kind = .openBrace ∧ GrammaticalList body ∧ c.kind = .closeBrace
  | declaration k x eq e =>
    k.kind ∈ [.varKeyword, .letKeyword] ∧ x.kind = .identifier ∧ eq.kind = .equals ∧ e.Grammatical
  | ifThen k e s => k.kind = .ifKeyword ∧ e.Grammatical ∧ s.Grammatical
  | ifElse k e s el t =>
    k.kind = .ifKeyword ∧ e.Grammatical ∧ s.Grammatical ∧ el.kind = .elseKeyword ∧ t.Grammatical
  | whileLoop k e s => k.kind = .whileKeyword ∧ e.Grammatical ∧ s.Grammatical
  | forLoop k x eq lower toKw upper s =>
    k.kind = .forKeyword ∧ x.kind = .identifier ∧ eq.kind = .equals ∧ lower.Grammatical ∧
      toKw.kind = .toKeyword ∧ upper.Grammatical ∧ s.Grammatical
  | expression e => e.Grammatical

def GrammaticalList : List Stmt → Prop
  | [] => True
  | s :: ss => s.Grammatical ∧ GrammaticalList ss

end

mutual

/-- Whether, with given tokens behind a statement, no expression in it that ends a statement or
stands right before one is followed by a sign, and no if without else by an else. -/
def Unambiguous (following : List Token) : Stmt → Prop
  | block _ body c => UnambiguousList (c :: following) body
  | declaration .. => ¬ StartsWithSign following
  | ifThen _ _ s =>
    ¬ StartsWithSign (s.leaves ++ following) ∧ s.Unambiguous following ∧ ¬ StartsWithElse following
  | ifElse _ _ s el t =>
    ¬ StartsWithSign (s.leaves ++ el :: (t.leaves ++ following)) ∧
      s.Unambiguous (el :: (t.leaves ++ following)) ∧ t.Unambiguous following
  | whileLoop _ _ s => ¬ StartsWithSign (s.leaves ++ following) ∧ s.Unambiguous following
  | forLoop _ _ _ _ _ _ s => ¬ StartsWithSign (s.leaves ++ following) ∧ s.Unambiguous following
  | expression _ => ¬ StartsWithSign following

def UnambiguousList (following : List Token) : List Stmt → Prop
  | [] => True
  | s :: ss =>
    s.Unambiguous (ss.flatMap leaves ++ following) ∧ UnambiguousList following ss

end

end Stmt

def Program.Grammatical (p : Program) : Prop :=
  p.statement.Grammatical ∧ p.endToken.kind = .endOfFile

/-- Whether the parts of a program can be told from what follows them; behind its statement there is
nothing to go on with. -/
def Program.Unambiguous (p : Program) : Prop := p.statement.Unambiguous []

theorem Expr.Grammatical.isSignificant {e : Expr} (he : e.Grammatical) :
    ∀ t ∈ e.leaves, t.isSignificant = true := by
  induction e with
  | literal t =>
    have hkinds : t.kind ∈ [TokenKind.number, .trueKeyword, .falseKeyword] := he
    refine List.forall_mem_singleton.mpr ?_
    rw [Token.isSignificant]
    revert hkinds
    cases t.kind <;> decide
  | name t =>
    have hkind : t.kind = .identifier := he
    exact List.forall_mem_singleton.mpr (by simp [Token.isSignificant, hkind])
  | unary op e ih =>
    obtain ⟨hop, -, hoperand⟩ := he
    refine List.forall_mem_cons.mpr ⟨?_, ih hoperand⟩
    rw [Token.isSignificant]
    revert hop
    cases op.kind <;> decide
  | binary l op r ihl ihr =>
    obtain ⟨p, hop, ⟨-, hleft⟩, -, hright⟩ := he
    refine List.forall_mem_append.mpr ⟨ihl hleft, List.forall_mem_cons.mpr ⟨?_, ihr hright⟩⟩
    rw [Token.isSignificant]
    revert hop
    cases op.kind <;> simp [TokenKind.binaryPrecedence?]
  | parenthesized o e c ih =>
    obtain ⟨ho, hinner, hc⟩ := he
    refine List.forall_mem_cons.mpr ⟨by simp [Token.isSignificant, ho], ?_⟩
    refine List.forall_mem_append.mpr ⟨ih hinner, List.forall_mem_singleton.mpr ?_⟩
    simp [Token.isSignificant, hc]
  | assignment x eq e ih =>
    obtain ⟨hx, heq, hsource⟩ := he
    refine List.forall_mem_cons.mpr ⟨by simp [Token.isSignificant, hx], ?_⟩
    exact List.forall_mem_cons.mpr ⟨by simp [Token.isSignificant, heq], ih hsource⟩

namespace Stmt

mutual

theorem Grammatical.isSignificant : ∀ {s : Stmt}, s.Grammatical →
    ∀ t ∈ s.leaves, t.isSignificant = true
  | block o body c, hs => by
    rw [Grammatical] at hs
    obtain ⟨ho, hbody, hc⟩ := hs
    rw [leaves, leavesOfList_eq_flatMap]
    refine List.forall_mem_cons.mpr ⟨by simp [Token.isSignificant, ho], ?_⟩
    refine List.forall_mem_append.mpr ⟨hbody.isSignificant, List.forall_mem_singleton.mpr ?_⟩
    simp [Token.isSignificant, hc]
  | declaration k x eq e, hs => by
    rw [Grammatical] at hs
    obtain ⟨hk, hx, heq, he⟩ := hs
    have hkeyword : k.isSignificant = true := by
      rw [Token.isSignificant]
      revert hk
      cases k.kind <;> decide
    refine List.forall_mem_cons.mpr ⟨hkeyword, ?_⟩
    refine List.forall_mem_cons.mpr ⟨by simp [Token.isSignificant, hx], ?_⟩
    exact List.forall_mem_cons.mpr ⟨by simp [Token.isSignificant, heq], he.isSignificant⟩
  | ifThen k e s, hs => by
    rw [Grammatical] at hs
    obtain ⟨hk, he, hthen⟩ := hs
    refine List.forall_mem_cons.mpr ⟨by simp [Token.isSignificant, hk], ?_⟩
    exact List.forall_mem_append.mpr ⟨he.isSignificant, hthen.isSignificant⟩
  | ifElse k e s el t, hs => by
    rw [Grammatical] at hs
    obtain ⟨hk, he, hthen, hel, helse⟩ := hs
    refine List.forall_mem_cons.mpr ⟨by simp [Token.isSignificant, hk], ?_⟩
    refine List.forall_mem_append.mpr
      ⟨List.forall_mem_append.mpr ⟨he.isSignificant, hthen.isSignificant⟩, ?_⟩
    exact List.forall_mem_cons.mpr ⟨by simp [Token.isSignificant, hel], helse.isSignificant⟩
  | whileLoop k e s, hs => by
    rw [Grammatical] at hs
    obtain ⟨hk, he, hbody⟩ := hs
    refine List.forall_mem_cons.mpr ⟨by simp [Token.isSignificant, hk], ?_⟩
    exact List.forall_mem_append.mpr ⟨he.isSignificant, hbody.isSignificant⟩
  | forLoop k x eq lo toKw hi s, hs => by
    rw [Grammatical] at hs
    obtain ⟨hk, hx, heq, hlo, hto, hhi, hbody⟩ := hs
    refine List.forall_mem_cons.mpr ⟨by simp [Token.isSignificant, hk], ?_⟩
    refine List.forall_mem_cons.mpr ⟨by simp [Token.isSignificant, hx], ?_⟩
    refine List.forall_mem_cons.mpr ⟨by simp [Token.isSignificant, heq], ?_⟩
    refine List.forall_mem_append.mpr ⟨hlo.isSignificant, ?_⟩
    refine List.forall_mem_cons.mpr ⟨by simp [Token.isSignificant, hto], ?_⟩
    exact List.forall_mem_append.mpr ⟨hhi.isSignificant, hbody.isSignificant⟩
  | expression e, hs => by
    rw [Grammatical] at hs
    rw [leaves]
    exact hs.isSignificant

theorem GrammaticalList.isSignificant : ∀ {ss : List Stmt}, GrammaticalList ss →
    ∀ t ∈ ss.flatMap leaves, t.isSignificant = true
  | [], _ => List.forall_mem_nil _
  | s :: ss, hss => by
    rw [GrammaticalList] at hss
    rw [List.flatMap_cons]
    exact List.forall_mem_append.mpr ⟨hss.1.isSignificant, hss.2.isSignificant⟩

end

end Stmt

end Lumen.Tree
