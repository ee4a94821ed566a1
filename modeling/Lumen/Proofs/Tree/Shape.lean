import Lumen.Proofs.Tree.Accounting
import Lumen.Proofs.Tree.Parts
import Lumen.Proofs.Tree.RoundTrip

/-!
# The shape of a tree

Every expression that is read has the operators, names and signs of its tokens, and operands that
bind as tight as the operators ask for, whatever was made up in it. The operand that grows while
operators are read binds at least as tight as the next one; that carries the induction. Reading goes
on as long as it can, so no operator stands behind a whole expression, and no else behind an if
without one.
-/

namespace Lumen.Tree

variable {last : Token} {all ts rest : List Token} {parent : Precedence} {left e : Expr}
  {f : List Diagnostic}

section

theorem next_binaryPrecedence?_of_stopsAt (h : StopsAt .lowest rest) :
    (next rest).binaryPrecedence? = none := by
  cases hp : (next rest).binaryPrecedence? with
  | none => rfl
  | some p =>
    have hpos := (TokenKind.rank_binaryPrecedence? hp).1
    exact absurd (h p hp) (Nat.not_le_of_lt hpos)

theorem startsAssignment_of_kinds {t : Token} (ht : t.kind = .identifier)
    (hnext : next rest = .equals) : StartsAssignment (t :: rest) := by
  cases rest with
  | nil => cases hnext
  | cons eq behind => exact ⟨ht, hnext⟩

theorem Expr.Fits.level_eq (h : e.Fits .unary) : e.level = .unary :=
  h.elim (fun hlt => Precedence.eq_unary_of_rank_le (Nat.le_of_lt hlt)) id

theorem Expr.Fits.rank_lt {k : TokenKind} (hop : k.binaryPrecedence? = some parent)
    (h : e.Fits parent) : parent.rank < e.level.rank := by
  rcases h with hlt | htop
  · exact hlt
  · rw [htop]
    exact (TokenKind.rank_binaryPrecedence? hop).2

theorem ReadsPrimary.level_eq (h : ReadsPrimary last ts e rest f) : e.level = .unary := by
  cases h <;> rfl

/-- What is read at a level binds tighter, and what stands behind it does not. -/
theorem ReadsOperators.fits : ∀ {left e : Expr} {ts rest : List Token} {f : List Diagnostic},
    ReadsOperators last parent left ts e rest f → left.Fits parent →
      e.Fits parent ∧ StopsAt parent rest
  | _, _, _, _, _, .stop hstop, hleft => ⟨hleft, hstop⟩
  | _, _, _, _, _, .step hop hlt _ hoperators, _ =>
    hoperators.fits (.inl (by rwa [Expr.level_binary hop]))

theorem ReadsBinary.fits (h : ReadsBinary last parent ts e rest f) :
    e.Fits parent ∧ StopsAt parent rest := by
  cases h with
  | unary _ _ hoperators => exact hoperators.fits (.inr rfl)
  | primary _ hleft hoperators => exact hoperators.fits (.inr hleft.level_eq)

/-- Whether an expression has the operators, names and signs of given tokens, and its operands bind
as tight as its operators ask for. -/
def Expr.Formed (all : List Token) : Expr → Prop
  | literal _ => True
  | name t => t ∈ all ∧ t.kind = .identifier
  | unary op e => (op ∈ all ∧ op.kind.isUnaryOperator = true) ∧ e.level = .unary ∧ e.Formed all
  | binary l op r => op ∈ all ∧ ∃ p, op.kind.binaryPrecedence? = some p ∧
    (p.rank ≤ l.level.rank ∧ l.Formed all) ∧ p.rank < r.level.rank ∧ r.Formed all
  | parenthesized _ e _ => e.Formed all
  | assignment x eq e =>
    (x ∈ all ∧ x.kind = .identifier) ∧ (eq ∈ all ∧ eq.kind = .equals) ∧ e.Formed all

theorem Expr.Formed.parts : ∀ {e : Expr}, e.Formed all → ∀ a ∈ e.parts, a.Formed all
  | literal _, h => List.forall_mem_singleton.mpr h
  | name _, h => List.forall_mem_singleton.mpr h
  | unary _ _, h => List.forall_mem_cons.mpr ⟨h, Formed.parts h.2.2⟩
  | binary _ _ _, h => by
    obtain ⟨-, p, -, ⟨-, hleft⟩, -, hright⟩ := id h
    refine List.forall_mem_cons.mpr ⟨h, ?_⟩
    exact List.forall_mem_append.mpr ⟨Formed.parts hleft, Formed.parts hright⟩
  | parenthesized _ e _, h => List.forall_mem_cons.mpr ⟨h, Formed.parts (e := e) h⟩
  | assignment _ _ _, h => List.forall_mem_cons.mpr ⟨h, Formed.parts h.2.2⟩

mutual

theorem ReadsExpr.formed {ts rest : List Token} {e : Expr} {f : List Diagnostic}
    (hall : Stream last all) : ReadsExpr last ts e rest f → ts <:+ all → e.Formed all
  | .assignment hx heq h, hts => by
    have hbehind := suffix_of_cons hts
    exact ⟨⟨hts.subset List.mem_cons_self, hx⟩, ⟨hbehind.subset List.mem_cons_self, heq⟩,
      h.formed hall (suffix_of_cons hbehind)⟩
  | .binary _ h, hts => h.formed hall hts

theorem ReadsBinary.formed {parent : Precedence} {ts rest : List Token} {e : Expr}
    {f : List Diagnostic} (hall : Stream last all) :
    ReadsBinary last parent ts e rest f → ts <:+ all → e.Formed all
  | .unary hop h hoperators, hts => by
    have hbehind := suffix_of_cons hts
    have hleft : (Expr.unary _ _).Formed all := ⟨⟨hts.subset List.mem_cons_self, hop⟩,
      h.fits.1.level_eq, h.formed hall hbehind⟩
    exact hoperators.formed hall (h.suffix hall hbehind) hleft (stopsAt_unary _)
  | .primary _ h hoperators, hts => by
    refine hoperators.formed hall (h.suffix hall hts) (h.formed hall hts) ?_
    rw [h.level_eq]
    exact stopsAt_unary _

/-- The expression to the left binds at least as tight as the operator behind it. -/
theorem ReadsOperators.formed {parent : Precedence} {ts rest : List Token} {left e : Expr}
    {f : List Diagnostic} (hall : Stream last all) :
    ReadsOperators last parent left ts e rest f → ts <:+ all → left.Formed all →
      StopsAt left.level ts → e.Formed all
  | .stop _, _, hleft, _ => hleft
  | .step hop _ h hoperators, hts, hleft, hstops => by
    have hbehind := suffix_of_cons hts
    obtain ⟨hfits, hmid⟩ := h.fits
    have hgrown : (Expr.binary _ _ _).Formed all := ⟨hts.subset List.mem_cons_self, _, hop,
      ⟨hstops _ hop, hleft⟩, hfits.rank_lt hop, h.formed hall hbehind⟩
    refine hoperators.formed hall (h.suffix hall hbehind) hgrown ?_
    rwa [Expr.level_binary hop]

theorem ReadsPrimary.formed {ts rest : List Token} {e : Expr} {f : List Diagnostic}
    (hall : Stream last all) : ReadsPrimary last ts e rest f → ts <:+ all → e.Formed all
  | .parenthesized _ h _, hts => by
    have hinner := h.formed hall (suffix_of_cons hts)
    exact hinner
  | .truth _, _ => trivial
  | .name hx, hts => ⟨hts.subset List.mem_cons_self, hx⟩
  | .number _ _, _ => trivial

end

theorem ReadsExpr.stopsAt : ∀ {ts rest : List Token} {e : Expr} {f : List Diagnostic},
    ReadsExpr last ts e rest f → StopsAt .lowest rest
  | _, _, _, _, .assignment _ _ h => h.stopsAt
  | _, _, _, _, .binary _ h => h.fits.2

theorem ReadsOperators.eq_of_name {t : Token} : ∀ {left e : Expr} {ts rest : List Token}
    {f : List Diagnostic}, ReadsOperators last parent left ts e rest f → e = .name t →
      left = .name t ∧ ts = rest
  | _, _, _, _, _, .stop _, he => ⟨he, rfl⟩
  | _, _, _, _, _, .step _ _ _ hoperators, he => nomatch (hoperators.eq_of_name he).1

/-- A name that is a whole expression is no target of an assignment. -/
theorem ReadsExpr.next_ne_equals {t : Token} (h : ReadsExpr last ts (.name t) rest f) :
    next rest ≠ .equals := by
  cases h with
  | binary hstart h =>
    cases h with
    | unary _ _ hoperators => cases (hoperators.eq_of_name rfl).1
    | primary _ hleft hoperators =>
      obtain ⟨rfl, rfl⟩ := hoperators.eq_of_name rfl
      cases hleft with
      | name hx => exact mt (startsAssignment_of_kinds hx) hstart

end

/-- Whether the operands of an operator are no assignments and bind as tight as it asks for; that of
a unary one is a unary or primary expression. -/
def Expr.Shaped : Expr → Prop
  | unary _ e => e.kind ∈ [.unary, .literal, .name, .parenthesized]
  | binary l op r => l.kind ≠ .assignment ∧ r.kind ≠ .assignment ∧
    ∃ p, op.kind.binaryPrecedence? = some p ∧ p.rank ≤ l.level.rank ∧ p.rank < r.level.rank
  | _ => True

namespace Expr

theorem kind_ne_assignment_of_lt_level (h : 0 < e.level.rank) : e.kind ≠ .assignment := by
  rintro hkind
  cases e with
  | assignment => exact absurd h (Nat.lt_irrefl _)
  | literal | name | unary | binary | parenthesized => cases hkind

theorem Formed.shaped (h : e.Formed all) : e.Shaped := by
  cases e with
  | unary op e =>
    obtain ⟨-, hlevel, hformed⟩ := h
    cases e with
    | binary l op r =>
      obtain ⟨-, p, hop, -⟩ := hformed
      rw [level_binary hop] at hlevel
      have htight := (TokenKind.rank_binaryPrecedence? hop).2
      rw [hlevel] at htight
      exact absurd htight (Nat.lt_irrefl _)
    | assignment => cases hlevel
    | literal | name | unary | parenthesized => simp [Shaped, kind]
  | binary l op r =>
    obtain ⟨-, p, hop, ⟨hl, -⟩, hr, -⟩ := h
    have hpos := (TokenKind.rank_binaryPrecedence? hop).1
    exact ⟨kind_ne_assignment_of_lt_level (Nat.lt_of_lt_of_le hpos hl),
      kind_ne_assignment_of_lt_level (Nat.lt_trans hpos hr), p, hop, hl, hr⟩
  | literal | name | parenthesized | assignment => trivial

/-- Where operands are no assignments, all assignments are whole expressions. -/
theorem filter_parts : ∀ {e : Expr}, (∀ a ∈ e.parts, a.Shaped) →
    e.parts.filter (·.kind = .assignment) = e.wholes.filter (·.kind = .assignment)
  | literal _, _ => rfl
  | name _, _ => rfl
  | unary op e, h => by
    obtain ⟨hshaped, hparts⟩ := List.forall_mem_cons.mp h
    have hkind : e.kind ≠ .assignment := fun hkind => by simp [Shaped, hkind] at hshaped
    have ih := filter_parts hparts
    rw [wholes, List.filter_cons_of_neg (by simpa using hkind)] at ih
    rw [parts, wholes, enclosed, List.filter_cons_of_neg (by simp [kind]),
      List.filter_cons_of_neg (by simp [kind]), ih]
  | binary l op r, h => by
    obtain ⟨⟨hl, hr, -⟩, hparts⟩ := List.forall_mem_cons.mp h
    obtain ⟨hleft, hright⟩ := List.forall_mem_append.mp hparts
    have ihl := filter_parts hleft
    have ihr := filter_parts hright
    rw [wholes, List.filter_cons_of_neg (by simpa using hl)] at ihl
    rw [wholes, List.filter_cons_of_neg (by simpa using hr)] at ihr
    rw [parts, wholes, enclosed, List.filter_cons_of_neg (by simp [kind]),
      List.filter_cons_of_neg (by simp [kind]), List.filter_append, List.filter_append, ihl, ihr]
  | parenthesized o e c, h => by
    have ih := filter_parts (List.forall_mem_cons.mp h).2
    rw [parts, wholes, enclosed, List.filter_cons_of_neg (by simp [kind]),
      List.filter_cons_of_neg (by simp [kind]), ih, wholes]
  | assignment x eq e, h => by
    have ih := filter_parts (List.forall_mem_cons.mp h).2
    rw [parts, wholes, enclosed, List.filter_cons_of_pos (by simp [kind]),
      List.filter_cons_of_pos (by simp [kind]), ih, wholes]

end Expr

end Lumen.Tree
