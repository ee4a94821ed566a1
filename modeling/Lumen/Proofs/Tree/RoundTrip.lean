import Lumen.Proofs.Tree.Grammar
import Lumen.Proofs.Tree.Reading

/-!
# Reading the leaves of a tree

The leaves of a grammatical tree are read as that tree, without complaint, whatever stands behind
them that does not go on with it. For expressions this is said for every level at which the reading
may start: the leaves of an expression are read up to the operators behind it, which the reading then
goes on with.
-/

namespace Lumen

theorem TokenKind.rank_binaryPrecedence? {k : TokenKind} {p : Precedence}
    (h : k.binaryPrecedence? = some p) : 0 < p.rank ∧ p.rank < Precedence.unary.rank := by
  cases k <;> cases h <;> decide

theorem TokenKind.ne_equals_of_binaryPrecedence? {k : TokenKind} {p : Precedence}
    (h : k.binaryPrecedence? = some p) : k ≠ .equals := by
  rintro rfl
  cases h

theorem Precedence.eq_unary_of_rank_le {p : Precedence}
    (h : Precedence.unary.rank ≤ p.rank) : p = .unary := by
  cases p <;> first | rfl | exact absurd h (by decide)

namespace Tree

variable {last : Token}

/-- Whether no operator that binds tighter than a level stands in front. -/
def StopsAt (level : Precedence) (rest : List Token) : Prop :=
  ∀ p, (next rest).binaryPrecedence? = some p → p.rank ≤ level.rank

/-- Whether what stands in front goes on with no expression. -/
def EndsExpr (rest : List Token) : Prop := StopsAt .lowest rest ∧ next rest ≠ .equals

theorem StopsAt.mono {p q : Precedence} {rest : List Token} (h : StopsAt p rest)
    (hpq : p.rank ≤ q.rank) : StopsAt q rest :=
  fun r hr => Nat.le_trans (h r hr) hpq

theorem stopsAt_unary (rest : List Token) : StopsAt .unary rest :=
  fun _ hp => Nat.le_of_lt (TokenKind.rank_binaryPrecedence? hp).2

theorem endsExpr_of_kind {rest : List Token} (hop : (next rest).binaryPrecedence? = none)
    (heq : next rest ≠ .equals) : EndsExpr rest :=
  ⟨fun _ hp => (nomatch hop.symm.trans hp), heq⟩

theorem StartsAssignment.kinds {t : Token} {ts : List Token} (h : StartsAssignment (t :: ts)) :
    t.kind = .identifier ∧ next ts = .equals := by
  cases ts with
  | nil => cases h
  | cons eq ts => exact h

namespace Expr

theorem level_binary {l r : Expr} {op : Token} {p : Precedence}
    (h : op.kind.binaryPrecedence? = some p) : (binary l op r).level = p := by
  rw [level, h, Option.getD_some]

/-- Whether reading at a level takes in the outermost operator of an expression. -/
def Fits (parent : Precedence) (e : Expr) : Prop :=
  parent.rank < e.level.rank ∨ e.level = .unary

/-- What is read from the leaves of an expression: at a level that takes it in, the expression, with
which the operators behind it are read on, and otherwise the expression alone. -/
structure Readable (last : Token) (e : Expr) : Prop where
  readsBinary {parent : Precedence} {rest rest' : List Token} {e' : Expr} {f : List Diagnostic} :
    e.Fits parent → StopsAt e.level rest → ReadsOperators last parent e rest e' rest' f →
      ReadsBinary last parent (e.leaves ++ rest) e' rest' f
  readsExpr {rest : List Token} : EndsExpr rest → ReadsExpr last (e.leaves ++ rest) e rest []

theorem not_startsAssignment {e : Expr} {rest : List Token} (he : e.Grammatical)
    (hlevel : 0 < e.level.rank) (hrest : next rest ≠ .equals) :
    ¬ StartsAssignment (e.leaves ++ rest) := by
  intro h
  induction e generalizing rest with
  | literal t =>
    have hkind : t.kind ∈ [TokenKind.number, .trueKeyword, .falseKeyword] := he
    rw [h.kinds.1] at hkind
    exact absurd hkind (by decide)
  | name t => exact hrest h.kinds.2
  | unary op e _ =>
    have hkind : op.kind.isUnaryOperator = true := he.1
    rw [h.kinds.1] at hkind
    cases hkind
  | binary l op r ihl _ =>
    obtain ⟨p, hop, ⟨hl, hleft⟩, -, -⟩ := he
    have hpos := (TokenKind.rank_binaryPrecedence? hop).1
    have heq : next (op :: (r.leaves ++ rest)) ≠ .equals :=
      TokenKind.ne_equals_of_binaryPrecedence? hop
    rw [leaves, List.append_assoc] at h
    exact ihl hleft (Nat.lt_of_lt_of_le hpos hl) heq h
  | parenthesized o e c _ =>
    have hkind : o.kind = .openParen := he.1
    cases hkind.symm.trans h.kinds.1
  | assignment x eq e _ => exact absurd hlevel (Nat.lt_irrefl _)

/-- An expression other than an assignment need only be read among operators. -/
theorem Readable.of_readsBinary {e : Expr} (he : e.Grammatical) (hlevel : 0 < e.level.rank)
    (h : ∀ {parent : Precedence} {rest rest' : List Token} {e' : Expr} {f : List Diagnostic},
      e.Fits parent → StopsAt e.level rest → ReadsOperators last parent e rest e' rest' f →
        ReadsBinary last parent (e.leaves ++ rest) e' rest' f) : e.Readable last where
  readsBinary := h
  readsExpr := fun ⟨hstops, heq⟩ =>
    .binary (not_startsAssignment he hlevel heq)
      (h (.inl hlevel) (hstops.mono (Nat.zero_le _)) (.stop hstops))

theorem Readable.of_readsPrimary {e : Expr} (he : e.Grammatical) (hlevel : e.level = .unary)
    (hstart : ∀ rest, (next (e.leaves ++ rest)).isUnaryOperator = false)
    (h : ∀ rest, ReadsPrimary last (e.leaves ++ rest) e rest []) : e.Readable last :=
  .of_readsBinary he (by rw [hlevel]; decide) fun _ _ hall => .primary (hstart _) (h _) hall

theorem Grammatical.readable {e : Expr} (he : e.Grammatical) : e.Readable last := by
  induction e with
  | literal t =>
    have hkinds : t.kind ∈ [TokenKind.number, .trueKeyword, .falseKeyword] := he
    refine .of_readsPrimary he rfl (fun rest => ?_) fun rest => ?_
    · change t.kind.isUnaryOperator = false
      revert hkinds
      cases t.kind <;> decide
    · simp only [List.mem_cons, List.not_mem_nil, or_false] at hkinds
      rcases hkinds with hnumber | htruth
      · refine .number ?_ (.found hnumber)
        change t.kind ∉ primaryKinds
        rw [hnumber]
        decide
      · exact .truth htruth
  | name t =>
    have hkind : t.kind = .identifier := he
    refine .of_readsPrimary he rfl (fun rest => ?_) fun rest => .name hkind
    change t.kind.isUnaryOperator = false
    rw [hkind]
    rfl
  | unary op e ih =>
    obtain ⟨hop, hlevel, hgrammatical⟩ := he
    have htight := Precedence.eq_unary_of_rank_le hlevel
    refine .of_readsBinary ⟨hop, hlevel, hgrammatical⟩ (Nat.zero_lt_succ _)
      fun {_ rest _ _ _} _ _ hall => ?_
    -- no operator binds tighter than the unary one, so its operand ends where its leaves do
    have hoperand : ReadsBinary last .unary (e.leaves ++ rest) e rest [] :=
      (ih hgrammatical).readsBinary (.inr htight) (htight ▸ stopsAt_unary rest)
        (.stop (stopsAt_unary rest))
    exact .unary hop hoperand hall
  | binary l op r ihl ihr =>
    obtain ⟨p, hop, ⟨hl, hleft⟩, hr, hright⟩ := he
    obtain ⟨hpos, htight⟩ := TokenKind.rank_binaryPrecedence? hop
    have hlevel := level_binary (l := l) (r := r) hop
    refine .of_readsBinary ⟨p, hop, ⟨hl, hleft⟩, hr, hright⟩ (hlevel ▸ hpos)
      fun {parent rest _ _ _} hfits hstops hall => ?_
    rw [hlevel] at hstops
    have hparent : parent.rank < p.rank := by
      rcases hfits with hlt | htop
      · rwa [hlevel] at hlt
      · rw [← hlevel, htop] at htight
        exact absurd htight (Nat.lt_irrefl _)
    have hoperand : ReadsBinary last p (r.leaves ++ rest) r rest [] :=
      (ihr hright).readsBinary (.inl hr) (hstops.mono (Nat.le_of_lt hr)) (.stop hstops)
    have hbehind : StopsAt l.level (op :: (r.leaves ++ rest)) := by
      intro q hq
      cases hop.symm.trans hq
      exact hl
    rw [leaves, List.append_assoc]
    exact (ihl hleft).readsBinary (.inl (Nat.lt_of_lt_of_le hparent hl)) hbehind
      (.step hop hparent hoperand hall)
  | parenthesized o e c ih =>
    obtain ⟨ho, hinner, hc⟩ := he
    refine .of_readsPrimary ⟨ho, hinner, hc⟩ rfl (fun rest => ?_) fun rest => ?_
    · change o.kind.isUnaryOperator = false
      rw [ho]
      rfl
    · have hends : EndsExpr (c :: rest) := by
        refine endsExpr_of_kind ?_ ?_ <;> rw [next_cons, hc]
        · rfl
        · decide
      rw [leaves, List.cons_append, List.append_assoc]
      exact .parenthesized ho ((ih hinner).readsExpr hends) (.found hc)
  | assignment x eq e ih =>
    obtain ⟨hx, heq, hsource⟩ := he
    refine ⟨fun hfits _ _ => ?_, fun hends => .assignment hx heq ((ih hsource).readsExpr hends)⟩
    rcases hfits with hlt | htop
    · exact absurd hlt (Nat.not_lt_zero _)
    · cases htop

end Expr

def exprKinds : List TokenKind :=
  [.number, .trueKeyword, .falseKeyword, .identifier, .openParen, .plus, .minus, .exclamation,
    .tilde]

def followingKinds : List TokenKind :=
  [.endOfFile, .closeBrace, .elseKeyword] ++ statementKinds ++ exprKinds

theorem Expr.Grammatical.next_mem {e : Expr} (he : e.Grammatical) (rest : List Token) :
    next (e.leaves ++ rest) ∈ exprKinds := by
  induction e generalizing rest with
  | literal t =>
    have hkinds : t.kind ∈ [TokenKind.number, .trueKeyword, .falseKeyword] := he
    change t.kind ∈ exprKinds
    revert hkinds
    cases t.kind <;> decide
  | name t =>
    have hkind : t.kind = .identifier := he
    change t.kind ∈ exprKinds
    rw [hkind]
    decide
  | unary op e _ =>
    have hkind : op.kind.isUnaryOperator = true := he.1
    change op.kind ∈ exprKinds
    revert hkind
    cases op.kind <;> decide
  | binary l op r ihl _ =>
    obtain ⟨-, -, ⟨-, hleft⟩, -⟩ := he
    rw [leaves, List.append_assoc]
    exact ihl hleft _
  | parenthesized o e c _ =>
    change o.kind ∈ exprKinds
    rw [he.1]
    decide
  | assignment x eq e _ =>
    change x.kind ∈ exprKinds
    rw [he.1]
    decide

theorem exprKinds_disjoint : ∀ k ∈ exprKinds, k ∉ statementKinds := by decide

theorem Stmt.Grammatical.next_mem {s : Stmt} (hs : s.Grammatical) (rest : List Token) :
    next (s.leaves ++ rest) ∈ statementKinds ++ exprKinds := by
  cases s with
  | block o body c =>
    rw [Stmt.Grammatical] at hs
    simp [leaves, hs.1, statementKinds]
  | declaration k x eq e =>
    rw [Stmt.Grammatical] at hs
    obtain ⟨hk, -⟩ := hs
    rw [leaves, List.cons_append, next_cons]
    revert hk
    cases k.kind <;> decide
  | ifThen k e s =>
    rw [Stmt.Grammatical] at hs
    simp [leaves, hs.1, statementKinds]
  | ifElse k e s el t =>
    rw [Stmt.Grammatical] at hs
    simp [leaves, hs.1, statementKinds]
  | whileLoop k e s =>
    rw [Stmt.Grammatical] at hs
    simp [leaves, hs.1, statementKinds]
  | forLoop k x eq lo toKw hi s =>
    rw [Stmt.Grammatical] at hs
    simp [leaves, hs.1, statementKinds]
  | expression e =>
    rw [Stmt.Grammatical] at hs
    rw [leaves]
    exact List.mem_append_right _ (hs.next_mem rest)

/-- What stands behind a statement ends the expression before it, unless it is a sign. -/
theorem endsExpr_of_mem {rest : List Token} (h : next rest ∈ followingKinds)
    (hsign : ¬ StartsWithSign rest) : EndsExpr rest := by
  have hkinds : ∀ k ∈ followingKinds, k ≠ .plus → k ≠ .minus →
      k.binaryPrecedence? = none ∧ k ≠ .equals := by decide
  have hplus : next rest ≠ .plus ∧ next rest ≠ .minus := by
    cases rest with
    | nil => exact ⟨nofun, nofun⟩
    | cons t ts => exact not_or.mp hsign
  obtain ⟨hop, heq⟩ := hkinds _ h hplus.1 hplus.2
  exact endsExpr_of_kind hop heq

theorem next_ne_elseKeyword {rest : List Token} (h : ¬ StartsWithElse rest) :
    next rest ≠ .elseKeyword := by
  cases rest with
  | nil => exact nofun
  | cons t ts => exact h

theorem mem_followingKinds {k : TokenKind} (h : k ∈ statementKinds ++ exprKinds) :
    k ∈ followingKinds := by
  rw [followingKinds, List.append_assoc]
  exact List.mem_append_right _ h

namespace Stmt

theorem next_body_mem {ss : List Stmt} {c : Token} {rest : List Token}
    (hss : GrammaticalList ss) (hc : c.kind = .closeBrace) :
    next (ss.flatMap leaves ++ c :: rest) ∈ followingKinds := by
  cases ss with
  | nil =>
    change c.kind ∈ followingKinds
    rw [hc]
    decide
  | cons s ss =>
    rw [GrammaticalList] at hss
    rw [List.flatMap_cons, List.append_assoc]
    exact mem_followingKinds (hss.1.next_mem _)

mutual

/-- The leaves of a grammatical statement are read as that statement, if what stands behind them goes
on with no part of it. -/
theorem Grammatical.readsStmt : ∀ {s : Stmt} {following : List Token}, s.Grammatical →
    s.Unambiguous following → next following ∈ followingKinds →
      ReadsStmt last (s.leaves ++ following) s following [] []
  | block o body c, following, hs, hu, _ => by
    rw [Grammatical] at hs
    rw [Unambiguous] at hu
    obtain ⟨ho, hbody, hc⟩ := hs
    rw [leaves, leavesOfList_eq_flatMap, List.cons_append, List.append_assoc]
    exact .block ho (hbody.readsStmts hc hu) (.found hc)
  | declaration k x eq e, following, hs, hu, hnext => by
    rw [Grammatical] at hs
    rw [Unambiguous] at hu
    obtain ⟨hk, hx, heq, he⟩ := hs
    have hkind : k.kind = .varKeyword ∨ k.kind = .letKeyword := by simpa using hk
    exact .declaration hkind (.found hx) (.found heq)
      (he.readable.readsExpr (endsExpr_of_mem hnext hu))
  | ifThen k e s, following, hs, hu, hnext => by
    rw [Grammatical] at hs
    rw [Unambiguous] at hu
    obtain ⟨hk, he, hthen⟩ := hs
    obtain ⟨hsign, hu, helse⟩ := hu
    have hends := endsExpr_of_mem (mem_followingKinds (hthen.next_mem following)) hsign
    rw [leaves, List.cons_append, List.append_assoc]
    exact .ifThen hk (he.readable.readsExpr hends) (hthen.readsStmt hu hnext)
      (next_ne_elseKeyword helse)
  | ifElse k e s el t, following, hs, hu, hnext => by
    rw [Grammatical] at hs
    rw [Unambiguous] at hu
    obtain ⟨hk, he, hthen, hel, helse⟩ := hs
    obtain ⟨hsign, hu, hu'⟩ := hu
    have hends := endsExpr_of_mem (mem_followingKinds (hthen.next_mem _)) hsign
    have hbehind : next (el :: (t.leaves ++ following)) ∈ followingKinds := by
      rw [next_cons, hel]
      decide
    rw [leaves, List.cons_append, List.append_assoc, List.append_assoc, List.cons_append]
    exact .ifElse hk (he.readable.readsExpr hends) (hthen.readsStmt hu hbehind) hel
      (helse.readsStmt hu' hnext)
  | whileLoop k e s, following, hs, hu, hnext => by
    rw [Grammatical] at hs
    rw [Unambiguous] at hu
    obtain ⟨hk, he, hbody⟩ := hs
    obtain ⟨hsign, hu⟩ := hu
    have hends := endsExpr_of_mem (mem_followingKinds (hbody.next_mem following)) hsign
    rw [leaves, List.cons_append, List.append_assoc]
    exact .whileLoop hk (he.readable.readsExpr hends) (hbody.readsStmt hu hnext)
  | forLoop k x eq lo toKw hi s, following, hs, hu, hnext => by
    rw [Grammatical] at hs
    rw [Unambiguous] at hu
    obtain ⟨hk, hx, heq, hlo, hto, hhi, hbody⟩ := hs
    obtain ⟨hsign, hu⟩ := hu
    have hends := endsExpr_of_mem (mem_followingKinds (hbody.next_mem following)) hsign
    have hendsTo : EndsExpr (toKw :: (hi.leaves ++ (s.leaves ++ following))) := by
      refine endsExpr_of_kind ?_ ?_ <;> rw [next_cons, hto]
      · rfl
      · decide
    simp only [leaves, List.cons_append, List.append_assoc]
    exact .forLoop hk (.found hx) (.found heq) (hlo.readable.readsExpr hendsTo) (.found hto)
      (hhi.readable.readsExpr hends) (hbody.readsStmt hu hnext)
  | expression e, following, hs, hu, hnext => by
    rw [Grammatical] at hs
    rw [Unambiguous] at hu
    rw [leaves]
    exact .expression (exprKinds_disjoint _ (hs.next_mem following))
      (hs.readable.readsExpr (endsExpr_of_mem hnext hu))

theorem GrammaticalList.readsStmts : ∀ {ss : List Stmt} {c : Token} {rest : List Token},
    GrammaticalList ss → c.kind = .closeBrace → UnambiguousList (c :: rest) ss →
      ReadsStmts last (ss.flatMap leaves ++ c :: rest) ss (c :: rest) [] []
  | [], c, rest, _, hc, _ => .done (.inr hc)
  | s :: ss, c, rest, hss, hc, hu => by
    rw [GrammaticalList] at hss
    rw [UnambiguousList] at hu
    obtain ⟨hs, hss⟩ := hss
    obtain ⟨hu, hu'⟩ := hu
    have hread := hs.readsStmt hu (next_body_mem hss hc)
    have hstart := hs.next_mem (ss.flatMap leaves ++ c :: rest)
    rw [List.flatMap_cons, List.append_assoc]
    obtain ⟨t, ts, hleaves⟩ := List.exists_cons_of_ne_nil (leaves_ne_nil s)
    rw [hleaves, List.cons_append] at hread hstart
    rw [hleaves, List.cons_append]
    have hkind : t.kind ≠ .closeBrace := by
      intro h
      rw [next_cons, h] at hstart
      exact absurd hstart (by decide)
    refine .used hkind hread ?_ (hss.readsStmts hc hu')
    simp only [List.length_append, List.length_cons]
    omega

end

end Stmt

end Tree

end Lumen
