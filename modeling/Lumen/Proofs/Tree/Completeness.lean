import Lumen.Proofs.Tree.Reading

/-!
# Every reading is that of the parser

The rules of reading leave no choice: the kinds of the next tokens tell which rule applies. So a
phrase is read from given tokens in one way only, which is the one that the parser takes.
-/

namespace Lumen.Tree.Parsed

variable {last : Token}

theorem token_of_reads {kind : TokenKind} {ts rest : List Token} {t : Token}
    {f : List Diagnostic} (h : ReadsToken last kind ts t rest f) :
    (token last kind ts).phrase = t ∧ (token last kind ts).rest = rest ∧
      (token last kind ts).faults = f := by
  cases h with
  | found hkind =>
    rw [token, if_pos hkind]
    exact ⟨rfl, rfl, rfl⟩
  | missing hnext =>
    cases ts with
    | nil => exact ⟨rfl, rfl, rfl⟩
    | cons t ts =>
      rw [next_cons] at hnext
      rw [token, if_neg hnext]
      exact ⟨rfl, rfl, rfl⟩

/-- No assignment starts here, so the operators of the lowest level are read. -/
theorem expr_of_not_startsAssignment {ts : List Token} (h : ¬ StartsAssignment ts) :
    expr last ts = binary last .lowest ts := by
  match ts, h with
  | [], _ => exact expr.eq_2 last [] fun _ _ _ hts => by cases hts
  | [t], _ => exact expr.eq_2 last [t] fun _ _ _ hts => by cases hts
  | x :: eq :: ts, h =>
    rw [StartsAssignment] at h
    rw [expr, if_neg h]

theorem binary_of_primary {parent : Precedence} {ts : List Token}
    (h : (next ts).isUnaryOperator = false) :
    let left := primary last ts
    let all := operators last parent left.phrase left.rest
    (binary last parent ts).phrase = all.phrase ∧ (binary last parent ts).rest = all.rest ∧
      (binary last parent ts).faults = left.faults ++ all.faults := by
  cases ts with
  | nil =>
    rw [binary]
    exact ⟨rfl, rfl, rfl⟩
  | cons t ts =>
    rw [next_cons, Bool.eq_false_iff] at h
    rw [binary, if_neg h]
    exact ⟨rfl, rfl, rfl⟩

theorem operators_of_stop {parent : Precedence} {left : Expr} {ts : List Token}
    (h : ∀ p, (next ts).binaryPrecedence? = some p → p.rank ≤ parent.rank) :
    (operators last parent left ts).phrase = left ∧ (operators last parent left ts).rest = ts ∧
      (operators last parent left ts).faults = [] := by
  cases ts with
  | nil =>
    rw [operators]
    exact ⟨rfl, rfl, rfl⟩
  | cons t ts =>
    rw [operators]
    split
    · exact ⟨rfl, rfl, rfl⟩
    · next p hp =>
      rw [if_neg (Nat.not_lt.mpr (h p hp))]
      exact ⟨rfl, rfl, rfl⟩

mutual

theorem expr_of_reads {ts rest : List Token} {e : Expr} {f : List Diagnostic} :
    ReadsExpr last ts e rest f →
      (expr last ts).phrase = e ∧ (expr last ts).rest = rest ∧ (expr last ts).faults = f
  | .assignment hx heq h => by
    obtain ⟨rfl, rfl, rfl⟩ := expr_of_reads h
    rw [expr, if_pos ⟨hx, heq⟩]
    exact ⟨rfl, rfl, rfl⟩
  | .binary hstart h => by
    rw [expr_of_not_startsAssignment hstart]
    exact binary_of_reads h

theorem binary_of_reads {parent : Precedence} {ts rest : List Token} {e : Expr}
    {f : List Diagnostic} : ReadsBinary last parent ts e rest f →
      (binary last parent ts).phrase = e ∧ (binary last parent ts).rest = rest ∧
        (binary last parent ts).faults = f
  | .unary hop h hall => by
    have hoperand := binary_of_reads h
    have hmore := operators_of_reads hall
    obtain ⟨rfl, rfl, rfl⟩ := hoperand
    obtain ⟨rfl, rfl, rfl⟩ := hmore
    rw [binary, if_pos hop]
    exact ⟨rfl, rfl, rfl⟩
  | .primary hnext h hall => by
    have hleft := primary_of_reads h
    have hmore := operators_of_reads hall
    obtain ⟨rfl, rfl, rfl⟩ := hleft
    obtain ⟨rfl, rfl, rfl⟩ := hmore
    exact binary_of_primary hnext

theorem operators_of_reads {parent : Precedence} {left e : Expr} {ts rest : List Token}
    {f : List Diagnostic} : ReadsOperators last parent left ts e rest f →
      (operators last parent left ts).phrase = e ∧ (operators last parent left ts).rest = rest ∧
        (operators last parent left ts).faults = f
  | .stop hstop => operators_of_stop hstop
  | .step hop hlt h hall => by
    have hright := binary_of_reads h
    have hmore := operators_of_reads hall
    obtain ⟨rfl, rfl, rfl⟩ := hright
    obtain ⟨rfl, rfl, rfl⟩ := hmore
    rw [operators]
    simp only [hop, if_pos hlt, and_self]

theorem primary_of_reads {ts rest : List Token} {e : Expr} {f : List Diagnostic} :
    ReadsPrimary last ts e rest f →
      (primary last ts).phrase = e ∧ (primary last ts).rest = rest ∧ (primary last ts).faults = f
  | .parenthesized ho h hc => by
    obtain ⟨rfl, rfl, rfl⟩ := expr_of_reads h
    obtain ⟨rfl, rfl, rfl⟩ := token_of_reads hc
    rw [primary]
    simp only [ho, and_self]
  | .truth ht => by
    rw [primary]
    rcases ht with ht | ht <;> simp only [ht, and_self]
  | .name hx => by
    rw [primary]
    simp only [hx, and_self]
  | .number hnext h => by
    obtain ⟨rfl, rfl, rfl⟩ := token_of_reads h
    cases ts with
    | nil =>
      rw [primary]
      exact ⟨rfl, rfl, rfl⟩
    | cons t ts =>
      rw [primary]
      split
      · next ho => simp [ho, primaryKinds] at hnext
      · next ht => simp [ht, primaryKinds] at hnext
      · next ht => simp [ht, primaryKinds] at hnext
      · next hx => simp [hx, primaryKinds] at hnext
      · exact ⟨rfl, rfl, rfl⟩

end

theorem declaration_of_reads {k x eq : Token} {ts ts₁ ts₂ rest : List Token} {e : Expr}
    {f g h : List Diagnostic} (hx : ReadsToken last .identifier ts x ts₁ f)
    (heq : ReadsToken last .equals ts₁ eq ts₂ g) (he : ReadsExpr last ts₂ e rest h) :
    (declaration last k ts).phrase = .declaration k x eq e ∧ (declaration last k ts).rest = rest ∧
      (declaration last k ts).faults = f ++ g ++ h := by
  obtain ⟨rfl, rfl, rfl⟩ := token_of_reads hx
  obtain ⟨rfl, rfl, rfl⟩ := token_of_reads heq
  obtain ⟨rfl, rfl, rfl⟩ := expr_of_reads he
  exact ⟨rfl, rfl, rfl⟩

theorem token?_of_next_ne {kind : TokenKind} {ts : List Token} (h : next ts ≠ kind) :
    token? kind ts = none := by
  cases ts with
  | nil => rfl
  | cons t ts => exact if_neg h

theorem token?_of_kind {kind : TokenKind} {t : Token} {ts rest : List Token}
    (hts : ts = t :: rest) (h : t.kind = kind) :
    ∃ p : Parsed Token ts.length, token? kind ts = some p ∧ p.phrase = t ∧ p.rest = rest := by
  subst hts
  exact ⟨_, if_pos h, rfl, rfl⟩

mutual

theorem stmt_of_reads {ts rest dropped : List Token} {s : Stmt} {f : List Diagnostic} :
    ReadsStmt last ts s rest f dropped →
      (stmt last ts).phrase = s ∧ (stmt last ts).rest = rest ∧ (stmt last ts).faults = f
  | .block ho h hc => by
    obtain ⟨rfl, rfl, rfl⟩ := stmts_of_reads h
    obtain ⟨rfl, rfl, rfl⟩ := token_of_reads hc
    rw [stmt]
    simp only [ho, and_self]
  | .declaration hk hx heq he => by
    rw [stmt]
    rcases hk with hk | hk <;> simp only [hk] <;> exact declaration_of_reads hx heq he
  | .ifThen hk he hs hnext => by
    have hthen := stmt_of_reads hs
    obtain ⟨rfl, rfl, rfl⟩ := expr_of_reads he
    obtain ⟨rfl, rfl, rfl⟩ := hthen
    rw [stmt]
    simp only [hk]
    rw [token?_of_next_ne hnext]
    exact ⟨rfl, rfl, rfl⟩
  | .ifElse hk he hs hel ht => by
    have hthen := stmt_of_reads hs
    have helse := stmt_of_reads ht
    obtain ⟨rfl, rfl, rfl⟩ := expr_of_reads he
    obtain ⟨rfl, hrest, rfl⟩ := hthen
    obtain ⟨p, hsome, rfl, rfl⟩ := token?_of_kind hrest hel
    obtain ⟨rfl, rfl, rfl⟩ := helse
    rw [stmt]
    simp only [hk]
    rw [hsome]
    exact ⟨rfl, rfl, rfl⟩
  | .whileLoop hk he hs => by
    have hbody := stmt_of_reads hs
    obtain ⟨rfl, rfl, rfl⟩ := expr_of_reads he
    obtain ⟨rfl, rfl, rfl⟩ := hbody
    rw [stmt]
    simp only [hk, and_self]
  | .forLoop hk hx heq hlo hto hhi hs => by
    have hbody := stmt_of_reads hs
    obtain ⟨rfl, rfl, rfl⟩ := token_of_reads hx
    obtain ⟨rfl, rfl, rfl⟩ := token_of_reads heq
    obtain ⟨rfl, rfl, rfl⟩ := expr_of_reads hlo
    obtain ⟨rfl, rfl, rfl⟩ := token_of_reads hto
    obtain ⟨rfl, rfl, rfl⟩ := expr_of_reads hhi
    obtain ⟨rfl, rfl, rfl⟩ := hbody
    rw [stmt]
    simp only [hk]
    exact ⟨rfl, rfl, rfl⟩
  | .expression hnext h => by
    obtain ⟨rfl, rfl, rfl⟩ := expr_of_reads h
    cases ts with
    | nil =>
      rw [stmt]
      exact ⟨rfl, rfl, rfl⟩
    | cons t ts =>
      rw [stmt]
      split
      · next ho => simp [ho, statementKinds] at hnext
      · next hk => simp [hk, statementKinds] at hnext
      · next hk => simp [hk, statementKinds] at hnext
      · next hk => simp [hk, statementKinds] at hnext
      · next hk => simp [hk, statementKinds] at hnext
      · next hk => simp [hk, statementKinds] at hnext
      · exact ⟨rfl, rfl, rfl⟩

theorem stmts_of_reads {ts rest dropped : List Token} {ss : List Stmt} {f : List Diagnostic} :
    ReadsStmts last ts ss rest f dropped →
      (stmts last ts).phrase = ss ∧ (stmts last ts).rest = rest ∧ (stmts last ts).faults = f
  | .done hend => by
    cases ts with
    | nil =>
      rw [stmts]
      exact ⟨rfl, rfl, rfl⟩
    | cons t ts =>
      have hclose : t.kind = .closeBrace := hend.resolve_left nofun
      rw [stmts, if_pos hclose]
      exact ⟨rfl, rfl, rfl⟩
  | .used ht h hused hrest => by
    have hfirst := stmt_of_reads h
    have hmore := stmts_of_reads hrest
    obtain ⟨rfl, rfl, rfl⟩ := hfirst
    obtain ⟨rfl, rfl, rfl⟩ := hmore
    rw [stmts, if_neg ht]
    simp only [dif_pos hused, and_self]
  | .idle ht h hidle hrest => by
    have hfirst := stmt_of_reads h
    have hmore := stmts_of_reads hrest
    obtain ⟨rfl, rfl, rfl⟩ := hfirst
    obtain ⟨rfl, rfl, rfl⟩ := hmore
    rw [stmts, if_neg ht]
    simp only [dif_neg hidle, and_self]

end

end Lumen.Tree.Parsed
