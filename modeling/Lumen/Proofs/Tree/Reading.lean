import Lumen.Tree.Parse

/-!
# Readings

What the parser does, as relations: a reading of a phrase leads from the tokens before it to the
tokens behind it, with the complaints on the way. There is one rule for each way in which a phrase
can be read, and the conditions of the rules look at the kind of the next token only, save for the
second token of an assignment. A reading of statements also lists the tokens that blocks drop.
Every call of the parser is a reading, so whatever the rules keep holds of all parsed trees.
-/

namespace Lumen.Tree

open Parsed (unexpected)

/-- The kind of the first of some tokens, or of the end token if there are none. -/
def next : List Token → TokenKind
  | [] => .endOfFile
  | t :: _ => t.kind

@[simp] theorem next_nil : next [] = .endOfFile := rfl

@[simp] theorem next_cons (t : Token) (ts : List Token) : next (t :: ts) = t.kind := rfl

def StartsAssignment : List Token → Prop
  | x :: eq :: _ => x.kind = .identifier ∧ eq.kind = .equals
  | _ => False

/-- The kinds with which a primary expression other than a numeral starts. -/
def primaryKinds : List TokenKind := [.openParen, .trueKeyword, .falseKeyword, .identifier]

/-- The kinds with which a statement other than an expression starts. -/
def statementKinds : List TokenKind :=
  [.openBrace, .varKeyword, .letKeyword, .ifKeyword, .whileKeyword, .forKeyword]

variable (last : Token)

inductive ReadsToken (kind : TokenKind) :
    List Token → Token → List Token → List Diagnostic → Prop
  | found {t : Token} {ts : List Token} : t.kind = kind → ReadsToken kind (t :: ts) t ts []
  | missing {ts : List Token} : next ts ≠ kind →
    ReadsToken kind ts (.missing kind (ts.headD last).start) ts [unexpected (ts.headD last) kind]

mutual

inductive ReadsExpr : List Token → Expr → List Token → List Diagnostic → Prop
  | assignment {x eq : Token} {ts rest : List Token} {e : Expr} {f : List Diagnostic} :
    x.kind = .identifier → eq.kind = .equals → ReadsExpr ts e rest f →
      ReadsExpr (x :: eq :: ts) (.assignment x eq e) rest f
  | binary {ts rest : List Token} {e : Expr} {f : List Diagnostic} :
    ¬ StartsAssignment ts → ReadsBinary .lowest ts e rest f → ReadsExpr ts e rest f

/-- Reading an expression whose binary operators bind tighter than a level. -/
inductive ReadsBinary : Precedence → List Token → Expr → List Token → List Diagnostic → Prop
  | unary {parent : Precedence} {op : Token} {ts mid rest : List Token} {operand e : Expr}
    {f g : List Diagnostic} :
    op.kind.isUnaryOperator = true → ReadsBinary .unary ts operand mid f →
      ReadsOperators parent (.unary op operand) mid e rest g →
        ReadsBinary parent (op :: ts) e rest (f ++ g)
  | primary {parent : Precedence} {ts mid rest : List Token} {left e : Expr}
    {f g : List Diagnostic} :
    (next ts).isUnaryOperator = false → ReadsPrimary ts left mid f →
      ReadsOperators parent left mid e rest g → ReadsBinary parent ts e rest (f ++ g)

inductive ReadsOperators :
    Precedence → Expr → List Token → Expr → List Token → List Diagnostic → Prop
  | stop {parent : Precedence} {left : Expr} {ts : List Token} :
    (∀ p, (next ts).binaryPrecedence? = some p → p.rank ≤ parent.rank) →
      ReadsOperators parent left ts left ts []
  | step {parent p : Precedence} {op : Token} {ts mid rest : List Token} {left right e : Expr}
    {f g : List Diagnostic} :
    op.kind.binaryPrecedence? = some p → parent.rank < p.rank → ReadsBinary p ts right mid f →
      ReadsOperators parent (.binary left op right) mid e rest g →
        ReadsOperators parent left (op :: ts) e rest (f ++ g)

inductive ReadsPrimary : List Token → Expr → List Token → List Diagnostic → Prop
  | parenthesized {o c : Token} {ts mid rest : List Token} {e : Expr} {f g : List Diagnostic} :
    o.kind = .openParen → ReadsExpr ts e mid f → ReadsToken last .closeParen mid c rest g →
      ReadsPrimary (o :: ts) (.parenthesized o e c) rest (f ++ g)
  | truth {t : Token} {ts : List Token} :
    t.kind = .trueKeyword ∨ t.kind = .falseKeyword → ReadsPrimary (t :: ts) (.literal t) ts []
  | name {t : Token} {ts : List Token} :
    t.kind = .identifier → ReadsPrimary (t :: ts) (.name t) ts []
  | number {t : Token} {ts rest : List Token} {f : List Diagnostic} :
    next ts ∉ primaryKinds → ReadsToken last .number ts t rest f →
      ReadsPrimary ts (.literal t) rest f

end

mutual

/-- Reading a statement; listed last are the tokens that blocks drop. -/
inductive ReadsStmt :
    List Token → Stmt → List Token → List Diagnostic → List Token → Prop
  | block {o c : Token} {ts mid rest dropped : List Token} {body : List Stmt}
    {f g : List Diagnostic} :
    o.kind = .openBrace → ReadsStmts ts body mid f dropped →
      ReadsToken last .closeBrace mid c rest g →
        ReadsStmt (o :: ts) (.block o body c) rest (f ++ g) dropped
  | declaration {k x eq : Token} {ts ts₁ ts₂ rest : List Token} {e : Expr}
    {f g h : List Diagnostic} :
    k.kind = .varKeyword ∨ k.kind = .letKeyword → ReadsToken last .identifier ts x ts₁ f →
      ReadsToken last .equals ts₁ eq ts₂ g → ReadsExpr last ts₂ e rest h →
        ReadsStmt (k :: ts) (.declaration k x eq e) rest (f ++ g ++ h) []
  | ifThen {k : Token} {ts mid rest dropped : List Token} {e : Expr} {s : Stmt}
    {f g : List Diagnostic} :
    k.kind = .ifKeyword → ReadsExpr last ts e mid f → ReadsStmt mid s rest g dropped →
      next rest ≠ .elseKeyword → ReadsStmt (k :: ts) (.ifThen k e s) rest (f ++ g) dropped
  | ifElse {k el : Token} {ts ts₁ ts₂ rest dropped dropped' : List Token} {e : Expr}
    {s t : Stmt} {f g h : List Diagnostic} :
    k.kind = .ifKeyword → ReadsExpr last ts e ts₁ f → ReadsStmt ts₁ s (el :: ts₂) g dropped →
      el.kind = .elseKeyword → ReadsStmt ts₂ t rest h dropped' →
        ReadsStmt (k :: ts) (.ifElse k e s el t) rest (f ++ g ++ h) (dropped ++ dropped')
  | whileLoop {k : Token} {ts mid rest dropped : List Token} {e : Expr} {s : Stmt}
    {f g : List Diagnostic} :
    k.kind = .whileKeyword → ReadsExpr last ts e mid f → ReadsStmt mid s rest g dropped →
      ReadsStmt (k :: ts) (.whileLoop k e s) rest (f ++ g) dropped
  | forLoop {k x eq toKw : Token} {ts ts₁ ts₂ ts₃ ts₄ ts₅ rest dropped : List Token}
    {lower upper : Expr} {s : Stmt} {f₁ f₂ f₃ f₄ f₅ g : List Diagnostic} :
    k.kind = .forKeyword → ReadsToken last .identifier ts x ts₁ f₁ →
      ReadsToken last .equals ts₁ eq ts₂ f₂ → ReadsExpr last ts₂ lower ts₃ f₃ →
        ReadsToken last .toKeyword ts₃ toKw ts₄ f₄ → ReadsExpr last ts₄ upper ts₅ f₅ →
          ReadsStmt ts₅ s rest g dropped →
            ReadsStmt (k :: ts) (.forLoop k x eq lower toKw upper s) rest
              (f₁ ++ f₂ ++ f₃ ++ f₄ ++ f₅ ++ g) dropped
  | expression {ts rest : List Token} {e : Expr} {f : List Diagnostic} :
    next ts ∉ statementKinds → ReadsExpr last ts e rest f →
      ReadsStmt ts (.expression e) rest f []

/-- Reading the statements of a block. Behind a statement that used no token one is dropped. -/
inductive ReadsStmts :
    List Token → List Stmt → List Token → List Diagnostic → List Token → Prop
  | done {ts : List Token} :
    ts = [] ∨ next ts = .closeBrace → ReadsStmts ts [] ts [] []
  | used {t : Token} {ts mid rest dropped dropped' : List Token} {s : Stmt} {ss : List Stmt}
    {f g : List Diagnostic} :
    t.kind ≠ .closeBrace → ReadsStmt (t :: ts) s mid f dropped →
      mid.length < (t :: ts).length → ReadsStmts mid ss rest g dropped' →
        ReadsStmts (t :: ts) (s :: ss) rest (f ++ g) (dropped ++ dropped')
  | idle {t : Token} {ts mid rest dropped dropped' : List Token} {s : Stmt} {ss : List Stmt}
    {f g : List Diagnostic} :
    t.kind ≠ .closeBrace → ReadsStmt (t :: ts) s mid f dropped →
      ¬ mid.length < (t :: ts).length → ReadsStmts ts ss rest g dropped' →
        ReadsStmts (t :: ts) (s :: ss) rest (f ++ g) (dropped ++ t :: dropped')

end

namespace Parsed

variable {last : Token}

theorem readsToken_token {kind : TokenKind} (hkind : kind ≠ .endOfFile) (ts : List Token) :
    ReadsToken last kind ts (token last kind ts).phrase (token last kind ts).rest
      (token last kind ts).faults := by
  cases ts with
  | nil => exact .missing hkind.symm
  | cons t ts =>
    rw [token]
    split
    · next h => exact .found h
    · next h => exact .missing h

theorem readsExpr_expr (ts : List Token) :
    ReadsExpr last ts (expr last ts).phrase (expr last ts).rest (expr last ts).faults := by
  -- along the parser: what is said of expressions is said of the other three phrases as well
  induction ts using fun (motive : List Token → Prop) => expr.induct last motive
    (fun p ts => ReadsBinary last p ts (binary last p ts).phrase (binary last p ts).rest
      (binary last p ts).faults)
    (fun p left ts => ReadsOperators last p left ts (operators last p left ts).phrase
      (operators last p left ts).rest (operators last p left ts).faults)
    (fun ts => ReadsPrimary last ts (primary last ts).phrase (primary last ts).rest
      (primary last ts).faults) with
  | case1 x eq rest h ih =>
    rw [expr, if_pos h]
    exact .assignment h.1 h.2 ih
  | case2 x eq rest h ih =>
    rw [expr, if_neg h]
    exact .binary h ih
  | case3 ts h ih =>
    rw [expr.eq_2 last ts h]
    refine .binary (fun hstart => ?_) ih
    match ts, hstart with
    | x :: eq :: rest, _ => exact h x eq rest rfl
  | case4 parent left hleft hall _ =>
    rw [binary]
    exact .primary rfl hleft hall
  | case5 parent t rest hop operand hoperand hall _ =>
    rw [binary, if_pos hop]
    exact .unary hop hoperand hall
  | case6 parent t rest hop left hleft hall _ =>
    rw [binary, if_neg hop]
    exact .primary (Bool.eq_false_iff.mpr hop) hleft hall
  | case7 parent left =>
    rw [operators]
    exact .stop fun p hp => nomatch hp
  | case8 parent left t rest hnone =>
    rw [operators]
    simp only [hnone]
    exact .stop fun p hp => nomatch hnone.symm.trans hp
  | case9 parent left t rest p hp hlt right hright hall _ =>
    rw [operators]
    simp only [hp, if_pos hlt]
    exact .step hp hlt hright hall
  | case10 parent left t rest p hp hle =>
    rw [operators]
    simp only [hp, if_neg hle]
    refine .stop fun p' hp' => ?_
    cases hp.symm.trans hp'
    exact Nat.le_of_not_lt hle
  | case11 =>
    rw [primary]
    exact .number (by simp [primaryKinds]) (readsToken_token (by simp) [])
  | case12 t rest ho ih =>
    rw [primary]
    simp only [ho]
    exact .parenthesized ho ih (readsToken_token (by simp) _)
  | case13 t rest h =>
    rw [primary]
    simp only [h]
    exact .truth (.inl h)
  | case14 t rest h =>
    rw [primary]
    simp only [h]
    exact .truth (.inr h)
  | case15 t rest h =>
    rw [primary]
    simp only [h]
    exact .name h
  | case16 t rest ho ht hf hx =>
    rw [primary]
    split
    · next h => exact (ho h).elim
    · next h => exact (ht h).elim
    · next h => exact (hf h).elim
    · next h => exact (hx h).elim
    · refine .number ?_ (readsToken_token (by simp) _)
      simp only [primaryKinds, next_cons, List.mem_cons, List.not_mem_nil, or_false, not_or]
      exact ⟨ho, ht, hf, hx⟩

variable (last)

mutual

/-- The tokens that blocks drop when a statement is read, each behind a statement that used none. -/
def dropped (ts : List Token) : List Token :=
  match ts with
  | [] => []
  | t :: rest =>
    match t.kind with
    | .openBrace => droppedOfList rest
    | .ifKeyword =>
      let e := expr last rest
      let s := stmt last e.rest
      match token? .elseKeyword s.rest with
      | none => dropped e.rest
      | some el => dropped e.rest ++ dropped el.rest
    | .whileKeyword => dropped (expr last rest).rest
    | .forKeyword => dropped (forHead last rest).rest
    | _ => []
termination_by 2 * ts.length
decreasing_by
  · simp only [List.length_cons]; omega
  · exact mul_rest_lt _ (by simp only [List.length_cons]; omega)
  · exact mul_rest_lt _ (by simp only [List.length_cons]; omega)
  · exact mul_rest_lt _ (mul_rest_lt _ (mul_rest_lt _ (by simp only [List.length_cons]; omega)))
  · exact mul_rest_lt _ (by simp only [List.length_cons]; omega)
  · exact mul_rest_lt _ (by simp only [List.length_cons]; omega)

def droppedOfList (ts : List Token) : List Token :=
  match ts with
  | [] => []
  | t :: rest =>
    if t.kind = .closeBrace then []
    else
      let s := stmt last (t :: rest)
      if _used : s.rest.length < (t :: rest).length then
        dropped (t :: rest) ++ droppedOfList s.rest
      else dropped (t :: rest) ++ t :: droppedOfList rest
termination_by 2 * ts.length + 1
decreasing_by
  · exact Nat.lt_succ_self _
  · exact mul_rest_succ_lt _ _used
  · exact Nat.lt_succ_self _
  · clear _used
    simp only [List.length_cons]; omega

end

variable {last}

theorem token?_eq_some {kind : TokenKind} {ts : List Token} {p : Parsed Token ts.length}
    (h : token? kind ts = some p) :
    ts = p.phrase :: p.rest ∧ p.phrase.kind = kind ∧ p.faults = [] := by
  cases ts with
  | nil => cases h
  | cons t rest =>
    rw [token?] at h
    split at h
    · next hkind =>
      cases h
      exact ⟨rfl, hkind, rfl⟩
    · cases h

theorem token?_eq_none {kind : TokenKind} (hkind : kind ≠ .endOfFile) {ts : List Token}
    (h : token? kind ts = none) : next ts ≠ kind := by
  cases ts with
  | nil => exact hkind.symm
  | cons t rest =>
    rw [token?] at h
    split at h
    · cases h
    · next hne => exact hne

theorem readsStmt_stmt (ts : List Token) :
    ReadsStmt last ts (stmt last ts).phrase (stmt last ts).rest (stmt last ts).faults
      (dropped last ts) := by
  induction ts using fun (motive : List Token → Prop) => stmt.induct last motive
    (fun ts => ReadsStmts last ts (stmts last ts).phrase (stmts last ts).rest
      (stmts last ts).faults (droppedOfList last ts)) with
  | case1 =>
    rw [stmt, dropped]
    exact .expression (by simp [statementKinds]) (readsExpr_expr [])
  | case2 t rest h ih =>
    rw [stmt, dropped]
    simp only [h]
    exact .block h ih (readsToken_token (by simp) _)
  | case3 t rest h =>
    rw [stmt, dropped]
    simp only [h]
    exact .declaration (.inl h) (readsToken_token (by simp) _) (readsToken_token (by simp) _)
      (readsExpr_expr _)
  | case4 t rest h =>
    rw [stmt, dropped]
    simp only [h]
    exact .declaration (.inr h) (readsToken_token (by simp) _) (readsToken_token (by simp) _)
      (readsExpr_expr _)
  | case5 t rest h e s hnone ih _ =>
    rw [stmt, dropped]
    simp only [h]
    rw [hnone]
    exact .ifThen h (readsExpr_expr _) ih (token?_eq_none (by simp) hnone)
  | case6 t rest h e s el hsome ih _ ih' _ =>
    obtain ⟨hrest, hkind, -⟩ := token?_eq_some hsome
    rw [stmt, dropped]
    simp only [h]
    rw [hsome]
    rw [hrest] at ih
    exact .ifElse h (readsExpr_expr _) ih hkind ih'
  | case7 t rest h e ih _ =>
    rw [stmt, dropped]
    simp only [h]
    exact .whileLoop h (readsExpr_expr _) ih
  | case8 t rest h head ih _ =>
    rw [stmt, dropped]
    simp only [h]
    exact .forLoop h (readsToken_token (by simp) _) (readsToken_token (by simp) _)
      (readsExpr_expr _) (readsToken_token (by simp) _) (readsExpr_expr _) ih
  | case9 t rest ho hv hl hi hw hf =>
    have hkind : next (t :: rest) ∉ statementKinds := by
      simp only [statementKinds, next_cons, List.mem_cons, List.not_mem_nil, or_false, not_or]
      exact ⟨ho, hv, hl, hi, hw, hf⟩
    have hdropped : dropped last (t :: rest) = [] := by
      rw [dropped]
      split
      · next h => exact (ho h).elim
      · next h => exact (hi h).elim
      · next h => exact (hw h).elim
      · next h => exact (hf h).elim
      · rfl
    rw [stmt, hdropped]
    split
    · next h => exact (ho h).elim
    · next h => exact (hv h).elim
    · next h => exact (hl h).elim
    · next h => exact (hi h).elim
    · next h => exact (hw h).elim
    · next h => exact (hf h).elim
    · exact .expression hkind (readsExpr_expr _)
  | case10 =>
    rw [stmts, droppedOfList]
    exact .done (.inl rfl)
  | case11 t rest h =>
    rw [stmts, droppedOfList, if_pos h, if_pos h]
    exact .done (.inr h)
  | case12 t rest h s hused ih ih' _ =>
    have hlt : (stmt last (t :: rest)).rest.length < (t :: rest).length := hused
    rw [stmts, droppedOfList, if_neg h, if_neg h]
    simp only [dif_pos hlt]
    exact .used h ih hused ih'
  | case13 t rest h s hidle ih ih' =>
    have hnot : ¬ (stmt last (t :: rest)).rest.length < (t :: rest).length := hidle
    rw [stmts, droppedOfList, if_neg h, if_neg h]
    simp only [dif_neg hnot]
    exact .idle h ih hidle ih'

end Parsed

end Lumen.Tree
