import Lumen.Proofs.Reader.Places
import Lumen.Proofs.Source.Shape

/-!
# Readers follow the rules

A reader that stands on some tokens of a text reads what the rules of reading say of these tokens: it
finds the same phrase, comes to stand on the tokens that are left, and complains about the same. So a
text is read as the same program with and without a list of its tokens.
-/

namespace Lumen.Reader

variable [Xid]

open Lumen.Source (significant endToken readUpTo stream_significant)
open Lumen.Tree

variable {text : List Char} {r : Reader} {ts mid rest : List Token} {f g : List Diagnostic}

/-- What a reader has found, and the reader behind it. -/
def Read.found {α : Type} (p : Read α r) : α × Reader := (p.phrase, p.behind)

/-- Whether a reader finds a phrase, comes to stand on some tokens of a text, and complains. -/
structure Arrives {α : Type} (text : List Char) (r : Reader) (p : α × Reader) (a : α)
    (rest : List Token) (faults : List Diagnostic) : Prop where
  phrase_eq : p.1 = a
  stands : p.2.scanner.StandsOn text rest
  faults_eq : p.2.faults = r.faults ++ faults

namespace Arrives

variable {α β γ : Type} {p : α × Reader} {q : β × Reader} {a : α} {b : β}

theorem stay (hr : r.scanner.StandsOn text ts) (a : α) : Arrives text r (a, r) a ts [] :=
  ⟨rfl, hr, (List.append_nil _).symm⟩

theorem both (k : α → β → γ) (h : Arrives text r p a mid f) (h' : Arrives text p.2 q b rest g) :
    Arrives text r (k p.1 q.1, q.2) (k a b) rest (f ++ g) where
  phrase_eq := congr (congrArg k h.phrase_eq) h'.phrase_eq
  stands := h'.stands
  faults_eq := by rw [h'.faults_eq, h.faults_eq, List.append_assoc]

theorem map (k : α → β) (h : Arrives text r p a rest f) :
    Arrives text r (k p.1, p.2) (k a) rest f :=
  ⟨congrArg k h.phrase_eq, h.stands, h.faults_eq⟩

end Arrives

theorem kind_eq (hr : r.scanner.StandsOn text ts) : r.kind = next ts := hr.kind_eq

theorem ne_endOfFile_of_stands {t : Token} (hr : r.scanner.StandsOn text (t :: ts)) :
    r.kind ≠ .endOfFile := by
  rw [kind_eq hr]
  exact (Source.proper_of_significant (hr.suffix.subset List.mem_cons_self)).kind_ne

theorem arrives_take {t : Token} (hr : r.scanner.StandsOn text (t :: ts)) :
    Arrives text r r.take t ts [] :=
  ⟨hr.token_eq, hr.advance, (List.append_nil _).symm⟩

theorem arrives_expect {kind : TokenKind} {t : Token}
    (h : ReadsToken (endToken text) kind ts t rest f) (hr : r.scanner.StandsOn text ts) :
    Arrives text r (r.expect kind) t rest f := by
  have hkind := kind_eq hr
  rw [expect]
  cases h with
  | found ht =>
    rw [if_pos (hkind.trans ht)]
    exact arrives_take hr
  | missing hne =>
    have htoken : r.token = ts.headD (endToken text) := hr.token_eq
    rw [if_neg (hkind.trans_ne hne), start, htoken]
    exact ⟨rfl, hr, rfl⟩

theorem starts_iff (hr : r.scanner.StandsOn text ts) :
    r.kind = .identifier ∧ r.take.2.kind = .equals ↔ StartsAssignment ts := by
  have hnext : r.take.2.kind = next ts.tail := hr.advance.kind_eq
  rw [kind_eq hr, hnext]
  match ts with
  | [] => simp [StartsAssignment]
  | [x] => simp [StartsAssignment]
  | x :: eq :: _ => exact Iff.rfl

theorem found_expr_of_starts (h : r.kind = .identifier ∧ r.take.2.kind = .equals) :
    (expr r).found = (.assignment r.take.1 r.take.2.take.1 (expr r.take.2.take.2).phrase,
      (expr r.take.2.take.2).behind) := by
  have hstarts : r.startsAssignment = (true, r) := by
    rw [startsAssignment_eq]
    exact congrArg (·, r) (decide_eq_true h)
  rw [Read.found, expr]
  dsimp only
  rw [dif_pos (congrArg Prod.fst hstarts)]
  dsimp only
  rw [hstarts]

theorem found_expr_of_not_starts (h : ¬ (r.kind = .identifier ∧ r.take.2.kind = .equals)) :
    (expr r).found = (binary .lowest r).found := by
  have hstarts : r.startsAssignment = (false, r) := by
    rw [startsAssignment_eq]
    exact congrArg (·, r) (decide_eq_false h)
  rw [Read.found, expr]
  dsimp only
  rw [dif_neg (by rw [hstarts]; exact Bool.false_ne_true)]
  dsimp only
  rw [hstarts]
  rfl

theorem found_binary_of_unary (parent : Precedence) (h : r.kind.isUnaryOperator = true) :
    (binary parent r).found =
      (operators parent (.unary r.take.1 (binary .unary r.take.2).phrase)
        (binary .unary r.take.2).behind).found := by
  rw [Read.found, binary, dif_pos h]
  rfl

theorem found_binary_of_primary (parent : Precedence) (h : r.kind.isUnaryOperator = false) :
    (binary parent r).found =
      (operators parent (primary r).phrase (primary r).behind).found := by
  rw [Read.found, binary, dif_neg (Bool.eq_false_iff.mp h)]
  rfl

theorem found_operators_of_stop {parent : Precedence} (left : Expr)
    (h : ∀ p, r.kind.binaryPrecedence? = some p → p.rank ≤ parent.rank) :
    (operators parent left r).found = (left, r) := by
  rw [Read.found, operators]
  split
  · rfl
  · next p hp =>
    rw [if_neg (Nat.not_lt.mpr (h p hp))]

theorem found_operators_of_step {parent p : Precedence} (left : Expr)
    (hp : r.kind.binaryPrecedence? = some p) (hlt : parent.rank < p.rank) :
    (operators parent left r).found =
      (operators parent (.binary left r.take.1 (binary p r.take.2).phrase)
        (binary p r.take.2).behind).found := by
  rw [Read.found, operators]
  split
  · next hnone => cases hnone.symm.trans hp
  · next p' hp' =>
    cases hp'.symm.trans hp
    rw [if_pos hlt]
    rfl

theorem found_primary_of_openParen (h : r.kind = .openParen) :
    (primary r).found =
      (.parenthesized r.take.1 (expr r.take.2).phrase ((expr r.take.2).behind.expect .closeParen).1,
        ((expr r.take.2).behind.expect .closeParen).2) := by
  rw [Read.found, primary]
  split <;> simp_all

theorem found_primary_of_truth (h : r.kind = .trueKeyword ∨ r.kind = .falseKeyword) :
    (primary r).found = (.literal r.take.1, r.take.2) := by
  rw [Read.found, primary]
  split <;> simp_all

theorem found_primary_of_identifier (h : r.kind = .identifier) :
    (primary r).found = (.name r.take.1, r.take.2) := by
  rw [Read.found, primary]
  split <;> simp_all

theorem found_primary_of_number (h : r.kind ∉ primaryKinds) :
    (primary r).found = (.literal (r.expect .number).1, (r.expect .number).2) := by
  rw [Read.found, primary]
  split <;> simp_all [primaryKinds]

mutual

theorem arrives_expr {ts rest : List Token} {e : Expr} {f : List Diagnostic} {r : Reader} :
    ReadsExpr (endToken text) ts e rest f → r.scanner.StandsOn text ts →
      Arrives text r (expr r).found e rest f
  | .assignment hx heq h, hr => by
    have htarget := arrives_take hr
    have hsign := arrives_take htarget.stands
    rw [found_expr_of_starts ((starts_iff hr).mpr ⟨hx, heq⟩)]
    exact (htarget.both Prod.mk hsign).both (fun p e => Expr.assignment p.1 p.2 e)
      (arrives_expr h hsign.stands)
  | .binary hstarts h, hr => by
    rw [found_expr_of_not_starts (mt (starts_iff hr).mp hstarts)]
    exact arrives_binary h hr

theorem arrives_binary {parent : Precedence} {ts rest : List Token} {e : Expr}
    {f : List Diagnostic} {r : Reader} :
    ReadsBinary (endToken text) parent ts e rest f → r.scanner.StandsOn text ts →
      Arrives text r (binary parent r).found e rest f
  | .unary hop h hall, hr => by
    rw [found_binary_of_unary parent ((kind_eq hr).symm ▸ hop)]
    have hoperand := (arrives_take hr).both Expr.unary (arrives_binary h hr.advance)
    exact hoperand.both (fun _ e => e) (arrives_operators hall hoperand.phrase_eq hoperand.stands)
  | .primary hkind h hall, hr => by
    rw [found_binary_of_primary parent ((kind_eq hr).symm ▸ hkind)]
    have hleft := arrives_primary h hr
    exact hleft.both (fun _ e => e) (arrives_operators hall hleft.phrase_eq hleft.stands)

theorem arrives_operators {parent : Precedence} {ts rest : List Token} {left left' e : Expr}
    {f : List Diagnostic} {r : Reader} :
    ReadsOperators (endToken text) parent left ts e rest f → left' = left →
      r.scanner.StandsOn text ts → Arrives text r (operators parent left' r).found e rest f
  | .stop hstop, hleft, hr => by
    rw [hleft, found_operators_of_stop left ((kind_eq hr).symm ▸ hstop)]
    exact .stay hr left
  | .step hp hlt h hall, hleft, hr => by
    rw [hleft, found_operators_of_step left (by rw [kind_eq hr]; exact hp) hlt]
    have hright := (arrives_take hr).both (Expr.binary left) (arrives_binary h hr.advance)
    exact hright.both (fun _ e => e) (arrives_operators hall hright.phrase_eq hright.stands)

theorem arrives_primary {ts rest : List Token} {e : Expr} {f : List Diagnostic} {r : Reader} :
    ReadsPrimary (endToken text) ts e rest f → r.scanner.StandsOn text ts →
      Arrives text r (primary r).found e rest f
  | .parenthesized ho h hclose, hr => by
    rw [found_primary_of_openParen ((kind_eq hr).trans ho)]
    have hinner := (arrives_take hr).both Prod.mk (arrives_expr h hr.advance)
    exact hinner.both (fun p c => Expr.parenthesized p.1 p.2 c) (arrives_expect hclose hinner.stands)
  | .truth ht, hr => by
    rw [found_primary_of_truth ((kind_eq hr).symm ▸ ht)]
    exact (arrives_take hr).map Expr.literal
  | .name ht, hr => by
    rw [found_primary_of_identifier ((kind_eq hr).trans ht)]
    exact (arrives_take hr).map Expr.name
  | .number hkind h, hr => by
    rw [found_primary_of_number ((kind_eq hr).symm ▸ hkind)]
    exact (arrives_expect h hr).map Expr.literal

end

theorem found_stmt_of_openBrace (h : r.kind = .openBrace) :
    (stmt r).found =
      (.block r.take.1 (stmts r.take.2).phrase ((stmts r.take.2).behind.expect .closeBrace).1,
        ((stmts r.take.2).behind.expect .closeBrace).2) := by
  rw [Read.found, stmt]
  split <;> simp_all

theorem found_stmt_of_declaration (h : r.kind = .varKeyword ∨ r.kind = .letKeyword) :
    (stmt r).found = (declaration r.take.1 r.take.2).found := by
  rw [Read.found, stmt]
  split <;> simp_all [Read.found]

theorem found_stmt_of_ifThen (h : r.kind = .ifKeyword)
    (helse : (stmt (expr r.take.2).behind).behind.kind ≠ .elseKeyword) :
    (stmt r).found =
      (.ifThen r.take.1 (expr r.take.2).phrase (stmt (expr r.take.2).behind).phrase,
        (stmt (expr r.take.2).behind).behind) := by
  rw [Read.found, stmt]
  split <;> simp_all

theorem found_stmt_of_ifElse (h : r.kind = .ifKeyword)
    (helse : (stmt (expr r.take.2).behind).behind.kind = .elseKeyword) :
    (stmt r).found =
      (.ifElse r.take.1 (expr r.take.2).phrase (stmt (expr r.take.2).behind).phrase
          (stmt (expr r.take.2).behind).behind.take.1
          (stmt (stmt (expr r.take.2).behind).behind.take.2).phrase,
        (stmt (stmt (expr r.take.2).behind).behind.take.2).behind) := by
  rw [Read.found, stmt]
  split <;> simp_all

theorem found_stmt_of_while (h : r.kind = .whileKeyword) :
    (stmt r).found =
      (.whileLoop r.take.1 (expr r.take.2).phrase (stmt (expr r.take.2).behind).phrase,
        (stmt (expr r.take.2).behind).behind) := by
  rw [Read.found, stmt]
  split <;> simp_all

theorem found_stmt_of_for (h : r.kind = .forKeyword) :
    (stmt r).found =
      (.forLoop r.take.1 (forHead r.take.2).phrase.identifier (forHead r.take.2).phrase.equals
          (forHead r.take.2).phrase.lower (forHead r.take.2).phrase.toKeyword
          (forHead r.take.2).phrase.upper (stmt (forHead r.take.2).behind).phrase,
        (stmt (forHead r.take.2).behind).behind) := by
  rw [Read.found, stmt]
  split <;> simp_all

theorem found_stmt_of_expression (h : r.kind ∉ statementKinds) :
    (stmt r).found = (.expression (expr r).phrase, (expr r).behind) := by
  rw [Read.found, stmt]
  split <;> simp_all [statementKinds]

def Round.found (p : Round r) : Stmt × Reader := (p.statement, p.behind)

theorem found_round_of_stays (h : r.kind ≠ .endOfFile) (hstays : (stmt r).behind.start = r.start) :
    (round r h).found = ((stmt r).phrase, (stmt r).behind.take.2) := by
  rw [Round.found, round, dif_pos hstays]

theorem found_round_of_moves (h : r.kind ≠ .endOfFile) (hmoves : (stmt r).behind.start ≠ r.start) :
    (round r h).found = (stmt r).found := by
  rw [Round.found, round, dif_neg hmoves]
  rfl

theorem found_stmts_of_done (h : r.kind = .endOfFile ∨ r.kind = .closeBrace) :
    (stmts r).found = ([], r) := by
  rw [Read.found, stmts, dif_pos h]

theorem found_stmts_of_round (h : r.kind ≠ .endOfFile) (hopen : r.kind ≠ .closeBrace) :
    (stmts r).found = ((round r h).statement :: (stmts (round r h).behind).phrase,
      (stmts (round r h).behind).behind) := by
  rw [Read.found, stmts, dif_neg (not_or.mpr ⟨h, hopen⟩)]

theorem start_lt_of_length_lt {b : Reader} (hr : r.scanner.StandsOn text ts)
    (hb : b.scanner.StandsOn text rest) (hsuffix : rest <:+ ts) (hlt : rest.length < ts.length) :
    r.start < b.start := by
  obtain ⟨used, rfl⟩ := hsuffix
  cases used with
  | nil => exact absurd hlt (Nat.lt_irrefl _)
  | cons t used =>
    have hstream := (stream_significant text).of_suffix hr.suffix
    rw [start, start, token, token, hr.token_eq, hb.token_eq]
    exact hstream.start_lt t List.mem_cons_self

theorem arrives_declaration {k x eq : Token} {ts ts₁ ts₂ rest : List Token} {e : Expr}
    {f g h : List Diagnostic} (hx : ReadsToken (endToken text) .identifier ts x ts₁ f)
    (heq : ReadsToken (endToken text) .equals ts₁ eq ts₂ g)
    (he : ReadsExpr (endToken text) ts₂ e rest h) (hr : r.scanner.StandsOn text ts) :
    Arrives text r (declaration k r).found (.declaration k x eq e) rest (f ++ g ++ h) := by
  have hname := arrives_expect hx hr
  have hsign := hname.both Prod.mk (arrives_expect heq hname.stands)
  exact hsign.both (fun p e => Stmt.declaration k p.1 p.2 e) (arrives_expr he hsign.stands)

theorem arrives_forHead {x eq toKw : Token} {ts ts₁ ts₂ ts₃ ts₄ rest : List Token}
    {lower upper : Expr} {f₁ f₂ f₃ f₄ f₅ : List Diagnostic}
    (hx : ReadsToken (endToken text) .identifier ts x ts₁ f₁)
    (heq : ReadsToken (endToken text) .equals ts₁ eq ts₂ f₂)
    (hlower : ReadsExpr (endToken text) ts₂ lower ts₃ f₃)
    (hto : ReadsToken (endToken text) .toKeyword ts₃ toKw ts₄ f₄)
    (hupper : ReadsExpr (endToken text) ts₄ upper rest f₅) (hr : r.scanner.StandsOn text ts) :
    Arrives text r (forHead r).found ⟨x, eq, lower, toKw, upper⟩ rest
      (f₁ ++ f₂ ++ f₃ ++ f₄ ++ f₅) := by
  have hname := arrives_expect hx hr
  have hsign := hname.both Prod.mk (arrives_expect heq hname.stands)
  have hlo := hsign.both Prod.mk (arrives_expr hlower hsign.stands)
  have htoKw := hlo.both Prod.mk (arrives_expect hto hlo.stands)
  exact htoKw.both (fun p e => Parsed.ForHead.mk p.1.1.1 p.1.1.2 p.1.2 p.2 e)
    (arrives_expr hupper htoKw.stands)

theorem arrives_round_of_used {t : Token} {s : Stmt} {dropped : List Token}
    (hread : ReadsStmt (endToken text) (t :: ts) s mid f dropped)
    (hused : mid.length < (t :: ts).length) (hr : r.scanner.StandsOn text (t :: ts))
    (hs : Arrives text r (stmt r).found s mid f) (h : r.kind ≠ .endOfFile) :
    Arrives text r (round r h).found s mid f := by
  have hlaid := (hread.laid ((stream_significant text).of_suffix hr.suffix)).suffix
  rw [found_round_of_moves h (Nat.ne_of_gt (start_lt_of_length_lt hr hs.stands hlaid hused))]
  exact hs

/-- A round whose statement uses no token skips one. -/
theorem arrives_round_of_idle {t : Token} {s : Stmt} {dropped : List Token}
    (hread : ReadsStmt (endToken text) (t :: ts) s mid f dropped)
    (hidle : ¬ mid.length < (t :: ts).length) (hr : r.scanner.StandsOn text (t :: ts))
    (hs : Arrives text r (stmt r).found s mid f) (h : r.kind ≠ .endOfFile) :
    Arrives text r (round r h).found s ts f := by
  have hlaid := (hread.laid ((stream_significant text).of_suffix hr.suffix)).suffix
  have hmid := hlaid.eq_of_length_le (Nat.le_of_not_lt hidle)
  have hstands : (stmt r).behind.scanner.StandsOn text (t :: ts) := hmid ▸ hs.stands
  have hstays : (stmt r).behind.start = r.start := by
    rw [start, start, token, token, hstands.token_eq, hr.token_eq]
  rw [found_round_of_stays h hstays]
  exact ⟨hs.phrase_eq, hstands.advance, hs.faults_eq⟩

mutual

theorem arrives_stmt {ts rest dropped : List Token} {s : Stmt} {f : List Diagnostic}
    {r : Reader} : ReadsStmt (endToken text) ts s rest f dropped → r.scanner.StandsOn text ts →
      Arrives text r (stmt r).found s rest f
  | .block ho h hclose, hr => by
    rw [found_stmt_of_openBrace ((kind_eq hr).trans ho)]
    have hbody := (arrives_take hr).both Prod.mk (arrives_stmts h hr.advance)
    exact hbody.both (fun p c => Stmt.block p.1 p.2 c) (arrives_expect hclose hbody.stands)
  | .declaration hk hx heq he, hr => by
    rw [found_stmt_of_declaration ((kind_eq hr).symm ▸ hk)]
    have hkeyword := arrives_take hr
    rw [show r.take.1 = _ from hkeyword.phrase_eq]
    exact hkeyword.both (fun _ s => s) (arrives_declaration hx heq he hkeyword.stands)
  | .ifThen hk he hs hend, hr => by
    have hcondition := (arrives_take hr).both Prod.mk (arrives_expr he hr.advance)
    have hthen := hcondition.both (fun p s => Stmt.ifThen p.1 p.2 s)
      (arrives_stmt hs hcondition.stands)
    rw [found_stmt_of_ifThen ((kind_eq hr).trans hk) ((kind_eq hthen.stands).trans_ne hend)]
    exact hthen
  | .ifElse hk he hs hel ht, hr => by
    have hcondition := (arrives_take hr).both Prod.mk (arrives_expr he hr.advance)
    have hthen := hcondition.both Prod.mk (arrives_stmt hs hcondition.stands)
    have helse := hthen.both Prod.mk (arrives_take hthen.stands)
    rw [found_stmt_of_ifElse ((kind_eq hr).trans hk) ((kind_eq hthen.stands).trans hel)]
    have hall := helse.both (fun p s => Stmt.ifElse p.1.1.1 p.1.1.2 p.1.2 p.2 s)
      (arrives_stmt ht helse.stands)
    rwa [List.nil_append, List.append_nil] at hall
  | .whileLoop hk he hs, hr => by
    rw [found_stmt_of_while ((kind_eq hr).trans hk)]
    have hcondition := (arrives_take hr).both Prod.mk (arrives_expr he hr.advance)
    exact hcondition.both (fun p s => Stmt.whileLoop p.1 p.2 s) (arrives_stmt hs hcondition.stands)
  | .forLoop hk hx heq hlower hto hupper hs, hr => by
    rw [found_stmt_of_for ((kind_eq hr).trans hk)]
    have hhead := (arrives_take hr).both Prod.mk
      (arrives_forHead hx heq hlower hto hupper hr.advance)
    exact hhead.both (fun p s => Stmt.forLoop p.1 p.2.identifier p.2.equals p.2.lower
      p.2.toKeyword p.2.upper s) (arrives_stmt hs hhead.stands)
  | .expression hkind h, hr => by
    rw [found_stmt_of_expression ((kind_eq hr).symm ▸ hkind)]
    exact (arrives_expr h hr).map Stmt.expression

theorem arrives_stmts {ts rest dropped : List Token} {ss : List Stmt} {f : List Diagnostic}
    {r : Reader} : ReadsStmts (endToken text) ts ss rest f dropped → r.scanner.StandsOn text ts →
      Arrives text r (stmts r).found ss rest f
  | .done hdone, hr => by
    have hend : r.kind = .endOfFile ∨ r.kind = .closeBrace := by
      rw [kind_eq hr]
      exact hdone.imp_left fun hnil => by rw [hnil]; rfl
    rw [found_stmts_of_done hend]
    exact .stay hr []
  | .used hopen h hused hrest, hr => by
    have hend : r.kind ≠ .endOfFile := ne_endOfFile_of_stands hr
    rw [found_stmts_of_round hend ((kind_eq hr).trans_ne hopen)]
    have hround := arrives_round_of_used h hused hr (arrives_stmt h hr) hend
    exact hround.both List.cons (arrives_stmts hrest hround.stands)
  | .idle hopen h hidle hrest, hr => by
    have hend : r.kind ≠ .endOfFile := ne_endOfFile_of_stands hr
    rw [found_stmts_of_round hend ((kind_eq hr).trans_ne hopen)]
    have hround := arrives_round_of_idle h hidle hr (arrives_stmt h hr) hend
    exact hround.both List.cons (arrives_stmts hrest hround.stands)

end

theorem arrives_endToken (hr : r.scanner.StandsOn text []) :
    Arrives text r (r.expect .endOfFile) (endToken text) [] [] := by
  have hkind : r.kind = .endOfFile := kind_eq hr
  rw [expect, if_pos hkind]
  exact ⟨hr.token_eq, hr.advance, (List.append_nil _).symm⟩

/-- The complaints of the scanner of a reader are those about the tokens up to its own one. -/
theorem diagnostics_eq (hr : r.scanner.StandsOn text ts) :
    r.scanner.diagnostics =
      Token.faults (readUpTo (ts.headD (endToken text)) (Token.scan text)) := by
  rw [← hr.token_eq]
  obtain ⟨n, hn, -⟩ := hr
  rw [hn, Scanner.diagnostics_eq_readUpTo]

theorem parse_of_arrives {p : Program} (h : Arrives text (ofText text) (ofText text).program p ts f) :
    parse text =
      ⟨text, p, Token.faults (readUpTo (ts.headD (endToken text)) (Token.scan text)) ++ f⟩ := by
  rw [parse]
  dsimp only
  rw [h.phrase_eq, h.faults_eq, Scanner.takeDiagnostics, diagnostics_eq h.stands]
  rfl

/-- A reader reads a text as the list of its tokens is read, and ends on a token of the text. -/
theorem parse_eq_and_stands (text : List Char) :
    parse text = Source.parse text ∧
      ∃ ts, (ofText text).program.2.scanner.StandsOn text ts := by
  have hfirst : (ofText text).scanner.StandsOn text (significant (Token.scan text)) :=
    Scanner.standsOn_first text
  have hread := Source.reads_parse text
  generalize Source.parse text = src at hread
  cases hread with
  | @whole s f h =>
    have hs := arrives_stmt h hfirst
    have hall : Arrives text (ofText text) (ofText text).program _ [] (f ++ []) :=
      hs.both Tree.Program.mk (arrives_endToken hs.stands)
    rw [List.append_nil] at hall
    exact ⟨parse_of_arrives hall, [], hall.stands⟩
  | @part s found rest f h =>
    have hs := arrives_stmt h hfirst
    have hend : next (found :: rest) ≠ .endOfFile := by
      rw [← kind_eq hs.stands]
      exact ne_endOfFile_of_stands hs.stands
    have hall : Arrives text (ofText text) (ofText text).program _ (found :: rest) _ :=
      hs.both Tree.Program.mk (arrives_expect (.missing hend) hs.stands)
    exact ⟨parse_of_arrives hall, found :: rest, hall.stands⟩

end Lumen.Reader
