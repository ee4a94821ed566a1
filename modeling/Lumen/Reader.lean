import Lumen.Scanner
import Lumen.Source

/-!
# Readers

A reader parses a text while it scans the text. It stands on a token of a scanner, takes it by going
on to the next token that is no stray character, and makes a token up where one is missing. Where a
name may start an assignment, it looks at the token behind the name, and the scanner is put back. So
a reader gives the tree and the complaints of a text without a list of its tokens.

Reading a phrase leaves the scanner as it is or less of the text to come. Behind a statement of a
block that leaves the reader at its position, one token is skipped, so each round of a block leaves
less to come, and all reading comes to an end.
-/

namespace Lumen

/-- Reading a token that is not the end token leaves fewer characters. -/
theorem Cursor.length_rest_next [Xid] (c : Cursor) :
    c.next.2.rest.length + (if c.next.1.kind = .endOfFile then 0 else 1) ≤ c.rest.length := by
  have hskip := c.length_rest_skipLayout_le
  rw [next]
  dsimp only
  cases hread : c.skipLayout.rest with
  | nil => simp [endToken, hread]
  | cons d ds =>
    have hlt := Lexeme.length_rest_head_lt d ds
    rw [hread] at hskip
    have hone : (if ((Lexeme.head d ds).toToken c.skipLayout.position).kind = .endOfFile then 0 else 1)
        ≤ 1 := by split <;> omega
    dsimp only [behind]
    omega

namespace Scanner

/-- What is left of a text: its characters behind the current token, and that token if it is not the
end token. -/
def remaining (s : Scanner) : Nat :=
  s.cursor.rest.length + if s.token.kind = .endOfFile then 0 else 1

/-- A scanner that has only been read on from a place comes back to it. -/
theorem restore_of_extends {s t : Scanner} (h : s.diagnostics <+: t.diagnostics) :
    t.restore s.mark = s := by
  rw [restore, mark]
  dsimp only
  rw [← List.prefix_iff_eq_take.mp h]

variable [Xid]

theorem remaining_scan_le (s : Scanner) : s.scan.remaining ≤ s.cursor.rest.length :=
  s.cursor.length_rest_next

/-- Reads on to the next token that is no stray character. -/
def advance (s : Scanner) : Scanner :=
  let t := s.scan
  if _stray : t.token.kind = .unknown then t.advance else t
termination_by s.cursor.rest.length
decreasing_by
  have hle := s.remaining_scan_le
  rw [remaining, if_neg (by rw [_stray]; decide)] at hle
  exact hle

theorem remaining_advance_le (s : Scanner) : s.advance.remaining ≤ s.cursor.rest.length := by
  fun_induction advance s with
  | case1 s t _ ih => exact Nat.le_trans ih (Nat.le_trans (Nat.le_add_right _ _) s.remaining_scan_le)
  | case2 s t _ => exact s.remaining_scan_le

theorem remaining_advance_lt {s : Scanner} (h : s.token.kind ≠ .endOfFile) :
    s.advance.remaining < s.remaining := by
  have hremaining : s.remaining = s.cursor.rest.length + 1 := by rw [remaining, if_neg h]
  exact hremaining ▸ Nat.lt_succ_of_le s.remaining_advance_le

theorem diagnostics_prefix_advance (s : Scanner) : s.diagnostics <+: s.advance.diagnostics := by
  have hscan (s : Scanner) : s.diagnostics <+: s.scan.diagnostics := List.prefix_append _ _
  fun_induction advance s with
  | case1 s t _ ih => exact (hscan s).trans ih
  | case2 s t _ => exact hscan s

/-- The kind of the token behind the current one, and the scanner put back. -/
def peek (s : Scanner) : TokenKind × Scanner :=
  s.lookAhead fun t => (t.advance.token.kind, t.advance)

theorem peek_eq (s : Scanner) : s.peek = (s.advance.token.kind, s) :=
  congrArg (Prod.mk _) (restore_of_extends s.diagnostics_prefix_advance)

end Scanner

/-- A scanner that stands on a token, and the complaints of reading so far. -/
structure Reader where
  scanner : Scanner
  faults : List Diagnostic

namespace Reader

open Lumen.Tree (Expr Stmt)
open Lumen.Tree.Parsed (ForHead unexpected)

def token (r : Reader) : Token := r.scanner.token

def kind (r : Reader) : TokenKind := r.token.kind

def start (r : Reader) : Nat := r.token.start

def remaining (r : Reader) : Nat := r.scanner.remaining

/-- Whether a reader has not moved, or has left less of the text to come. -/
def Ahead (r b : Reader) : Prop := b.scanner = r.scanner ∨ b.remaining < r.remaining

section

variable {r b c : Reader}

theorem Ahead.refl (r : Reader) : r.Ahead r := .inl rfl

theorem Ahead.remaining_le (h : r.Ahead b) : b.remaining ≤ r.remaining := by
  rcases h with heq | hlt
  · exact Nat.le_of_eq (congrArg Scanner.remaining heq)
  · exact Nat.le_of_lt hlt

theorem Ahead.lt_of_lt (h : b.Ahead c) (hlt : b.remaining < r.remaining) :
    c.remaining < r.remaining :=
  Nat.lt_of_le_of_lt h.remaining_le hlt

theorem Ahead.trans (h : r.Ahead b) (h' : b.Ahead c) : r.Ahead c := by
  rcases h' with heq | hlt
  · rcases h with heq' | hlt
    · exact .inl (heq.trans heq')
    · exact .inr (Nat.lt_of_le_of_lt (Nat.le_of_eq (congrArg Scanner.remaining heq)) hlt)
  · exact .inr (Nat.lt_of_lt_of_le hlt h.remaining_le)

theorem ne_endOfFile_of_isUnaryOperator (h : r.kind.isUnaryOperator = true) :
    r.kind ≠ .endOfFile := by
  intro hkind
  rw [hkind] at h
  cases h

theorem ne_endOfFile_of_binaryPrecedence? {p : Precedence}
    (h : r.kind.binaryPrecedence? = some p) : r.kind ≠ .endOfFile := by
  intro hkind
  rw [hkind] at h
  cases h

theorem ne_endOfFile_of_eq {kind : TokenKind} (h : r.kind = kind) (hkind : kind ≠ .endOfFile) :
    r.kind ≠ .endOfFile :=
  h ▸ hkind

end

structure Read (α : Type) (r : Reader) where
  phrase : α
  behind : Reader
  ahead : r.Ahead behind

theorem mul_remaining_lt {α : Type} {r : Reader} (p : Read α r) {k n : Nat}
    (h : k * r.remaining < n) : k * p.behind.remaining < n :=
  Nat.lt_of_le_of_lt (Nat.mul_le_mul_left k p.ahead.remaining_le) h

variable [Xid]

def ofText (text : List Char) : Reader := ⟨(Scanner.ofText text).advance, []⟩

def take (r : Reader) : Token × Reader := (r.token, ⟨r.scanner.advance, r.faults⟩)

/-- Takes a token of a kind, or complains and makes one up. -/
def expect (r : Reader) (kind : TokenKind) : Token × Reader :=
  if r.kind = kind then r.take
  else (.missing kind r.start, ⟨r.scanner, r.faults ++ [unexpected r.token kind]⟩)

/-- Whether a name and an equals sign come, and the reader put back. -/
def startsAssignment (r : Reader) : Bool × Reader :=
  if r.kind = .identifier then
    let (next, s) := r.scanner.peek
    (next = .equals, ⟨s, r.faults⟩)
  else (false, r)

theorem startsAssignment_eq (r : Reader) : r.startsAssignment =
    (decide (r.kind = .identifier ∧ r.scanner.advance.token.kind = .equals), r) := by
  rw [startsAssignment, Scanner.peek_eq]
  split
  · next h => simp [h]
  · next h => simp [h]

section

variable {r : Reader}

theorem remaining_take_lt (h : r.kind ≠ .endOfFile) : r.take.2.remaining < r.remaining :=
  Scanner.remaining_advance_lt h

theorem remaining_take_le (r : Reader) : r.take.2.remaining ≤ r.remaining :=
  Nat.le_trans r.scanner.remaining_advance_le (Nat.le_add_right _ _)

theorem ahead_take (h : r.kind ≠ .endOfFile) : r.Ahead r.take.2 := .inr (remaining_take_lt h)

theorem ahead_expect {kind : TokenKind} (h : kind ≠ .endOfFile) : r.Ahead (r.expect kind).2 := by
  rw [expect]
  split
  · next hkind => exact ahead_take (hkind ▸ h)
  · exact .inl rfl

theorem ahead_startsAssignment (r : Reader) : r.Ahead r.startsAssignment.2 := by
  rw [startsAssignment_eq]
  exact .refl r

/-- A name and an equals sign that are taken leave less to come. -/
theorem remaining_assignment_lt (h : r.startsAssignment.1 = true) :
    r.startsAssignment.2.take.2.take.2.remaining < r.remaining := by
  rw [startsAssignment_eq] at h ⊢
  have hkind : r.kind ≠ .endOfFile := by
    rw [(of_decide_eq_true h).1]
    decide
  exact Nat.lt_of_le_of_lt (remaining_take_le _) (remaining_take_lt hkind)

end

-- What has been read is named by `have`: the proofs below use no more of it than its type, which says
-- where the reader behind it is.

mutual

/-- Reads an expression as long as possible; assignments group to the right. -/
def expr (r : Reader) : Read Expr r :=
  let p := r.startsAssignment
  if _starts : p.1 = true then
    let x := p.2.take
    let eq := x.2.take
    have e := expr eq.2
    ⟨.assignment x.1 eq.1 e.phrase, e.behind,
      .inr (e.ahead.lt_of_lt (remaining_assignment_lt _starts))⟩
  else
    have e := binary .lowest p.2
    ⟨e.phrase, e.behind, (ahead_startsAssignment r).trans e.ahead⟩
termination_by 4 * r.remaining + 3
decreasing_by
  · have hlt := remaining_assignment_lt _starts
    omega
  · have hle := (ahead_startsAssignment r).remaining_le
    omega

def binary (parent : Precedence) (r : Reader) : Read Expr r :=
  if _unary : r.kind.isUnaryOperator = true then
    let op := r.take
    have operand := binary .unary op.2
    have all := operators parent (.unary op.1 operand.phrase) operand.behind
    ⟨all.phrase, all.behind, (ahead_take (ne_endOfFile_of_isUnaryOperator _unary)).trans
      (operand.ahead.trans all.ahead)⟩
  else
    have left := primary r
    have all := operators parent left.phrase left.behind
    ⟨all.phrase, all.behind, left.ahead.trans all.ahead⟩
termination_by 4 * r.remaining + 2
decreasing_by
  · have hlt := remaining_take_lt (ne_endOfFile_of_isUnaryOperator _unary)
    omega
  · have hlt := remaining_take_lt (ne_endOfFile_of_isUnaryOperator _unary)
    exact mul_remaining_lt _ (by omega)
  · omega
  · exact mul_remaining_lt _ (by omega)

/-- Extends an expression by the binary operators behind it that bind tighter than a level. -/
def operators (parent : Precedence) (left : Expr) (r : Reader) : Read Expr r :=
  match _op : r.kind.binaryPrecedence? with
  | none => ⟨left, r, .refl r⟩
  | some p =>
    if parent.rank < p.rank then
      let op := r.take
      have right := binary p op.2
      have all := operators parent (.binary left op.1 right.phrase) right.behind
      ⟨all.phrase, all.behind, (ahead_take (ne_endOfFile_of_binaryPrecedence? _op)).trans
        (right.ahead.trans all.ahead)⟩
    else ⟨left, r, .refl r⟩
termination_by 4 * r.remaining
decreasing_by
  all_goals have hlt := remaining_take_lt (ne_endOfFile_of_binaryPrecedence? _op)
  · omega
  · exact mul_remaining_lt _ (by omega)

def primary (r : Reader) : Read Expr r :=
  match _kind : r.kind with
  | .openParen =>
    let o := r.take
    have e := expr o.2
    let c := e.behind.expect .closeParen
    ⟨.parenthesized o.1 e.phrase c.1, c.2, (ahead_take (ne_endOfFile_of_eq _kind (by decide))).trans
      (e.ahead.trans (ahead_expect (by decide)))⟩
  | .trueKeyword | .falseKeyword =>
    ⟨.literal r.take.1, r.take.2, ahead_take (ne_endOfFile_of_eq _kind (by decide))⟩
  | .identifier =>
    ⟨.name r.take.1, r.take.2, ahead_take (ne_endOfFile_of_eq _kind (by decide))⟩
  | _ => ⟨.literal (r.expect .number).1, (r.expect .number).2, ahead_expect (by decide)⟩
termination_by 4 * r.remaining + 1
decreasing_by
  have hlt := remaining_take_lt (ne_endOfFile_of_eq _kind (by decide))
  omega

end

def declaration (keyword : Token) (r : Reader) : Read Stmt r :=
  let x := r.expect .identifier
  let eq := x.2.expect .equals
  have e := expr eq.2
  ⟨.declaration keyword x.1 eq.1 e.phrase, e.behind,
    (ahead_expect (by decide)).trans ((ahead_expect (by decide)).trans e.ahead)⟩

/-- Reads a loop over numbers from behind its keyword up to its body. -/
def forHead (r : Reader) : Read ForHead r :=
  let x := r.expect .identifier
  let eq := x.2.expect .equals
  have lo := expr eq.2
  let toKw := lo.behind.expect .toKeyword
  have hi := expr toKw.2
  ⟨⟨x.1, eq.1, lo.phrase, toKw.1, hi.phrase⟩, hi.behind,
    (ahead_expect (by decide)).trans ((ahead_expect (by decide)).trans
      (lo.ahead.trans ((ahead_expect (by decide)).trans hi.ahead)))⟩

/-- A statement of a block, and the reader behind it, which has less of the text to come. -/
structure Round (r : Reader) where
  statement : Stmt
  behind : Reader
  remaining_lt : behind.remaining < r.remaining

mutual

/-- Reads a statement. An else belongs to the nearest if before it. -/
def stmt (r : Reader) : Read Stmt r :=
  match _kind : r.kind with
  | .openBrace =>
    let o := r.take
    have body := stmts o.2
    let c := body.behind.expect .closeBrace
    ⟨.block o.1 body.phrase c.1, c.2, (ahead_take (ne_endOfFile_of_eq _kind (by decide))).trans
      (body.ahead.trans (ahead_expect (by decide)))⟩
  | .varKeyword | .letKeyword =>
    let k := r.take
    have d := declaration k.1 k.2
    ⟨d.phrase, d.behind, (ahead_take (ne_endOfFile_of_eq _kind (by decide))).trans d.ahead⟩
  | .ifKeyword =>
    let k := r.take
    have e := expr k.2
    have s := stmt e.behind
    have hahead : r.Ahead s.behind :=
      (ahead_take (ne_endOfFile_of_eq _kind (by decide))).trans (e.ahead.trans s.ahead)
    if _else : s.behind.kind = .elseKeyword then
      let el := s.behind.take
      have u := stmt el.2
      ⟨.ifElse k.1 e.phrase s.phrase el.1 u.phrase, u.behind,
        hahead.trans ((ahead_take (ne_endOfFile_of_eq _else (by decide))).trans u.ahead)⟩
    else ⟨.ifThen k.1 e.phrase s.phrase, s.behind, hahead⟩
  | .whileKeyword =>
    let k := r.take
    have e := expr k.2
    have s := stmt e.behind
    ⟨.whileLoop k.1 e.phrase s.phrase, s.behind,
      (ahead_take (ne_endOfFile_of_eq _kind (by decide))).trans (e.ahead.trans s.ahead)⟩
  | .forKeyword =>
    let k := r.take
    have h := forHead k.2
    have s := stmt h.behind
    ⟨.forLoop k.1 h.phrase.identifier h.phrase.equals h.phrase.lower h.phrase.toKeyword
        h.phrase.upper s.phrase, s.behind,
      (ahead_take (ne_endOfFile_of_eq _kind (by decide))).trans (h.ahead.trans s.ahead)⟩
  | _ =>
    have e := expr r
    ⟨.expression e.phrase, e.behind, e.ahead⟩
termination_by 3 * r.remaining
decreasing_by
  all_goals have hlt := remaining_take_lt (ne_endOfFile_of_eq _kind (by decide))
  · omega
  · exact mul_remaining_lt _ (by omega)
  · refine Nat.lt_of_le_of_lt (Nat.mul_le_mul_left 3 (remaining_take_le _)) ?_
    exact mul_remaining_lt _ (mul_remaining_lt _ (by omega))
  · exact mul_remaining_lt _ (by omega)
  · exact mul_remaining_lt _ (by omega)

/-- One round of a block: reads a statement, and skips a token if the statement does not move the
reader. -/
def round (r : Reader) (h : r.kind ≠ .endOfFile) : Round r :=
  have s := stmt r
  if _stays : s.behind.start = r.start then
    ⟨s.phrase, s.behind.take.2, by
      rcases s.ahead with heq | hlt
      · have hkind : s.behind.kind = r.kind := congrArg (·.token.kind) heq
        exact Nat.lt_of_lt_of_le (remaining_take_lt (hkind ▸ h)) s.ahead.remaining_le
      · exact Nat.lt_of_le_of_lt (remaining_take_le _) hlt⟩
  else
    ⟨s.phrase, s.behind, by
      rcases s.ahead with heq | hlt
      · exact absurd (congrArg (·.token.start) heq) _stays
      · exact hlt⟩
termination_by 3 * r.remaining + 1

def stmts (r : Reader) : Read (List Stmt) r :=
  if _done : r.kind = .endOfFile ∨ r.kind = .closeBrace then ⟨[], r, .refl r⟩
  else
    have first := round r fun hend => _done (.inl hend)
    have more := stmts first.behind
    ⟨first.statement :: more.phrase, more.behind, .inr (more.ahead.lt_of_lt first.remaining_lt)⟩
termination_by 3 * r.remaining + 2
decreasing_by
  · omega
  · exact Nat.add_lt_add_right (Nat.mul_lt_mul_of_pos_left (Round.remaining_lt _) (by decide)) 2

end

def program (r : Reader) : Tree.Program × Reader :=
  have s := stmt r
  let e := s.behind.expect .endOfFile
  (⟨s.phrase, e.1⟩, e.2)

/-- Reads a text as a program; the complaints of the scanner come first. -/
def parse (text : List Char) : Source :=
  let (program, r) := (ofText text).program
  ⟨text, program, r.scanner.takeDiagnostics.1 ++ r.faults⟩

end Reader

end Lumen
