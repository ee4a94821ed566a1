import Lumen.Precedence
import Lumen.Token.Cursor
import Lumen.Tree

/-!
# Parsing

The parser reads phrases from the front of a list of significant tokens. It never fails: where a
token is missing it makes one up and complains, and it leaves what it cannot use. So the result of
reading a phrase is the phrase, the tokens behind it, which are at most as many as before, and the
complaints found on the way.

Binary operators are read by comparing their levels with that of the operator to the left. A name
followed by an equals sign starts an assignment. A block goes on to its closing brace or to the end
of the text; a statement in it that used no token is followed by dropping one, so the block ends.
-/

namespace Lumen.Tree

/-- A phrase read from the front of at most `n` tokens. -/
structure Parsed (α : Type) (n : Nat) where
  phrase : α
  rest : List Token
  faults : List Diagnostic
  rest_le : rest.length ≤ n

namespace Parsed

theorem mul_rest_lt {α : Type} {n k m : Nat} (p : Parsed α n) (h : k * n < m) :
    k * p.rest.length < m :=
  Nat.lt_of_le_of_lt (Nat.mul_le_mul_left k p.rest_le) h

theorem mul_rest_succ_lt {α : Type} {n : Nat} (p : Parsed α n) (h : p.rest.length < n) :
    2 * p.rest.length + 1 < 2 * n + 1 :=
  Nat.succ_lt_succ (Nat.mul_lt_mul_of_pos_left h Nat.two_pos)

/-- The complaint that a token of another kind was expected where one was found. -/
def unexpected (found : Token) (kind : TokenKind) : Diagnostic :=
  ⟨found.span, .unexpectedToken found.kind.name kind.name⟩

/-- Reads a token of a kind, or makes one up. -/
def token (last : Token) (kind : TokenKind) (ts : List Token) : Parsed Token ts.length :=
  match ts with
  | [] => ⟨.missing kind last.start, [], [unexpected last kind], Nat.le_refl _⟩
  | t :: rest =>
    if t.kind = kind then ⟨t, rest, [], Nat.le_succ _⟩
    else ⟨.missing kind t.start, t :: rest, [unexpected t kind], Nat.le_refl _⟩

/-- Reads a token of a kind if one stands there. -/
def token? (kind : TokenKind) (ts : List Token) : Option (Parsed Token ts.length) :=
  match ts with
  | [] => none
  | t :: rest => if t.kind = kind then some ⟨t, rest, [], Nat.le_succ _⟩ else none

variable (last : Token)

mutual

/-- Reads an expression as long as possible; assignments group to the right. -/
def expr (ts : List Token) : Parsed Expr ts.length :=
  match ts with
  | x :: eq :: rest =>
    if x.kind = .identifier ∧ eq.kind = .equals then
      let e := expr rest
      ⟨.assignment x eq e.phrase, e.rest, e.faults,
        Nat.le_succ_of_le (Nat.le_succ_of_le e.rest_le)⟩
    else binary .lowest (x :: eq :: rest)
  | ts => binary .lowest ts
termination_by 4 * ts.length + 3

/-- Reads an expression whose binary operators bind tighter than a level. -/
def binary (parent : Precedence) (ts : List Token) : Parsed Expr ts.length :=
  match ts with
  | [] =>
    let left := primary []
    let all := operators parent left.phrase left.rest
    ⟨all.phrase, all.rest, left.faults ++ all.faults, Nat.le_trans all.rest_le left.rest_le⟩
  | t :: rest =>
    if t.kind.isUnaryOperator then
      let operand := binary .unary rest
      let all := operators parent (.unary t operand.phrase) operand.rest
      ⟨all.phrase, all.rest, operand.faults ++ all.faults,
        Nat.le_succ_of_le (Nat.le_trans all.rest_le operand.rest_le)⟩
    else
      let left := primary (t :: rest)
      let all := operators parent left.phrase left.rest
      ⟨all.phrase, all.rest, left.faults ++ all.faults, Nat.le_trans all.rest_le left.rest_le⟩
termination_by 4 * ts.length + 2
decreasing_by
  · simp
  · exact mul_rest_lt _ (by simp)
  · simp only [List.length_cons]; omega
  · exact mul_rest_lt _ (by simp only [List.length_cons]; omega)
  · omega
  · exact mul_rest_lt _ (by omega)

/-- Extends an expression by the binary operators behind it that bind tighter than a level. -/
def operators (parent : Precedence) (left : Expr) (ts : List Token) : Parsed Expr ts.length :=
  match ts with
  | [] => ⟨left, [], [], Nat.le_refl _⟩
  | t :: rest =>
    match t.kind.binaryPrecedence? with
    | none => ⟨left, t :: rest, [], Nat.le_refl _⟩
    | some p =>
      if parent.rank < p.rank then
        let right := binary p rest
        let all := operators parent (.binary left t right.phrase) right.rest
        ⟨all.phrase, all.rest, right.faults ++ all.faults,
          Nat.le_succ_of_le (Nat.le_trans all.rest_le right.rest_le)⟩
      else ⟨left, t :: rest, [], Nat.le_refl _⟩
termination_by 4 * ts.length
decreasing_by
  · simp only [List.length_cons]; omega
  · exact mul_rest_lt _ (by simp only [List.length_cons]; omega)

def primary (ts : List Token) : Parsed Expr ts.length :=
  match ts with
  | [] =>
    let t := token last .number []
    ⟨.literal t.phrase, t.rest, t.faults, t.rest_le⟩
  | t :: rest =>
    match t.kind with
    | .openParen =>
      let e := expr rest
      let c := token last .closeParen e.rest
      ⟨.parenthesized t e.phrase c.phrase, c.rest, e.faults ++ c.faults,
        Nat.le_succ_of_le (Nat.le_trans c.rest_le e.rest_le)⟩
    | .trueKeyword | .falseKeyword => ⟨.literal t, rest, [], Nat.le_succ _⟩
    | .identifier => ⟨.name t, rest, [], Nat.le_succ _⟩
    | _ =>
      let n := token last .number (t :: rest)
      ⟨.literal n.phrase, n.rest, n.faults, n.rest_le⟩
termination_by 4 * ts.length + 1

end

def declaration (keyword : Token) (ts : List Token) : Parsed Stmt ts.length :=
  let x := token last .identifier ts
  let eq := token last .equals x.rest
  let e := expr last eq.rest
  ⟨.declaration keyword x.phrase eq.phrase e.phrase, e.rest, x.faults ++ eq.faults ++ e.faults,
    Nat.le_trans e.rest_le (Nat.le_trans eq.rest_le x.rest_le)⟩

/-- The parts of a loop over numbers before its body. -/
structure ForHead where
  identifier : Token
  equals : Token
  lower : Expr
  toKeyword : Token
  upper : Expr

def forHead (ts : List Token) : Parsed ForHead ts.length :=
  let x := token last .identifier ts
  let eq := token last .equals x.rest
  let lo := expr last eq.rest
  let toKw := token last .toKeyword lo.rest
  let hi := expr last toKw.rest
  ⟨⟨x.phrase, eq.phrase, lo.phrase, toKw.phrase, hi.phrase⟩, hi.rest,
    x.faults ++ eq.faults ++ lo.faults ++ toKw.faults ++ hi.faults,
    Nat.le_trans hi.rest_le (Nat.le_trans toKw.rest_le (Nat.le_trans lo.rest_le
      (Nat.le_trans eq.rest_le x.rest_le)))⟩

mutual

/-- Reads a statement. An else belongs to the nearest if before it. -/
def stmt (ts : List Token) : Parsed Stmt ts.length :=
  match ts with
  | [] =>
    let e := expr last []
    ⟨.expression e.phrase, e.rest, e.faults, e.rest_le⟩
  | t :: rest =>
    match t.kind with
    | .openBrace =>
      let body := stmts rest
      let c := token last .closeBrace body.rest
      ⟨.block t body.phrase c.phrase, c.rest, body.faults ++ c.faults,
        Nat.le_succ_of_le (Nat.le_trans c.rest_le body.rest_le)⟩
    | .varKeyword | .letKeyword =>
      let d := declaration last t rest
      ⟨d.phrase, d.rest, d.faults, Nat.le_succ_of_le d.rest_le⟩
    | .ifKeyword =>
      let e := expr last rest
      let s := stmt e.rest
      match token? .elseKeyword s.rest with
      | none =>
        ⟨.ifThen t e.phrase s.phrase, s.rest, e.faults ++ s.faults,
          Nat.le_succ_of_le (Nat.le_trans s.rest_le e.rest_le)⟩
      | some el =>
        let u := stmt el.rest
        ⟨.ifElse t e.phrase s.phrase el.phrase u.phrase, u.rest,
          e.faults ++ s.faults ++ u.faults,
          Nat.le_succ_of_le (Nat.le_trans u.rest_le (Nat.le_trans el.rest_le
            (Nat.le_trans s.rest_le e.rest_le)))⟩
    | .whileKeyword =>
      let e := expr last rest
      let s := stmt e.rest
      ⟨.whileLoop t e.phrase s.phrase, s.rest, e.faults ++ s.faults,
        Nat.le_succ_of_le (Nat.le_trans s.rest_le e.rest_le)⟩
    | .forKeyword =>
      let h := forHead last rest
      let s := stmt h.rest
      ⟨.forLoop t h.phrase.identifier h.phrase.equals h.phrase.lower h.phrase.toKeyword
          h.phrase.upper s.phrase,
        s.rest, h.faults ++ s.faults, Nat.le_succ_of_le (Nat.le_trans s.rest_le h.rest_le)⟩
    | _ =>
      let e := expr last (t :: rest)
      ⟨.expression e.phrase, e.rest, e.faults, e.rest_le⟩
termination_by 2 * ts.length
decreasing_by
  · simp only [List.length_cons]; omega
  · exact mul_rest_lt _ (by simp only [List.length_cons]; omega)
  · exact mul_rest_lt _ (mul_rest_lt _ (mul_rest_lt _ (by simp only [List.length_cons]; omega)))
  · exact mul_rest_lt _ (by simp only [List.length_cons]; omega)
  · exact mul_rest_lt _ (by simp only [List.length_cons]; omega)

/-- Reads statements up to a closing brace or the end of the text. -/
def stmts (ts : List Token) : Parsed (List Stmt) ts.length :=
  match ts with
  | [] => ⟨[], [], [], Nat.le_refl _⟩
  | t :: rest =>
    if t.kind = .closeBrace then ⟨[], t :: rest, [], Nat.le_refl _⟩
    else
      let s := stmt (t :: rest)
      if _used : s.rest.length < (t :: rest).length then
        let more := stmts s.rest
        ⟨s.phrase :: more.phrase, more.rest, s.faults ++ more.faults,
          Nat.le_trans more.rest_le s.rest_le⟩
      else
        let more := stmts rest
        ⟨s.phrase :: more.phrase, more.rest, s.faults ++ more.faults,
          Nat.le_succ_of_le more.rest_le⟩
termination_by 2 * ts.length + 1
decreasing_by
  · exact Nat.lt_succ_self _
  · exact mul_rest_succ_lt _ _used
  · clear _used
    simp only [List.length_cons]; omega

end

def program (ts : List Token) : Parsed Program ts.length :=
  let s := stmt last ts
  match s.rest.head? with
  | none => ⟨⟨s.phrase, last⟩, s.rest, s.faults, s.rest_le⟩
  | some t =>
    ⟨⟨s.phrase, .missing .endOfFile t.start⟩, s.rest, s.faults ++ [unexpected t .endOfFile],
      s.rest_le⟩

end Parsed

end Lumen.Tree
