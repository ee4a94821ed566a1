import Lumen.Proofs.Token.Spelling
import Lumen.Proofs.Tree.Reading

/-!
# Trees without positions

The rules of reading look at the kinds of tokens only, so a reading stays one when the positions of
all tokens are taken away, and its complaints lose their positions with them. Tokens are read in one
way only. Hence two texts whose tokens differ in position only are read as the same tree and with the
same complaints, up to positions.
-/

namespace Lumen

/-- A complaint without its position. -/
def Diagnostic.unplaced (d : Diagnostic) : Diagnostic := { d with span := ⟨0, d.span.length⟩ }

namespace Tree

def Expr.unplaced : Expr → Expr
  | literal t => literal t.unplaced
  | name t => name t.unplaced
  | unary op e => unary op.unplaced e.unplaced
  | binary l op r => binary l.unplaced op.unplaced r.unplaced
  | parenthesized o e c => parenthesized o.unplaced e.unplaced c.unplaced
  | assignment x eq e => assignment x.unplaced eq.unplaced e.unplaced

mutual

def Stmt.unplaced : Stmt → Stmt
  | .block o body c => .block o.unplaced (Stmt.unplacedOfList body) c.unplaced
  | .declaration k x eq e => .declaration k.unplaced x.unplaced eq.unplaced e.unplaced
  | .ifThen k e s => .ifThen k.unplaced e.unplaced s.unplaced
  | .ifElse k e s el t =>
    .ifElse k.unplaced e.unplaced s.unplaced el.unplaced t.unplaced
  | .whileLoop k e s => .whileLoop k.unplaced e.unplaced s.unplaced
  | .forLoop k x eq lo toKw hi s =>
    .forLoop k.unplaced x.unplaced eq.unplaced lo.unplaced toKw.unplaced hi.unplaced s.unplaced
  | .expression e => .expression e.unplaced

def Stmt.unplacedOfList : List Stmt → List Stmt
  | [] => []
  | s :: ss => s.unplaced :: Stmt.unplacedOfList ss

end

def Program.unplaced (p : Program) : Program := ⟨p.statement.unplaced, p.endToken.unplaced⟩

variable {last : Token}

@[simp] theorem next_map_unplaced (ts : List Token) : next (ts.map Token.unplaced) = next ts := by
  cases ts <;> rfl

theorem headD_map_unplaced (ts : List Token) :
    (ts.map Token.unplaced).headD last.unplaced = (ts.headD last).unplaced := by
  cases ts <;> rfl

theorem startsAssignment_map_unplaced {ts : List Token} :
    StartsAssignment (ts.map Token.unplaced) ↔ StartsAssignment ts := by
  match ts with
  | [] | [_] | _ :: _ :: _ => exact Iff.rfl

theorem ReadsToken.unplaced {kind : TokenKind} {ts rest : List Token} {t : Token}
    {f : List Diagnostic} : ReadsToken last kind ts t rest f →
      ReadsToken last.unplaced kind (ts.map .unplaced) t.unplaced (rest.map .unplaced)
        (f.map .unplaced)
  | .found h => .found h
  | .missing hnext => by
    have hread : ReadsToken last.unplaced kind (rest.map .unplaced) _ _ _ :=
      .missing (by rwa [next_map_unplaced])
    rwa [headD_map_unplaced] at hread

mutual

theorem ReadsExpr.unplaced {ts rest : List Token} {e : Expr} {f : List Diagnostic} :
    ReadsExpr last ts e rest f → ReadsExpr last.unplaced (ts.map .unplaced) e.unplaced
      (rest.map .unplaced) (f.map .unplaced)
  | .assignment hx heq h => .assignment hx heq h.unplaced
  | .binary hstart h => .binary (mt startsAssignment_map_unplaced.mp hstart) h.unplaced

theorem ReadsBinary.unplaced {parent : Precedence} {ts rest : List Token} {e : Expr}
    {f : List Diagnostic} : ReadsBinary last parent ts e rest f →
      ReadsBinary last.unplaced parent (ts.map .unplaced) e.unplaced (rest.map .unplaced)
        (f.map .unplaced)
  | .unary hop h hall => by
    rw [List.map_append]
    exact .unary hop h.unplaced hall.unplaced
  | .primary hnext h hall => by
    rw [List.map_append]
    exact .primary (by rwa [next_map_unplaced]) h.unplaced hall.unplaced

theorem ReadsOperators.unplaced {parent : Precedence} {left e : Expr} {ts rest : List Token}
    {f : List Diagnostic} : ReadsOperators last parent left ts e rest f →
      ReadsOperators last.unplaced parent left.unplaced (ts.map .unplaced) e.unplaced
        (rest.map .unplaced) (f.map .unplaced)
  | .stop hstop => .stop (by rwa [next_map_unplaced])
  | .step hop hlt h hall => by
    rw [List.map_append]
    exact .step hop hlt h.unplaced hall.unplaced

theorem ReadsPrimary.unplaced {ts rest : List Token} {e : Expr} {f : List Diagnostic} :
    ReadsPrimary last ts e rest f → ReadsPrimary last.unplaced (ts.map .unplaced) e.unplaced
      (rest.map .unplaced) (f.map .unplaced)
  | .parenthesized ho h hc => by
    rw [List.map_append]
    exact .parenthesized ho h.unplaced hc.unplaced
  | .truth h => .truth h
  | .name h => .name h
  | .number hnext h => .number (by rwa [next_map_unplaced]) h.unplaced

end

mutual

theorem ReadsStmt.unplaced {ts rest dropped : List Token} {s : Stmt} {f : List Diagnostic} :
    ReadsStmt last ts s rest f dropped → ReadsStmt last.unplaced (ts.map .unplaced) s.unplaced
      (rest.map .unplaced) (f.map .unplaced) (dropped.map .unplaced)
  | .block ho h hc => by
    rw [List.map_append]
    exact .block ho h.unplaced hc.unplaced
  | .declaration hk hx heq he => by
    rw [List.map_append, List.map_append]
    exact .declaration hk hx.unplaced heq.unplaced he.unplaced
  | .ifThen hk he hs hnext => by
    rw [List.map_append]
    exact .ifThen hk he.unplaced hs.unplaced (by rwa [next_map_unplaced])
  | .ifElse hk he hs hel ht => by
    rw [List.map_append, List.map_append, List.map_append]
    exact .ifElse hk he.unplaced hs.unplaced hel ht.unplaced
  | .whileLoop hk he hs => by
    rw [List.map_append]
    exact .whileLoop hk he.unplaced hs.unplaced
  | .forLoop hk hx heq hlo hto hhi hs => by
    simp only [List.map_append]
    exact .forLoop hk hx.unplaced heq.unplaced hlo.unplaced hto.unplaced hhi.unplaced hs.unplaced
  | .expression hnext h => .expression (by rwa [next_map_unplaced]) h.unplaced

theorem ReadsStmts.unplaced {ts rest dropped : List Token} {ss : List Stmt}
    {f : List Diagnostic} : ReadsStmts last ts ss rest f dropped →
      ReadsStmts last.unplaced (ts.map .unplaced) (Stmt.unplacedOfList ss) (rest.map .unplaced)
        (f.map .unplaced) (dropped.map .unplaced)
  | .done h => .done (h.imp (congrArg _) (by rw [next_map_unplaced]; exact id))
  | .used ht h hused hrest => by
    rw [List.map_append, List.map_append]
    exact .used ht h.unplaced (by simpa using hused) hrest.unplaced
  | .idle ht h hidle hrest => by
    rw [List.map_append, List.map_append]
    exact .idle ht h.unplaced (by simpa using hidle) hrest.unplaced

end

end Tree

end Lumen
