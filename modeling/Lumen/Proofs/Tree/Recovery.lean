import Lumen.Proofs.Tree.Reading

/-!
# The costs of recovery

How often a reading complains, against the tokens that it uses. An expression makes up at most one
token besides one for each token that it uses. A loop over numbers may make up six tokens behind its
keyword, and no statement makes up more for each token; so a statement that uses no token makes up
one, and all others at most six for each token, the tokens that blocks drop included.
-/

namespace Lumen.Tree

variable {last : Token} {kind : TokenKind} {ts mid rest : List Token} {f g : List Diagnostic}
  {rate extra extra' : Nat}

/-- Whether a reading complains at most so often for each token that it uses, and so often
besides. -/
structure Bounded (rate extra : Nat) (ts rest : List Token) (faults : List Diagnostic) : Prop where
  length_le : rest.length ≤ ts.length
  faults_le : faults.length + rate * rest.length ≤ rate * ts.length + extra

namespace Bounded

theorem nil (rate : Nat) (ts : List Token) : Bounded rate 0 ts ts [] :=
  ⟨Nat.le_refl _, by simp⟩

theorem append (h : Bounded rate extra ts mid f) (h' : Bounded rate extra' mid rest g) :
    Bounded rate (extra + extra') ts rest (f ++ g) where
  length_le := Nat.le_trans h'.length_le h.length_le
  faults_le := by
    have hf := h.faults_le
    have hg := h'.faults_le
    rw [List.length_append]
    omega

/-- A token that is used pays for some complaints. -/
theorem cons (t : Token) (h : Bounded rate (extra + rate) ts rest f) :
    Bounded rate extra (t :: ts) rest f where
  length_le := Nat.le_succ_of_le h.length_le
  faults_le := by
    have hf := h.faults_le
    rw [List.length_cons, Nat.mul_succ]
    omega

theorem mono (h : Bounded rate extra ts rest f) (hle : extra ≤ extra') :
    Bounded rate extra' ts rest f :=
  ⟨h.length_le, Nat.le_trans h.faults_le (Nat.add_le_add_left hle _)⟩

theorem mono_rate {rate' : Nat} (h : Bounded rate extra ts rest f) (hle : rate ≤ rate') :
    Bounded rate' extra ts rest f where
  length_le := h.length_le
  faults_le := by
    obtain ⟨more, rfl⟩ := Nat.exists_eq_add_of_le hle
    have hf := h.faults_le
    have hmore := Nat.mul_le_mul_left more h.length_le
    rw [Nat.add_mul, Nat.add_mul]
    omega

end Bounded

theorem ReadsToken.bounded {t : Token} (h : ReadsToken last kind ts t rest f) :
    Bounded 1 1 ts rest f := by
  cases h with
  | found _ => exact ((Bounded.nil 1 _).mono (Nat.zero_le 2)).cons _
  | missing _ => exact ⟨Nat.le_refl _, by simp; omega⟩

mutual

/-- An expression makes up at most one token besides one for each token that it uses. -/
theorem ReadsExpr.bounded {ts rest : List Token} {e : Expr} {f : List Diagnostic} :
    ReadsExpr last ts e rest f → Bounded 1 1 ts rest f
  | .assignment _ _ h => ((h.bounded.mono (by decide)).cons _).cons _
  | .binary _ h => h.bounded

theorem ReadsBinary.bounded {parent : Precedence} {ts rest : List Token} {e : Expr}
    {f : List Diagnostic} : ReadsBinary last parent ts e rest f → Bounded 1 1 ts rest f
  | .unary _ h hall => ((h.bounded.append hall.bounded).mono (by decide)).cons _
  | .primary _ h hall => h.bounded.append hall.bounded

/-- The operators behind an expression pay for what is made up. -/
theorem ReadsOperators.bounded {parent : Precedence} {ts rest : List Token} {left e : Expr}
    {f : List Diagnostic} :
    ReadsOperators last parent left ts e rest f → Bounded 1 0 ts rest f
  | .stop _ => .nil 1 _
  | .step _ _ h hall => (h.bounded.append hall.bounded).cons _

theorem ReadsPrimary.bounded {ts rest : List Token} {e : Expr} {f : List Diagnostic} :
    ReadsPrimary last ts e rest f → Bounded 1 1 ts rest f
  | .parenthesized _ h hclose => (h.bounded.append hclose.bounded).cons _
  | .truth _ => ((Bounded.nil 1 _).mono (Nat.zero_le 2)).cons _
  | .name _ => ((Bounded.nil 1 _).mono (Nat.zero_le 2)).cons _
  | .number _ h => h.bounded

end

/-- Whether a reading complains at most once, and at most six times for each token that it uses if
it uses one. -/
structure Covered (ts rest : List Token) (faults : List Diagnostic) : Prop where
  bounded : Bounded 6 1 ts rest faults
  of_used : rest.length < ts.length → Bounded 6 0 ts rest faults

theorem Covered.of_cons {t : Token} (h : Bounded 6 6 ts rest f) : Covered (t :: ts) rest f :=
  have hpaid : Bounded 6 0 (t :: ts) rest f := h.cons t
  ⟨hpaid.mono (Nat.zero_le 1), fun _ => hpaid⟩

/-- Behind a statement that uses no token, the one that is dropped pays for the one that is made
up. -/
theorem Covered.of_idle {t : Token} (h : Covered (t :: ts) mid f)
    (hidle : ¬ mid.length < (t :: ts).length) : Bounded 6 0 (t :: ts) ts f where
  length_le := Nat.le_succ _
  faults_le := by
    have hf := h.bounded.faults_le
    rw [List.length_cons] at hf hidle ⊢
    omega

theorem ReadsToken.bounded_six {t : Token} (h : ReadsToken last kind ts t rest f) :
    Bounded 6 1 ts rest f :=
  h.bounded.mono_rate (by decide)

theorem ReadsExpr.bounded_six {e : Expr} (h : ReadsExpr last ts e rest f) :
    Bounded 6 1 ts rest f :=
  h.bounded.mono_rate (by decide)

theorem ReadsExpr.covered {e : Expr} (h : ReadsExpr last ts e rest f) : Covered ts rest f where
  bounded := h.bounded_six
  of_used hlt := by
    have hf := h.bounded.faults_le
    exact ⟨Nat.le_of_lt hlt, by omega⟩

mutual

/-- A statement that uses no token makes up at most one, and any other one at most six for each token
that it uses. -/
theorem ReadsStmt.covered {ts rest dropped : List Token} {s : Stmt} {f : List Diagnostic} :
    ReadsStmt last ts s rest f dropped → Covered ts rest f
  | .block _ h hclose => .of_cons ((h.bounded.append hclose.bounded_six).mono (by decide))
  | .declaration _ hx heq he =>
    .of_cons (((hx.bounded_six.append heq.bounded_six).append he.bounded_six).mono (by decide))
  | .ifThen _ he hs _ => .of_cons ((he.bounded_six.append hs.covered.bounded).mono (by decide))
  | .ifElse _ he hs _ ht =>
    have helse := (ht.covered.bounded.mono (by decide : 1 ≤ 0 + 6)).cons _
    .of_cons (((he.bounded_six.append hs.covered.bounded).append helse).mono (by decide))
  | .whileLoop _ he hs => .of_cons ((he.bounded_six.append hs.covered.bounded).mono (by decide))
  | .forLoop _ hx heq hlower hto hupper hs =>
    have hlo := (hx.bounded_six.append heq.bounded_six).append hlower.bounded_six
    have hhi := (hlo.append hto.bounded_six).append hupper.bounded_six
    .of_cons (hhi.append hs.covered.bounded)
  | .expression _ h => h.covered

theorem ReadsStmts.bounded {ts rest dropped : List Token} {ss : List Stmt} {f : List Diagnostic} :
    ReadsStmts last ts ss rest f dropped → Bounded 6 0 ts rest f
  | .done _ => .nil 6 _
  | .used _ h hused hrest => (h.covered.of_used hused).append hrest.bounded
  | .idle _ h hidle hrest => (h.covered.of_idle hidle).append hrest.bounded

end

end Lumen.Tree
