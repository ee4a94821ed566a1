import Lumen.Bound.Lower
import Lumen.Proofs.Machine.Moments

/-!
# Typing

An expression is well typed if its operators stand in the tables and are applied to operands of
their types, and a store is if it holds values of the types of its variables. Evaluating a well
typed expression on a well typed store gives a value of its type, writes values of the right types
only, and never meets a value of a wrong type. Lowering keeps statements well typed, among them the
comparisons and sums that it makes for loops over numbers.
-/

namespace Lumen

variable {s s' : Store} {v : Variable} {x : Value} {t : Ty}

/-- Whether a store holds a value of the right type for each of its variables. -/
def Store.WellTyped (s : Store) : Prop := ∀ e ∈ s.entries, e.value.type = e.key.type

theorem Store.wellTyped_empty : (∅ : Store).WellTyped := List.forall_mem_nil _

theorem Store.WellTyped.type_of_get? (hs : s.WellTyped) (h : s.get? v = some x) :
    x.type = v.type := by
  obtain ⟨entries⟩ := s
  change Store.find v entries = some x at h
  induction entries with
  | nil => cases h
  | cons e es ih =>
    rw [Store.find] at h
    split at h
    · next hkey =>
      cases h
      rw [hs e List.mem_cons_self, hkey]
    · exact ih (fun d hd => hs d (List.mem_cons_of_mem e hd)) h

theorem Store.WellTyped.set (hs : s.WellTyped) (hx : x.type = v.type) :
    (s.set v x).WellTyped := by
  obtain ⟨entries⟩ := s
  change ∀ e ∈ Store.write v x entries, e.value.type = e.key.type
  induction entries with
  | nil =>
    intro e he
    cases List.mem_singleton.mp he
    exact hx
  | cons d es ih =>
    have hes : ∀ e ∈ es, e.value.type = e.key.type := fun e he => hs e (List.mem_cons_of_mem d he)
    rw [Store.write]
    split
    · exact List.forall_mem_cons.mpr ⟨hx, hes⟩
    · exact List.forall_mem_cons.mpr ⟨hs d List.mem_cons_self, ih hes⟩

def Access.WellTyped : Access → Prop
  | read _ => True
  | write v x => x.type = v.type

theorem Moment.Lead.wellTyped {ms : List Moment} (h : Moment.Lead s ms s') (hs : s.WellTyped)
    (hms : ∀ m ∈ ms, m.access.WellTyped) :
    s'.WellTyped ∧ ∀ m ∈ ms, m.before.WellTyped ∧ m.after.WellTyped := by
  refine h.invariant hs fun m hm hbefore => ?_
  obtain ⟨before, access⟩ := m
  cases access with
  | read v => exact hbefore
  | write v x => exact hbefore.set (hms _ hm)

def Fault.IsInvalidOperand : Fault → Prop
  | invalidOperand .. => True
  | _ => False

/-- Whether an outcome is a value of a type or a fault that well typed programs may have. -/
def Outcome.HasType (t : Ty) : Outcome Value → Prop
  | done x _ => x.type = t
  | fault f _ => ¬ f.IsInvalidOperand

theorem UnaryOperator.resolve?_eq_some {k : TokenKind} {τ : Ty} {o : UnaryOperator} :
    resolve? k τ = some o ↔ o ∈ table ∧ o.token = k ∧ o.operand = τ := by
  constructor
  · intro h
    exact ⟨List.mem_of_find?_eq_some h, by simpa using List.find?_some h⟩
  · rintro ⟨ho, rfl, rfl⟩
    have hunique : ∀ o ∈ table, resolve? o.token o.operand = some o := by decide
    exact hunique o ho

theorem BinaryOperator.resolve?_eq_some {k : TokenKind} {τ τ' : Ty} {o : BinaryOperator} :
    resolve? k τ τ' = some o ↔ o ∈ table ∧ o.token = k ∧ o.left = τ ∧ o.right = τ' := by
  constructor
  · intro h
    exact ⟨List.mem_of_find?_eq_some h, by simpa using List.find?_some h⟩
  · rintro ⟨ho, rfl, rfl, rfl⟩
    have hunique : ∀ o ∈ table, resolve? o.token o.left o.right = some o := by decide
    exact hunique o ho

theorem UnaryOperator.apply_hasType {op : UnaryOperator} (hop : op ∈ table)
    (hx : x.type = op.operand) (s : Store) :
    (Outcome.ofExcept s (op.kind.apply x)).HasType op.result := by
  simp only [table, on, List.mem_cons, List.not_mem_nil, or_false] at hop
  rcases hop with rfl | rfl | rfl | rfl
  all_goals
    cases x <;> cases hx
    exact rfl

theorem BinaryOperator.applyInt_type (l r : Int64) : ∀ op ∈ table, op.left = .int →
    (BinaryKind.applyInt l r op.kind).map Value.type = some op.result := by
  simp [table, on, intAddition, intLessOrEquals, BinaryKind.applyInt, Value.type]

theorem BinaryOperator.applyBool_type (l r : Bool) : ∀ op ∈ table, op.left = .bool →
    (BinaryKind.applyBool l r op.kind).map Value.type = some op.result := by
  simp [table, on, intAddition, intLessOrEquals, BinaryKind.applyBool, Value.type]

theorem BinaryOperator.apply_hasType {op : BinaryOperator} {y : Value} (hop : op ∈ table)
    (hx : x.type = op.left) (hy : y.type = op.right) (s : Store) :
    (Outcome.ofExcept s (op.kind.apply x y)).HasType op.result := by
  have hsame : ∀ o ∈ table, o.left = o.right := by decide
  have hxy : x.type = y.type := hx.trans ((hsame op hop).trans hy.symm)
  cases x with
  | int i =>
    cases y with
    | bool c => cases hxy
    | int j =>
      obtain ⟨z, hz, hztype⟩ := Option.map_eq_some_iff.mp (applyInt_type i j op hop hx.symm)
      rw [BinaryKind.apply, hz]
      split
      · exact id
      · exact hztype
  | bool b =>
    cases y with
    | int j => cases hxy
    | bool c =>
      obtain ⟨z, hz, hztype⟩ := Option.map_eq_some_iff.mp (applyBool_type b c op hop hx.symm)
      rw [BinaryKind.apply, hz]
      exact hztype

namespace Bound

/-- Whether the operators of an expression are in the tables and fit their operands. -/
def Expr.WellTyped : Expr → Prop
  | literal _ => True
  | .variable _ => True
  | assignment v e => e.type = v.type ∧ e.WellTyped
  | unary op e => op ∈ UnaryOperator.table ∧ e.type = op.operand ∧ e.WellTyped
  | binary l op r =>
    op ∈ BinaryOperator.table ∧ l.type = op.left ∧ r.type = op.right ∧ l.WellTyped ∧ r.WellTyped

namespace Expr

/-- Evaluating a well typed expression on a well typed store gives a value of its type, unless
it divides by zero or reads a variable without value, and writes values of the right types only. -/
theorem eval_hasType : ∀ {e : Expr} {s : Store}, e.WellTyped → s.WellTyped →
    (e.eval s).HasType e.type ∧ ∀ m ∈ e.moments s, m.access.WellTyped
  | .literal _, _, _, _ => ⟨rfl, List.forall_mem_nil _⟩
  | .variable v, s, _, hs => by
    refine ⟨?_, fun m hm => ?_⟩
    · rw [eval]
      cases hv : s.get? v with
      | none => exact id
      | some x => exact hs.type_of_get? hv
    · cases List.mem_singleton.mp hm
      trivial
  | .assignment v e, s, he, hs => by
    obtain ⟨hvalue, hmoments⟩ := eval_hasType he.2 hs
    rw [eval, moments]
    cases heval : e.eval s with
    | fault f s' =>
      rw [heval] at hvalue
      exact ⟨hvalue, by simpa using hmoments⟩
    | done x s' =>
      rw [heval] at hvalue
      refine ⟨hvalue, List.forall_mem_append.mpr ⟨hmoments, ?_⟩⟩
      exact List.forall_mem_singleton.mpr (Eq.trans hvalue he.1)
  | .unary op e, s, he, hs => by
    obtain ⟨hvalue, hmoments⟩ := eval_hasType he.2.2 hs
    rw [eval, moments]
    refine ⟨?_, hmoments⟩
    cases heval : e.eval s with
    | fault f s' =>
      rw [heval] at hvalue
      exact hvalue
    | done x s' =>
      rw [heval] at hvalue
      exact UnaryOperator.apply_hasType he.1 (Eq.trans hvalue he.2.1) s'
  | .binary l op r, s, ⟨hop, hl, hr, htl, htr⟩, hs => by
    obtain ⟨hleft, hlmoments⟩ := eval_hasType htl hs
    have hlead := l.lead_moments s
    rw [eval, moments]
    cases hevall : l.eval s with
    | fault f s' =>
      rw [hevall] at hleft
      exact ⟨hleft, by simpa using hlmoments⟩
    | done x s' =>
      rw [hevall] at hleft hlead
      have hs' : s'.WellTyped := (hlead.wellTyped hs hlmoments).1
      obtain ⟨hright, hrmoments⟩ := eval_hasType htr hs'
      refine ⟨?_, List.forall_mem_append.mpr ⟨hlmoments, hrmoments⟩⟩
      dsimp only
      cases hevalr : r.eval s' with
      | fault f s'' =>
        rw [hevalr] at hright
        exact hright
      | done y s'' =>
        rw [hevalr] at hright
        exact BinaryOperator.apply_hasType hop (Eq.trans hleft hl) (Eq.trans hright hr) s''

theorem WellTyped.type_of_done {e : Expr} (he : e.WellTyped) (hs : s.WellTyped)
    (h : e.eval s = .done x s') : x.type = e.type := by
  have hvalue := (eval_hasType he hs).1
  rw [h] at hvalue
  exact hvalue

theorem WellTyped.valid_of_fault {e : Expr} {f : Fault} (he : e.WellTyped) (hs : s.WellTyped)
    (h : e.eval s = .fault f s') : ¬ f.IsInvalidOperand := by
  have hvalue := (eval_hasType he hs).1
  rw [h] at hvalue
  exact hvalue

theorem WellTyped.moments {e : Expr} (he : e.WellTyped) (hs : s.WellTyped) :
    ∀ m ∈ e.moments s, m.access.WellTyped :=
  (eval_hasType he hs).2

end Expr

namespace Stmt

mutual

/-- Whether the expressions of a statement are well typed and the values that it stores have the
types of their variables; if it is checked, also whether conditions and bounds have their types. -/
def WellTyped (checked : Prop) : Stmt → Prop
  | block body => WellTypedList checked body
  | declaration v e => e.WellTyped ∧ e.type = v.type
  | expression e => e.WellTyped
  | ifThen c t => c.WellTyped ∧ (checked → c.type = .bool) ∧ t.WellTyped checked
  | ifElse c t u =>
    c.WellTyped ∧ (checked → c.type = .bool) ∧ t.WellTyped checked ∧ u.WellTyped checked
  | whileLoop c t => c.WellTyped ∧ (checked → c.type = .bool) ∧ t.WellTyped checked
  | forLoop v lower upper t =>
    v.type = .int ∧ lower.WellTyped ∧ (checked → lower.type = .int) ∧
      upper.WellTyped ∧ (checked → upper.type = .int) ∧ t.WellTyped checked
  | jump _ => True
  | jumpIf _ c _ => c.WellTyped ∧ (checked → c.type = .bool)
  | label _ => True

def WellTypedList (checked : Prop) : List Stmt → Prop
  | [] => True
  | t :: ts => t.WellTyped checked ∧ WellTypedList checked ts

end

variable {checked : Prop}

theorem WellTyped.operand {t : Stmt} {e : Expr} (ht : t.WellTyped checked)
    (he : t.operand? = some e) : e.WellTyped := by
  cases t <;> cases he
  · exact ht.1
  · exact ht
  · exact ht.1

theorem loop_wellTyped {c : Expr} {body : List Stmt} (k : Nat) (hc : c.WellTyped)
    (hbool : checked → c.type = .bool) (hbody : ∀ t ∈ body, t.WellTyped checked) :
    ∀ t ∈ loop k c body, t.WellTyped checked := by
  simp only [loop, List.forall_mem_cons, List.forall_mem_append]
  exact ⟨trivial, trivial, hbody, trivial, ⟨hc, hbool⟩, trivial, List.forall_mem_nil _⟩

mutual

theorem lowerFrom_wellTyped : ∀ {s : Stmt} (k : Nat), s.WellTyped True →
    ∀ t ∈ s.lowerFrom k, t.WellTyped True
  | block body, k, h => lowerList_wellTyped k h
  | declaration v e, k, h => List.forall_mem_singleton.mpr h
  | expression e, k, h => List.forall_mem_singleton.mpr h
  | ifThen c s, k, ⟨hc, hbool, hs⟩ => by
    simp only [lowerFrom, List.forall_mem_cons, List.forall_mem_append]
    exact ⟨⟨hc, hbool⟩, lowerFrom_wellTyped (k + 1) hs, trivial, List.forall_mem_nil _⟩
  | ifElse c s t, k, ⟨hc, hbool, hs, ht⟩ => by
    simp only [lowerFrom, List.forall_mem_cons, List.forall_mem_append]
    exact ⟨⟨hc, hbool⟩, lowerFrom_wellTyped (k + 2) hs, trivial, trivial,
      lowerFrom_wellTyped (k + 2 + s.labelCount) ht, trivial, List.forall_mem_nil _⟩
  | whileLoop c s, k, ⟨hc, hbool, hs⟩ =>
    loop_wellTyped k hc hbool (lowerFrom_wellTyped (k + 3) hs)
  | forLoop v lower upper s, k, ⟨hv, hlo, hloInt, hhi, hhiInt, hs⟩ => by
    have hcondition : (withinBound v upper).WellTyped :=
      ⟨by decide, hv, hhiInt trivial, trivial, hhi⟩
    have hstep : (increment v).WellTyped True := ⟨hv.symm, by decide, hv, rfl, trivial, trivial⟩
    refine List.forall_mem_cons.mpr ⟨⟨hlo, (hloInt trivial).trans hv.symm⟩, ?_⟩
    refine loop_wellTyped k hcondition (fun _ => rfl) ?_
    exact List.forall_mem_append.mpr
      ⟨lowerFrom_wellTyped (k + 3) hs, List.forall_mem_singleton.mpr hstep⟩
  | jump l, k, h => List.forall_mem_singleton.mpr h
  | jumpIf l c onFalse, k, h => List.forall_mem_singleton.mpr h
  | label l, k, h => List.forall_mem_singleton.mpr h

theorem lowerList_wellTyped : ∀ {ss : List Stmt} (k : Nat), WellTypedList True ss →
    ∀ t ∈ lowerList k ss, t.WellTyped True
  | [], _, _ => List.forall_mem_nil _
  | s :: _, k, h =>
    List.forall_mem_append.mpr
      ⟨lowerFrom_wellTyped k h.1, lowerList_wellTyped (k + s.labelCount) h.2⟩

end

end Stmt

end Bound

end Lumen
