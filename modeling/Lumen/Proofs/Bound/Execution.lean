import Lumen.Evaluation

/-!
# Structured execution

The meaning of a bound statement, read off its structure without labels and jumps. A run hands on
the value recorded last and the store. A branch runs the statement that its condition chooses, and
a loop repeats its body for as long as its test holds. As a loop need not end, a run is given a
budget, which bounds the rounds of every loop in the statement; a statement that is out of budget
has no outcome, and one that ends has the same outcome with every greater budget.
-/

namespace Lumen

variable {α β : Type}

/-- Goes on with a result and its store; a fault is final. -/
def Outcome.andThen (o : Outcome α) (next : α → Store → Option (Outcome β)) :
    Option (Outcome β) :=
  match o with
  | .done a s => next a s
  | .fault f s => some (.fault f s)

@[simp] theorem Outcome.andThen_done (a : α) (s : Store)
    (next : α → Store → Option (Outcome β)) : (done a s).andThen next = next a s := rfl

@[simp] theorem Outcome.andThen_fault (f : Fault) (s : Store)
    (next : α → Store → Option (Outcome β)) :
    (fault f s).andThen next = some (.fault f s) := rfl

namespace Bound

def Expr.test (c : Expr) (s : Store) : Outcome Bool :=
  match c.eval s with
  | .fault f s' => .fault f s'
  | .done v s' =>
    match v.truth? with
    | some b => .done b s'
    | none => .fault (.invalidOperand .conditionalJump v) s'

/-- Whether a loop variable has not passed its upper bound, which is computed anew. -/
def withinUpper (v : Variable) (upper : Expr) (s : Store) : Outcome Bool :=
  match s.get? v with
  | none => .fault (.undefinedVariable v.name) s
  | some x =>
    match upper.eval s with
    | .fault f s' => .fault f s'
    | .done y s' =>
      match x, y with
      | .int i, .int n => .done (i ≤ n) s'
      | .bool b, .bool _ => .fault (.invalidOperand (.binary .lessOrEquals) (.bool b)) s'
      | _, y => .fault (.invalidOperand (.binary .lessOrEquals) y) s'

/-- A run of a statement: from the value recorded last and the store to those behind it. -/
abbrev Run := Option Value → Store → Option (Outcome (Option Value))

namespace Run

def skip : Run := fun last s => some (.done last s)

def seq (first second : Run) : Run := fun last s =>
  (first last s).bind fun o => o.andThen second

def record (e : Expr) : Run := fun _ s => (e.eval s).andThen fun x s' => some (.done (some x) s')

def declare (v : Variable) (e : Expr) : Run := fun _ s =>
  (e.eval s).andThen fun x s' => some (.done (some x) (s'.set v x))

/-- Adds one to a loop variable and records its new value. -/
def advance (v : Variable) : Run := fun _ s =>
  match s.get? v with
  | none => some (.fault (.undefinedVariable v.name) s)
  | some (.int i) => some (.done (some (.int (i + 1))) (s.set v (.int (i + 1))))
  | some (.bool _) => some (.fault (.invalidOperand (.binary .addition) (.int 1)) s)

/-- Repeats a round as long as a test holds, less often than a budget. -/
def repeatWhile (test : Store → Outcome Bool) (round : Run) : Nat → Run
  | 0, _, _ => none
  | n + 1, last, s =>
    (test s).andThen fun goOn s' =>
      if goOn then seq round (repeatWhile test round n) last s' else skip last s'

variable {r t : Run} {test : Store → Outcome Bool} {n : Nat} {last l : Option Value}
  {s s' : Store} {f : Fault}

theorem seq_of_done (h : r last s = some (.done l s')) : seq r t last s = t l s' := by
  rw [seq, h]
  rfl

theorem seq_of_fault (h : r last s = some (.fault f s')) :
    seq r t last s = some (.fault f s') := by
  rw [seq, h]
  rfl

theorem repeatWhile_of_true (h : test s = .done true s') :
    repeatWhile test r (n + 1) last s = seq r (repeatWhile test r n) last s' := by
  rw [repeatWhile, h]
  rfl

theorem repeatWhile_of_false (h : test s = .done false s') :
    repeatWhile test r (n + 1) last s = some (.done last s') := by
  rw [repeatWhile, h]
  rfl

theorem repeatWhile_of_fault (h : test s = .fault f s') :
    repeatWhile test r (n + 1) last s = some (.fault f s') := by
  rw [repeatWhile, h]
  rfl

@[simp] theorem skip_seq (r : Run) : seq skip r = r := rfl

@[simp] theorem seq_skip (r : Run) : seq r skip = r := by
  funext last s
  rw [seq]
  cases r last s with
  | none => rfl
  | some o => cases o <;> rfl

/-- Whether a run keeps every outcome of another one. -/
def Extends (r t : Run) : Prop := ∀ last s o, r last s = some o → t last s = some o

/-- Whether a run that is given a budget keeps its outcomes when it is given more. -/
def Growing (r : Nat → Run) : Prop := ∀ ⦃m n⦄, m ≤ n → Extends (r m) (r n)

theorem Growing.const (r : Run) : Growing fun _ => r := fun _ _ _ _ _ _ h => h

theorem Growing.andThen {act : Store → Outcome α} {r : Nat → α → Run}
    (h : ∀ a, Growing fun n => r n a) :
    Growing fun n last s => (act s).andThen fun a s' => r n a last s' := by
  intro m n hmn last s o ho
  dsimp only at ho ⊢
  cases ha : act s with
  | done a s' =>
    rw [ha] at ho
    exact h a hmn last s' o ho
  | fault f s' =>
    rw [ha] at ho
    exact ho

theorem Extends.seq {r r' t t' : Run} (hr : Extends r r') (ht : Extends t t') :
    Extends (seq r t) (seq r' t') := by
  intro last s o h
  obtain ⟨m, hm, hmo⟩ := Option.bind_eq_some_iff.mp h
  cases m with
  | done l s' =>
    rw [seq_of_done (hr last s _ hm)]
    exact ht l s' o hmo
  | fault f s' =>
    rw [seq_of_fault (hr last s _ hm)]
    exact hmo

theorem Extends.repeatWhile (h : Extends r t) {m : Nat} (hmn : m ≤ n) :
    Extends (repeatWhile test r m) (repeatWhile test t n) := by
  induction m generalizing n with
  | zero => intro last s o ho; cases ho
  | succ m ih =>
    obtain ⟨n, rfl⟩ : ∃ k, n = k + 1 := ⟨n - 1, by omega⟩
    intro last s o ho
    cases hs : test s with
    | fault f s' =>
      rw [repeatWhile_of_fault hs] at ho ⊢
      exact ho
    | done goOn s' =>
      cases goOn with
      | false =>
        rw [repeatWhile_of_false hs] at ho ⊢
        exact ho
      | true =>
        rw [repeatWhile_of_true hs] at ho ⊢
        exact h.seq (ih (Nat.le_of_succ_le_succ hmn)) last s' o ho

theorem Growing.seq {r t : Nat → Run} (hr : Growing r) (ht : Growing t) :
    Growing fun n => seq (r n) (t n) :=
  fun _ _ hmn => (hr hmn).seq (ht hmn)

theorem Growing.repeatWhile (test : Store → Outcome Bool) {r : Nat → Run} (hr : Growing r) :
    Growing fun n => repeatWhile test (r n) n :=
  fun _ _ hmn => (hr hmn).repeatWhile hmn

end Run

namespace Stmt

mutual

def exec (budget : Nat) : Stmt → Run
  | block body => execList budget body
  | declaration v e => Run.declare v e
  | expression e => Run.record e
  | ifThen c t => fun last s =>
    (c.test s).andThen fun b s' => if b then t.exec budget last s' else Run.skip last s'
  | ifElse c t u => fun last s =>
    (c.test s).andThen fun b s' => if b then t.exec budget last s' else u.exec budget last s'
  | whileLoop c t => Run.repeatWhile c.test (t.exec budget) budget
  | forLoop v lower upper t =>
    Run.seq (Run.declare v lower)
      (Run.repeatWhile (withinUpper v upper) (Run.seq (t.exec budget) (Run.advance v)) budget)
  | jump l => fun _ s => some (.fault (.unexpectedStatement (jump l).kind) s)
  | jumpIf l c onFalse => fun _ s =>
    some (.fault (.unexpectedStatement (jumpIf l c onFalse).kind) s)
  | label l => fun _ s => some (.fault (.unexpectedStatement (label l).kind) s)

def execList (budget : Nat) : List Stmt → Run
  | [] => Run.skip
  | t :: ts => Run.seq (t.exec budget) (execList budget ts)

end

mutual

theorem exec_growing : ∀ t : Stmt, Run.Growing t.exec
  | block body => execList_growing body
  | declaration .. => Run.Growing.const _
  | expression _ => Run.Growing.const _
  | ifThen c t => by
    refine Run.Growing.andThen fun b => ?_
    cases b with
    | false => exact Run.Growing.const _
    | true => exact exec_growing t
  | ifElse c t u => by
    refine Run.Growing.andThen fun b => ?_
    cases b with
    | false => exact exec_growing u
    | true => exact exec_growing t
  | whileLoop c t => (exec_growing t).repeatWhile c.test
  | forLoop v lower upper t =>
    (Run.Growing.const _).seq
      (((exec_growing t).seq (Run.Growing.const _)).repeatWhile (withinUpper v upper))
  | jump _ => Run.Growing.const _
  | jumpIf .. => Run.Growing.const _
  | label _ => Run.Growing.const _

theorem execList_growing : ∀ ts : List Stmt, Run.Growing (execList · ts)
  | [] => Run.Growing.const _
  | t :: ts => (exec_growing t).seq (execList_growing ts)

end

end Stmt

end Bound

end Lumen
