import Lumen.Evaluation

/-!
# Running flat programs

The machine runs a flat program: declarations, expression statements, labels and jumps. Its state
is the number of the next statement, the value written or computed last, and the store. A jump goes
to the statement behind the label; of two labels of one name the last one counts. One step executes
one statement, and the machine halts behind the last one. As a program need not end, a run is given
a number of steps; a run that ends has the same outcome with every greater number.
-/

namespace Lumen.Machine

open Lumen.Bound (Stmt)

/-- The moment before a statement. -/
structure State where
  next : Nat
  last : Option Value
  store : Store

def State.start (store : Store) : State := ⟨0, none, store⟩

/-- What a step leads to: another state or the end. -/
inductive Result
  | running (state : State)
  | halted (outcome : Outcome (Option Value))

/-- The number of the statement behind a label, if that label follows a number of statements. -/
def targetFrom? (l : Label) (pos : Nat) : List Stmt → Option Nat
  | [] => none
  | s :: ss =>
    match targetFrom? l (pos + 1) ss with
    | some n => some n
    | none => if s = .label l then some (pos + 1) else none

/-- The number of the statement behind the last label of a name. -/
def target? (program : Array Stmt) (l : Label) : Option Nat := targetFrom? l 0 program.toList

def jumpTo (program : Array Stmt) (l : Label) (last : Option Value) (store : Store) : Result :=
  match target? program l with
  | some n => .running ⟨n, last, store⟩
  | none => .halted (.fault (.undefinedLabel l) store)

def step (program : Array Stmt) (s : State) : Result :=
  match program[s.next]? with
  | none => .halted (.done s.last s.store)
  | some (.declaration v e) =>
    match e.eval s.store with
    | .done x σ => .running ⟨s.next + 1, some x, σ.set v x⟩
    | .fault f σ => .halted (.fault f σ)
  | some (.expression e) =>
    match e.eval s.store with
    | .done x σ => .running ⟨s.next + 1, some x, σ⟩
    | .fault f σ => .halted (.fault f σ)
  | some (.jumpIf l c onFalse) =>
    match c.eval s.store with
    | .fault f σ => .halted (.fault f σ)
    | .done x σ =>
      match x.truth? with
      | none => .halted (.fault (.invalidOperand .conditionalJump x) σ)
      | some b =>
        if b ≠ onFalse then jumpTo program l s.last σ
        else .running ⟨s.next + 1, s.last, σ⟩
  | some (.jump l) => jumpTo program l s.last s.store
  | some (.label _) => .running { s with next := s.next + 1 }
  | some other => .halted (.fault (.unexpectedStatement other.kind) s.store)

/-- The outcome of a program that ends within a number of steps. -/
def run (program : Array Stmt) : Nat → State → Option (Outcome (Option Value))
  | 0, _ => none
  | budget + 1, s =>
    match step program s with
    | .halted o => some o
    | .running s' => run program budget s'

def evaluate (budget : Nat) (program : List Stmt) (store : Store) :
    Option (Outcome (Option Value)) :=
  run program.toArray budget (.start store)

theorem run_succ_of_run {program : Array Stmt} {budget : Nat} {s : State}
    {o : Outcome (Option Value)} (h : run program budget s = some o) :
    run program (budget + 1) s = some o := by
  induction budget generalizing s with
  | zero => cases h
  | succ n ih =>
    rw [run] at h ⊢
    cases hs : step program s with
    | halted p => rw [hs] at h; exact h
    | running s' => rw [hs] at h; exact ih h

theorem run_mono {program : Array Stmt} {m n : Nat} {s : State} {o : Outcome (Option Value)}
    (hmn : m ≤ n) (h : run program m s = some o) : run program n s = some o := by
  induction hmn with
  | refl => exact h
  | step _ ih => exact run_succ_of_run ih

end Lumen.Machine
