import Lumen.Machine

/-!
# Moments of a run

A run touches the store variable by variable: each moment reads one variable or writes one. The
moments of a run lead from its first store to its last one without a gap, so what holds at every
moment holds throughout the run, within an expression as well as at a fault. They are defined for
any number of steps, and so for a run that never ends, too.
-/

namespace Lumen

inductive Access
  | read (v : Variable)
  | write (v : Variable) (x : Value)
  deriving DecidableEq

/-- An access of a variable, and the store right before it. -/
structure Moment where
  before : Store
  access : Access
  deriving DecidableEq

namespace Moment

def after (m : Moment) : Store :=
  match m.access with
  | .read _ => m.before
  | .write v x => m.before.set v x

/-- Whether moments lead from a store to another one without a gap. -/
def Lead : Store → List Moment → Store → Prop
  | s, [], s' => s = s'
  | s, m :: ms, s' => m.before = s ∧ Lead m.after ms s'

theorem Lead.append {s s' s'' : Store} {a b : List Moment} (ha : Lead s a s')
    (hb : Lead s' b s'') : Lead s (a ++ b) s'' := by
  induction a generalizing s with
  | nil =>
    cases ha
    exact hb
  | cons m a ih => exact ⟨ha.1, ih ha.2⟩

/-- A property of stores that no access of a run breaks holds at all its moments and behind it. -/
theorem Lead.invariant {P : Store → Prop} {s s' : Store} {ms : List Moment} (h : Lead s ms s')
    (hs : P s) (hms : ∀ m ∈ ms, P m.before → P m.after) :
    P s' ∧ ∀ m ∈ ms, P m.before ∧ P m.after := by
  induction ms generalizing s with
  | nil =>
    cases h
    exact ⟨hs, by simp⟩
  | cons m ms ih =>
    obtain ⟨rfl, hrest⟩ := h
    have hafter : P m.after := hms m List.mem_cons_self hs
    obtain ⟨hend, hothers⟩ := ih hrest hafter fun m' hm' => hms m' (List.mem_cons_of_mem m hm')
    refine ⟨hend, fun m' hm' => ?_⟩
    rcases List.mem_cons.mp hm' with rfl | hm'
    · exact ⟨hs, hafter⟩
    · exact hothers m' hm'

end Moment

open Moment (Lead)

def Outcome.onward {α : Type} (o : Outcome α) (next : α → Store → List Moment) : List Moment :=
  match o with
  | .done a s => next a s
  | .fault _ _ => []

@[simp] theorem Outcome.onward_done {α : Type} (a : α) (s : Store)
    (next : α → Store → List Moment) : (done a s).onward next = next a s := rfl

@[simp] theorem Outcome.onward_fault {α : Type} (f : Fault) (s : Store)
    (next : α → Store → List Moment) : (fault f s : Outcome α).onward next = [] := rfl

@[simp] theorem Outcome.store_ofExcept {α : Type} (s : Store) (r : Except Fault α) :
    (ofExcept s r).store = s := by
  cases r <;> rfl

namespace Bound.Expr

def moments : Expr → Store → List Moment
  | .literal _, _ => []
  | .variable x, s => [⟨s, .read x⟩]
  | .assignment x e, s => e.moments s ++ (e.eval s).onward fun v s' => [⟨s', .write x v⟩]
  | .unary _ e, s => e.moments s
  | .binary l _ r, s => l.moments s ++ (l.eval s).onward fun _ s' => r.moments s'

theorem lead_moments : ∀ (e : Expr) (s : Store), Lead s (e.moments s) (e.eval s).store
  | .literal _, _ => rfl
  | .variable x, s => by
    rw [eval]
    cases s.get? x <;> exact ⟨rfl, rfl⟩
  | .assignment x e, s => by
    have he := lead_moments e s
    simp only [moments, eval]
    cases heval : e.eval s with
    | done v s' =>
      rw [heval] at he
      exact he.append ⟨rfl, rfl⟩
    | fault f s' =>
      rw [heval] at he
      exact he.append rfl
  | .unary op e, s => by
    have he := lead_moments e s
    simp only [moments, eval]
    cases heval : e.eval s with
    | done v s' =>
      rw [heval] at he
      simp only [Outcome.store_ofExcept]
      exact he
    | fault f s' =>
      rw [heval] at he
      exact he
  | .binary l op r, s => by
    have hl := lead_moments l s
    simp only [moments, eval]
    cases hleft : l.eval s with
    | fault f s' =>
      rw [hleft] at hl
      exact hl.append rfl
    | done v s' =>
      have hr := lead_moments r s'
      rw [hleft] at hl
      refine hl.append ?_
      simp only [Outcome.onward_done]
      cases hright : r.eval s' with
      | done w s'' =>
        rw [hright] at hr
        simp only [Outcome.store_ofExcept]
        exact hr
      | fault f s'' =>
        rw [hright] at hr
        exact hr

theorem lead_of_done {e : Expr} {s σ : Store} {x : Value} (h : e.eval s = .done x σ) :
    Lead s (e.moments s) σ := by
  have hlead := e.lead_moments s
  rw [h] at hlead
  exact hlead

theorem lead_of_fault {e : Expr} {s σ : Store} {f : Fault} (h : e.eval s = .fault f σ) :
    Lead s (e.moments s) σ := by
  have hlead := e.lead_moments s
  rw [h] at hlead
  exact hlead

end Bound.Expr

/-- The expression that a statement of a flat program evaluates. -/
def Bound.Stmt.operand? : Bound.Stmt → Option Bound.Expr
  | declaration _ e => some e
  | expression e => some e
  | jumpIf _ c _ => some c
  | _ => none

namespace Machine

open Lumen.Bound (Expr Stmt)

def Result.store : Result → Store
  | running s => s.store
  | halted o => o.store

def stepMoments (program : Array Stmt) (s : State) : List Moment :=
  match program[s.next]? with
  | some (.declaration v e) =>
    e.moments s.store ++ (e.eval s.store).onward fun x σ => [⟨σ, .write v x⟩]
  | some (.expression e) => e.moments s.store
  | some (.jumpIf _ c _) => c.moments s.store
  | _ => []

def moments (program : Array Stmt) : Nat → State → List Moment
  | 0, _ => []
  | budget + 1, s =>
    stepMoments program s ++
      match step program s with
      | .halted _ => []
      | .running s' => moments program budget s'

variable {program : Array Stmt} {s s' : State} {o : Outcome (Option Value)} {n : Nat}

/-- What a step may do: its result and its moments, depending on the statement at hand and on what
its expression evaluates to. -/
inductive Steps (program : Array Stmt) (s : State) : Result → List Moment → Prop
  | ended : program[s.next]? = none → Steps program s (.halted (.done s.last s.store)) []
  | failed {t : Stmt} {e : Expr} {f : Fault} {σ : Store} :
    program[s.next]? = some t → t.operand? = some e → e.eval s.store = .fault f σ →
      Steps program s (.halted (.fault f σ)) (e.moments s.store)
  | declared {v : Variable} {e : Expr} {x : Value} {σ : Store} :
    program[s.next]? = some (.declaration v e) → e.eval s.store = .done x σ →
      Steps program s (.running ⟨s.next + 1, some x, σ.set v x⟩)
        (e.moments s.store ++ [⟨σ, .write v x⟩])
  | recorded {e : Expr} {x : Value} {σ : Store} :
    program[s.next]? = some (.expression e) → e.eval s.store = .done x σ →
      Steps program s (.running ⟨s.next + 1, some x, σ⟩) (e.moments s.store)
  | undecided {l : Label} {c : Expr} {onFalse : Bool} {i : Int64} {σ : Store} :
    program[s.next]? = some (.jumpIf l c onFalse) → c.eval s.store = .done (.int i) σ →
      Steps program s (.halted (.fault (.invalidOperand .conditionalJump (.int i)) σ))
        (c.moments s.store)
  | decided {l : Label} {c : Expr} {onFalse b : Bool} {σ : Store} :
    program[s.next]? = some (.jumpIf l c onFalse) → c.eval s.store = .done (.bool b) σ →
      Steps program s
        (if b = onFalse then .running ⟨s.next + 1, s.last, σ⟩ else jumpTo program l s.last σ)
        (c.moments s.store)
  | jumped {l : Label} :
    program[s.next]? = some (.jump l) → Steps program s (jumpTo program l s.last s.store) []
  | passed {l : Label} :
    program[s.next]? = some (.label l) →
      Steps program s (.running ⟨s.next + 1, s.last, s.store⟩) []
  | refused {t : Stmt} :
    program[s.next]? = some t → t.operand? = none →
      Steps program s (.halted (.fault (.unexpectedStatement t.kind) s.store)) []

theorem steps_step (program : Array Stmt) (s : State) :
    Steps program s (step program s) (stepMoments program s) := by
  rw [step, stepMoments]
  cases hnext : program[s.next]? with
  | none => exact .ended hnext
  | some t =>
    cases t with
    | declaration v e =>
      dsimp only
      cases heval : e.eval s.store with
      | done x σ => exact .declared hnext heval
      | fault f σ => simpa using Steps.failed hnext rfl heval
    | expression e =>
      dsimp only
      cases heval : e.eval s.store with
      | done x σ => exact .recorded hnext heval
      | fault f σ => exact .failed hnext rfl heval
    | jumpIf l c onFalse =>
      dsimp only
      cases heval : c.eval s.store with
      | fault f σ => exact .failed hnext rfl heval
      | done x σ =>
        cases x with
        | int i => exact .undecided hnext heval
        | bool b => simpa [Value.truth?] using Steps.decided hnext heval
    | jump l => exact .jumped hnext
    | label l => exact .passed hnext
    | _ => exact .refused hnext rfl

@[simp] theorem store_jumpTo (l : Label) (last : Option Value) (σ : Store) :
    (jumpTo program l last σ).store = σ := by
  rw [jumpTo]
  cases target? program l <;> rfl

theorem moments_of_running (h : step program s = .running s') :
    moments program (n + 1) s = stepMoments program s ++ moments program n s' := by
  rw [moments, h]

theorem moments_of_halted (h : step program s = .halted o) :
    moments program (n + 1) s = stepMoments program s := by
  rw [moments, h]
  exact List.append_nil _

theorem Steps.lead {r : Result} {ms : List Moment} (h : Steps program s r ms) :
    Lead s.store ms r.store := by
  cases h with
  | ended _ => rfl
  | failed _ _ heval => exact Expr.lead_of_fault heval
  | declared _ heval => exact (Expr.lead_of_done heval).append ⟨rfl, rfl⟩
  | recorded _ heval => exact Expr.lead_of_done heval
  | undecided _ heval => exact Expr.lead_of_done heval
  | decided _ heval =>
    split
    · exact Expr.lead_of_done heval
    · rw [store_jumpTo]
      exact Expr.lead_of_done heval
  | jumped _ => exact (store_jumpTo ..).symm
  | passed _ => rfl
  | refused _ _ => rfl

theorem lead_moments (h : run program n s = some o) :
    Lead s.store (moments program n s) o.store := by
  induction n generalizing s with
  | zero => cases h
  | succ n ih =>
    have hstep := (steps_step program s).lead
    rw [run] at h
    cases hs : step program s with
    | halted p =>
      rw [hs] at h hstep
      cases h
      rw [moments_of_halted hs]
      exact hstep
    | running s' =>
      rw [hs] at h hstep
      rw [moments_of_running hs]
      exact hstep.append (ih h)

/-- The moments of a run within a number of steps lead to some store, whether it ends or not. -/
theorem exists_lead_moments (program : Array Stmt) (n : Nat) (s : State) :
    ∃ σ, Lead s.store (moments program n s) σ := by
  induction n generalizing s with
  | zero => exact ⟨s.store, rfl⟩
  | succ n ih =>
    have hstep := (steps_step program s).lead
    cases hs : step program s with
    | halted p =>
      rw [moments_of_halted hs]
      exact ⟨_, hstep⟩
    | running s' =>
      obtain ⟨σ, hσ⟩ := ih s'
      rw [hs] at hstep
      rw [moments_of_running hs]
      exact ⟨σ, hstep.append hσ⟩

end Machine

end Lumen
