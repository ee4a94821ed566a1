import Lumen.Proofs.Bound.Writes

/-!
# Writes of a run

A step writes a variable because the expression at hand assigns it, or as the last thing that a
declaration does. What the states that a run visits never write keeps its value to the end of the
run, within an expression as well as at a fault.
-/

namespace Lumen

def Access.Keeps (v : Variable) : Access → Prop
  | .read _ => True
  | .write w _ => w ≠ v

theorem Moment.Lead.get?_eq {s s' : Store} {ms : List Moment} {v : Variable}
    (h : Lead s ms s') (hms : ∀ m ∈ ms, m.access.Keeps v) :
    s'.get? v = s.get? v ∧ ∀ m ∈ ms, m.before.get? v = s.get? v ∧ m.after.get? v = s.get? v := by
  refine h.invariant (P := fun σ => σ.get? v = s.get? v) rfl fun m hm hbefore => ?_
  have hkeeps := hms m hm
  rw [after]
  cases haccess : m.access with
  | read w => exact hbefore
  | write w x =>
    rw [haccess] at hkeeps
    exact (Store.get?_set_of_ne _ x hkeeps).trans hbefore

namespace Machine

open Lumen.Bound (Stmt)

variable {program : Array Stmt} {start s : State} {m : Moment} {v : Variable} {x : Value}

inductive Visits (program : Array Stmt) (start : State) : State → Prop
  | start : Visits program start start
  | step {s s' : State} :
    Visits program start s → step program s = .running s' → Visits program start s'

theorem exists_visits_of_moment {n : Nat} (hs : Visits program start s)
    (hm : m ∈ moments program n s) :
    ∃ s', Visits program start s' ∧ m ∈ stepMoments program s' := by
  induction n generalizing s with
  | zero => cases hm
  | succ n ih =>
    cases hstep : step program s with
    | halted o =>
      rw [moments_of_halted hstep] at hm
      exact ⟨s, hs, hm⟩
    | running s' =>
      rw [moments_of_running hstep] at hm
      rcases List.mem_append.mp hm with hm | hm
      · exact ⟨s, hs, hm⟩
      · exact ih (hs.step hstep) hm

/-- A step writes a variable because an expression assigns it, or because a declaration that has
got its value declares it. -/
theorem write_of_step (hm : m ∈ stepMoments program s) (hwrite : m.access = .write v x) :
    (∃ t e, program[s.next]? = some t ∧ t.operand? = some e ∧ v ∈ e.targets) ∨
      ∃ e, program[s.next]? = some (.declaration v e) ∧ e.eval s.store = .done x m.before := by
  have hsteps := steps_step program s
  generalize step program s = r at hsteps
  generalize stepMoments program s = ms at hsteps hm
  cases hsteps with
  | ended _ => cases hm
  | failed hnext hoperand _ =>
    exact .inl ⟨_, _, hnext, hoperand, Bound.Expr.mem_targets_of_write hm hwrite⟩
  | declared hnext heval =>
    rcases List.mem_append.mp hm with hm | hm
    · exact .inl ⟨_, _, hnext, rfl, Bound.Expr.mem_targets_of_write hm hwrite⟩
    · cases List.mem_singleton.mp hm
      cases hwrite
      exact .inr ⟨_, hnext, heval⟩
  | recorded hnext _ =>
    exact .inl ⟨_, _, hnext, rfl, Bound.Expr.mem_targets_of_write hm hwrite⟩
  | undecided hnext _ =>
    exact .inl ⟨_, _, hnext, rfl, Bound.Expr.mem_targets_of_write hm hwrite⟩
  | decided hnext _ =>
    exact .inl ⟨_, _, hnext, rfl, Bound.Expr.mem_targets_of_write hm hwrite⟩
  | jumped _ => cases hm
  | passed _ => cases hm
  | refused _ _ => cases hm

end Machine

end Lumen
