import Lumen.Proofs.Machine.Moments

/-!
# Reading a variable without value

A run ends in the fault of an undefined variable exactly if one of its moments reads a variable of
that name which has no value in the store of that moment.
-/

namespace Lumen

variable {name : String} {σ : Store}

namespace Moment

/-- Whether a variable of a name is read at a store without having a value in it. -/
def Misses (name : String) (σ : Store) (ms : List Moment) : Prop :=
  ∃ v : Variable, v.name = name ∧ ⟨σ, .read v⟩ ∈ ms ∧ σ.get? v = none

@[simp] theorem not_misses_nil : ¬ Misses name σ [] := by
  rintro ⟨v, -, hv, -⟩
  cases hv

@[simp] theorem not_misses_write {s : Store} {v : Variable} {x : Value} :
    ¬ Misses name σ [⟨s, .write v x⟩] := by
  rintro ⟨w, -, hw, -⟩
  cases List.mem_singleton.mp hw

@[simp] theorem misses_append {a b : List Moment} :
    Misses name σ (a ++ b) ↔ Misses name σ a ∨ Misses name σ b := by
  simp only [Misses, List.mem_append, or_and_right, and_or_left, exists_or]

@[simp] theorem misses_read {s : Store} {v : Variable} :
    Misses name σ [⟨s, .read v⟩] ↔ v.name = name ∧ s = σ ∧ s.get? v = none := by
  constructor
  · rintro ⟨w, hname, hw, hnone⟩
    cases List.mem_singleton.mp hw
    exact ⟨hname, rfl, hnone⟩
  · rintro ⟨hname, rfl, hnone⟩
    exact ⟨v, hname, List.mem_singleton.mpr rfl, hnone⟩

end Moment

open Moment (Misses)

@[simp] theorem UnaryKind.apply_ne_undefined (kind : UnaryKind) (x : Value) (s : Store) :
    Outcome.ofExcept s (kind.apply x) ≠ .fault (.undefinedVariable name) σ := by
  cases kind <;> cases x <;> simp [apply, Outcome.ofExcept]

@[simp] theorem BinaryKind.apply_ne_undefined (kind : BinaryKind) (x y : Value) (s : Store) :
    Outcome.ofExcept s (kind.apply x y) ≠ .fault (.undefinedVariable name) σ := by
  intro h
  cases x <;> cases y <;> simp only [apply] at h
  case int.int =>
    split at h
    · cases h
    · split at h <;> cases h
  case bool.bool => split at h <;> cases h
  all_goals cases h

namespace Bound.Expr

theorem eval_undefined_iff : ∀ {e : Expr} {s : Store},
    e.eval s = .fault (.undefinedVariable name) σ ↔ Misses name σ (e.moments s)
  | .literal _, s => by simp [eval, moments]
  | .variable x, s => by
    rw [eval, moments, Moment.misses_read]
    cases hx : s.get? x with
    | some y => simp
    | none => simp
  | .assignment x e, s => by
    rw [eval, moments, Moment.misses_append, ← eval_undefined_iff]
    cases e.eval s <;> simp
  | .unary op e, s => by
    rw [eval, moments, ← eval_undefined_iff]
    cases e.eval s <;> simp
  | .binary l op r, s => by
    rw [eval, moments, Moment.misses_append, ← eval_undefined_iff]
    cases l.eval s with
    | fault f s' => simp
    | done x s' =>
      rw [Outcome.onward_done, ← eval_undefined_iff]
      dsimp only
      cases r.eval s' <;> simp

end Bound.Expr

namespace Machine

open Lumen.Bound (Stmt)

variable {program : Array Stmt} {s : State} {n : Nat}

theorem jumpTo_ne_undefined (l : Label) (last : Option Value) (s : Store) :
    jumpTo program l last s ≠ .halted (.fault (.undefinedVariable name) σ) := by
  rw [jumpTo]
  split <;> simp

theorem Steps.undefined_iff {r : Result} {ms : List Moment} (h : Steps program s r ms) :
    r = .halted (.fault (.undefinedVariable name) σ) ↔ Misses name σ ms := by
  cases h with
  | ended _ => simp
  | failed _ _ heval =>
    rw [← Bound.Expr.eval_undefined_iff, heval]
    simp
  | declared _ heval =>
    rw [Moment.misses_append, ← Bound.Expr.eval_undefined_iff, heval]
    simp
  | recorded _ heval =>
    rw [← Bound.Expr.eval_undefined_iff, heval]
    simp
  | undecided _ heval =>
    rw [← Bound.Expr.eval_undefined_iff, heval]
    simp
  | decided _ heval =>
    rw [← Bound.Expr.eval_undefined_iff, heval]
    split <;> simp [jumpTo_ne_undefined]
  | jumped _ => simp [jumpTo_ne_undefined]
  | passed _ => simp
  | refused _ _ => simp

/-- A run ends in the fault of an undefined variable within a number of steps exactly if it reads
one within them. -/
theorem run_undefined_iff :
    run program n s = some (.fault (.undefinedVariable name) σ) ↔
      Misses name σ (moments program n s) := by
  induction n generalizing s with
  | zero => simp [run, moments]
  | succ n ih =>
    rw [run]
    cases hs : step program s with
    | halted o =>
      rw [moments_of_halted hs, ← (steps_step program s).undefined_iff, hs]
      simp
    | running s' =>
      rw [moments_of_running hs, Moment.misses_append, ← (steps_step program s).undefined_iff, hs,
        ← ih]
      simp

end Machine

end Lumen
