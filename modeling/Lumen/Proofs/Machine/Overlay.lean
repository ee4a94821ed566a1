import Lumen.Machine

/-!
# Entries that a run does not need

A store can be laid over another one: its own entries count, and where it has none, those below
show. A run that starts on the combined store goes step by step like the run on the store above,
for it reads only what is written there: what the upper run misses is the one thing that could tell
them apart. So the entries below stay as they are, and they change no result and no fault.
-/

namespace Lumen

namespace Store

/-- Whether a store has all entries of another one. -/
def Within (s t : Store) : Prop := ∀ v x, s.get? v = some x → t.get? v = some x

/-- Whether a store combines two others: it has the entries of the one above, and those of the one
below where the one above has none. -/
def LaidOver (above below whole : Store) : Prop :=
  ∀ v, whole.get? v = (above.get? v).or (below.get? v)

variable {above below whole : Store}

theorem within_empty (s : Store) : (∅ : Store).Within s := by
  intro v x h
  cases h

theorem Within.laidOver {s t : Store} (h : s.Within t) : s.LaidOver t t := by
  intro v
  cases hv : s.get? v with
  | none => rfl
  | some x => exact h v x hv

theorem LaidOver.get?_eq {v : Variable} {x : Value} (h : above.LaidOver below whole)
    (hv : above.get? v = some x) : whole.get? v = some x := by
  rw [h v, hv, Option.some_or]

theorem LaidOver.set (h : above.LaidOver below whole) (v : Variable) (x : Value) :
    (above.set v x).LaidOver below (whole.set v x) := by
  intro w
  rw [get?_set, get?_set, h w]
  by_cases hw : v = w
  · rw [if_pos hw, if_pos hw, Option.some_or]
  · rw [if_neg hw, if_neg hw]

theorem LaidOver.again {whole' : Store} (h : above.LaidOver below whole)
    (h' : above.LaidOver whole whole') (v : Variable) : whole'.get? v = whole.get? v := by
  rw [h' v, h v]
  cases above.get? v with
  | none => rfl
  | some x => rfl

end Store

/-- Whether two outcomes are the same but for the entries of a store below. -/
inductive Outcome.SameOver {α : Type} (below : Store) : Outcome α → Outcome α → Prop
  | done {a : α} {s t : Store} : s.LaidOver below t → SameOver below (.done a s) (.done a t)
  | fault {f : Fault} {s t : Store} : s.LaidOver below t → SameOver below (.fault f s) (.fault f t)

/-- Whether two outcomes are the same but for the entries of a store below, or the first one is that
a variable is undefined. -/
inductive Outcome.Overlaid {α : Type} (below : Store) : Outcome α → Outcome α → Prop
  | done {a : α} {s t : Store} : s.LaidOver below t → Overlaid below (.done a s) (.done a t)
  | fault {f : Fault} {s t : Store} : s.LaidOver below t → Overlaid below (.fault f s) (.fault f t)
  | undefined {name : String} {s : Store} {o : Outcome α} :
    Overlaid below (.fault (.undefinedVariable name) s) o

variable {below s t : Store}

theorem Outcome.overlaid_ofExcept {α : Type} (r : Except Fault α) (h : s.LaidOver below t) :
    (ofExcept s r).Overlaid below (ofExcept t r) := by
  cases r with
  | ok a => exact .done h
  | error f => exact .fault h

theorem Bound.Expr.eval_overlaid : ∀ (e : Expr) {s t : Store}, s.LaidOver below t →
    (e.eval s).Overlaid below (e.eval t)
  | .literal _, _, _, h => .done h
  | .variable x, s, t, h => by
    rw [eval, eval]
    cases hx : s.get? x with
    | none => exact .undefined
    | some v =>
      rw [h.get?_eq hx]
      exact .done h
  | .assignment x e, s, t, h => by
    have he := eval_overlaid e h
    rw [eval, eval]
    generalize e.eval s = o, e.eval t = o' at he
    cases he with
    | done hstore => exact .done (hstore.set x _)
    | fault hstore => exact .fault hstore
    | undefined => exact .undefined
  | .unary op e, s, t, h => by
    have he := eval_overlaid e h
    rw [eval, eval]
    generalize e.eval s = o, e.eval t = o' at he
    cases he with
    | done hstore => exact Outcome.overlaid_ofExcept _ hstore
    | fault hstore => exact .fault hstore
    | undefined => exact .undefined
  | .binary l op r, s, t, h => by
    have hl := eval_overlaid l h
    rw [eval, eval]
    generalize l.eval s = o, l.eval t = o' at hl
    cases hl with
    | fault hstore => exact .fault hstore
    | undefined => exact .undefined
    | @done _ s' t' hstore =>
      have hr := eval_overlaid r hstore
      dsimp only
      generalize r.eval s' = o, r.eval t' = o' at hr
      cases hr with
      | done hstore => exact Outcome.overlaid_ofExcept _ hstore
      | fault hstore => exact .fault hstore
      | undefined => exact .undefined

namespace Machine

open Lumen.Bound (Stmt)

variable {program : Array Stmt}

inductive Result.Overlaid (below : Store) : Result → Result → Prop
  | running {next : Nat} {last : Option Value} {s t : Store} :
    s.LaidOver below t → Overlaid below (.running ⟨next, last, s⟩) (.running ⟨next, last, t⟩)
  | halted {o o' : Outcome (Option Value)} :
    o.SameOver below o' → Overlaid below (.halted o) (.halted o')
  | undefined {name : String} {s : Store} {r : Result} :
    Overlaid below (.halted (.fault (.undefinedVariable name) s)) r

theorem jumpTo_overlaid (l : Label) (last : Option Value) (h : s.LaidOver below t) :
    (jumpTo program l last s).Overlaid below (jumpTo program l last t) := by
  rw [jumpTo, jumpTo]
  cases target? program l with
  | none => exact .halted (.fault h)
  | some n => exact .running h

theorem step_overlaid (next : Nat) (last : Option Value) (h : s.LaidOver below t) :
    (step program ⟨next, last, s⟩).Overlaid below (step program ⟨next, last, t⟩) := by
  rw [step, step]
  cases program[next]? with
  | none => exact .halted (.done h)
  | some u =>
    cases u with
    | declaration v e =>
      have he := e.eval_overlaid h
      dsimp only
      generalize e.eval s = o, e.eval t = o' at he
      cases he with
      | done hstore => exact .running (hstore.set v _)
      | fault hstore => exact .halted (.fault hstore)
      | undefined => exact .undefined
    | expression e =>
      have he := e.eval_overlaid h
      dsimp only
      generalize e.eval s = o, e.eval t = o' at he
      cases he with
      | done hstore => exact .running hstore
      | fault hstore => exact .halted (.fault hstore)
      | undefined => exact .undefined
    | jumpIf l c onFalse =>
      have hc := c.eval_overlaid h
      dsimp only
      generalize c.eval s = o, c.eval t = o' at hc
      cases hc with
      | fault hstore => exact .halted (.fault hstore)
      | undefined => exact .undefined
      | @done x _ _ hstore =>
        dsimp only
        cases x.truth? with
        | none => exact .halted (.fault hstore)
        | some b =>
          dsimp only
          split
          · exact jumpTo_overlaid l last hstore
          · exact .running hstore
    | jump l => exact jumpTo_overlaid l last h
    | label l => exact .running h
    | _ => exact .halted (.fault h)

/-- Whether two runs within a number of steps end alike, or none of them ends, or the first one ends
because a variable is undefined. -/
inductive Overlaid (below : Store) :
    Option (Outcome (Option Value)) → Option (Outcome (Option Value)) → Prop
  | none : Overlaid below none none
  | some {o o' : Outcome (Option Value)} : o.SameOver below o' → Overlaid below (some o) (some o')
  | undefined {name : String} {s : Store} {r : Option (Outcome (Option Value))} :
    Overlaid below (some (.fault (.undefinedVariable name) s)) r

theorem run_overlaid (n next : Nat) (last : Option Value) (h : s.LaidOver below t) :
    Overlaid below (run program n ⟨next, last, s⟩) (run program n ⟨next, last, t⟩) := by
  induction n generalizing next last s t with
  | zero => exact .none
  | succ n ih =>
    have hstep : (step program ⟨next, last, s⟩).Overlaid below (step program ⟨next, last, t⟩) :=
      step_overlaid next last h
    rw [run, run]
    generalize step program ⟨next, last, s⟩ = r, step program ⟨next, last, t⟩ = r' at hstep
    cases hstep with
    | running hstore => exact ih _ _ hstore
    | halted hsame => exact .some hsame
    | undefined => exact .undefined

/-- What it is for a program to run on a store as it does on one with fewer entries. -/
structure RunsAlike (program : List Stmt) (s t : Store) : Prop where
  ends {budget : Nat} {o : Outcome (Option Value)} :
    evaluate budget program s = some o → ∃ o', evaluate budget program t = some o' ∧ o.SameOver t o'
  diverges :
    (∀ budget, evaluate budget program s = none) ↔ ∀ budget, evaluate budget program t = none

/-- A program that misses no variable on a store runs alike on every store with more entries. -/
theorem runsAlike_of_within {program : List Stmt} (hst : s.Within t)
    (h : ∀ budget name σ, evaluate budget program s ≠ some (.fault (.undefinedVariable name) σ)) :
    RunsAlike program s t := by
  have halike (budget : Nat) : Overlaid t (evaluate budget program s) (evaluate budget program t) :=
    run_overlaid budget 0 none hst.laidOver
  refine ⟨fun {budget o} ho => ?_, ?_⟩
  · have hbudget := halike budget
    have hdefined := h budget
    rw [ho] at hbudget hdefined
    generalize evaluate budget program t = r at hbudget
    cases hbudget with
    | some hsame => exact ⟨_, rfl, hsame⟩
    | undefined => exact absurd rfl (hdefined _ _)
  · refine forall_congr' fun budget => ?_
    have hbudget := halike budget
    have hdefined := h budget
    generalize evaluate budget program s = r, evaluate budget program t = r' at hbudget hdefined
    cases hbudget with
    | none => exact Iff.rfl
    | some _ => simp
    | undefined => exact absurd rfl (hdefined _ _)

theorem evaluate_unique {program : List Stmt} {m n : Nat} {o o' : Outcome (Option Value)}
    (ho : evaluate m program s = some o) (ho' : evaluate n program s = some o') : o = o' := by
  have hleft : evaluate (max m n) program s = some o := run_mono (Nat.le_max_left m n) ho
  have hright : evaluate (max m n) program s = some o' := run_mono (Nat.le_max_right m n) ho'
  exact Option.some.inj (hleft.symm.trans hright)

end Machine

end Lumen
