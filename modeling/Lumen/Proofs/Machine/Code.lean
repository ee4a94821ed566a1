import Lumen.Machine
import Lumen.Proofs.Bound.Execution
import Lumen.Proofs.Bound.Labels

/-!
# Code inside a flat program

What the machine does at a position depends only on the statement there, and for a jump on where
its label stands. So a piece of code acts alike wherever it is placed, as long as every label of
the whole program is set once.
-/

namespace Lumen.Machine

open Lumen.Bound (Expr Run Stmt)
open Lumen.Bound.Stmt (labels)

/-- A piece of code stands in a program from a position on. -/
def CodeAt (program : Array Stmt) : Nat → List Stmt → Prop
  | _, [] => True
  | p, s :: ss => program[p]? = some s ∧ CodeAt program (p + 1) ss

variable {program : Array Stmt} {p q n : Nat} {last : Option Value} {σ : Store}

@[simp] theorem codeAt_nil : CodeAt program p [] := trivial

@[simp] theorem codeAt_cons {s : Stmt} {ss : List Stmt} :
    CodeAt program p (s :: ss) ↔ program[p]? = some s ∧ CodeAt program (p + 1) ss := Iff.rfl

@[simp] theorem codeAt_append {a b : List Stmt} :
    CodeAt program p (a ++ b) ↔ CodeAt program p a ∧ CodeAt program (p + a.length) b := by
  induction a generalizing p with
  | nil => simp
  | cons s ss ih =>
    rw [List.cons_append, codeAt_cons, codeAt_cons, ih, List.length_cons, and_assoc,
      Nat.add_right_comm, Nat.add_assoc p]

theorem codeAt_of_append (before code : List Stmt) :
    CodeAt (before ++ code).toArray before.length code := by
  induction code generalizing before with
  | nil => trivial
  | cons s ss ih =>
    refine ⟨by simp, ?_⟩
    have h := ih (before ++ [s])
    rwa [List.append_assoc, List.singleton_append, List.length_append] at h

theorem targetFrom?_eq_none {l : Label} {ss : List Stmt} (h : l ∉ labels ss) (pos : Nat) :
    targetFrom? l pos ss = none := by
  induction ss generalizing pos with
  | nil => rfl
  | cons s ss ih =>
    have hs : s ≠ .label l := by
      rintro rfl
      exact h List.mem_cons_self
    have hss : l ∉ labels ss := fun hl => by
      rw [← List.singleton_append, Stmt.labels_append] at h
      exact h (List.mem_append_right _ hl)
    rw [targetFrom?, ih hss, if_neg hs]

theorem targetFrom?_eq_some {l : Label} {ss : List Stmt} {i : Nat} (hnd : (labels ss).Nodup)
    (h : ss[i]? = some (.label l)) (pos : Nat) : targetFrom? l pos ss = some (pos + i + 1) := by
  induction ss generalizing i pos with
  | nil => cases h
  | cons s ss ih =>
    rw [← List.singleton_append, Stmt.labels_append] at hnd
    cases i with
    | zero =>
      cases h
      have hl : l ∉ labels ss := (List.nodup_cons.mp hnd).1
      rw [targetFrom?, targetFrom?_eq_none hl, if_pos rfl, Nat.add_zero]
    | succ i =>
      rw [targetFrom?, ih (List.nodup_append.mp hnd).2.1 h]
      simp only [Option.some.injEq]
      omega

theorem target?_eq_some {l : Label} (hnd : (labels program.toList).Nodup)
    (h : program[p]? = some (.label l)) : target? program l = some (p + 1) := by
  rw [target?, targetFrom?_eq_some hnd (by simpa using h), Nat.zero_add]

theorem run_declaration {v : Variable} {e : Expr}
    (h : program[p]? = some (.declaration v e)) :
    run program (n + 1) ⟨p, last, σ⟩ =
      (e.eval σ).andThen fun x σ' => run program n ⟨p + 1, some x, σ'.set v x⟩ := by
  simp only [run, step, h]
  cases e.eval σ <;> rfl

theorem run_expression {e : Expr} (h : program[p]? = some (.expression e)) :
    run program (n + 1) ⟨p, last, σ⟩ =
      (e.eval σ).andThen fun x σ' => run program n ⟨p + 1, some x, σ'⟩ := by
  simp only [run, step, h]
  cases e.eval σ <;> rfl

theorem run_label {l : Label} (h : program[p]? = some (.label l)) :
    run program (n + 1) ⟨p, last, σ⟩ = run program n ⟨p + 1, last, σ⟩ := by
  simp only [run, step, h]

theorem run_jump {l : Label} (hnd : (labels program.toList).Nodup)
    (h : program[p]? = some (.jump l)) (hq : program[q]? = some (.label l)) :
    run program (n + 1) ⟨p, last, σ⟩ = run program n ⟨q + 1, last, σ⟩ := by
  simp only [run, step, h, jumpTo, target?_eq_some hnd hq]

theorem run_jumpIf_of_done {l : Label} {c : Expr} {onFalse b : Bool} {σ' : Store}
    (hnd : (labels program.toList).Nodup) (h : program[p]? = some (.jumpIf l c onFalse))
    (hq : program[q]? = some (.label l)) (hc : c.test σ = .done b σ') :
    run program (n + 1) ⟨p, last, σ⟩ =
      run program n ⟨if b = onFalse then p + 1 else q + 1, last, σ'⟩ := by
  simp only [run, step, h]
  rw [Expr.test] at hc
  cases he : c.eval σ with
  | fault f s => rw [he] at hc; cases hc
  | done x s =>
    rw [he] at hc
    cases x with
    | int i => cases hc
    | bool x =>
      cases hc
      by_cases hb : b = onFalse
      · simp [Value.truth?, hb]
      · simp [Value.truth?, hb, jumpTo, target?_eq_some hnd hq]

theorem run_jumpIf_of_fault {l : Label} {c : Expr} {onFalse : Bool} {f : Fault} {σ' : Store}
    (h : program[p]? = some (.jumpIf l c onFalse)) (hc : c.test σ = .fault f σ') :
    run program (n + 1) ⟨p, last, σ⟩ = some (.fault f σ') := by
  simp only [run, step, h]
  rw [Expr.test] at hc
  cases he : c.eval σ with
  | fault g s => rw [he] at hc; cases hc; rfl
  | done x s =>
    rw [he] at hc
    cases x <;> cases hc
    rfl

theorem run_end (h : program.size ≤ p) :
    run program (n + 1) ⟨p, last, σ⟩ = some (.done last σ) := by
  rw [run, step, Array.getElem?_eq_none h]

end Lumen.Machine

namespace Lumen.Bound.Stmt

variable (k p : Nat) (c : Expr) (s t : Stmt)

theorem behind_loop (body : List Stmt) :
    p + (loop k c body).length = p + 2 + body.length + 3 := by
  simp only [loop, List.length_cons, List.length_append, List.length_nil]
  omega

theorem behind_ifThen :
    p + ((ifThen c s).lowerFrom k).length = p + 1 + (s.lowerFrom (k + 1)).length + 1 := by
  simp only [lowerFrom, List.length_cons, List.length_append, List.length_nil]
  omega

theorem behind_ifElse :
    p + ((ifElse c s t).lowerFrom k).length =
      p + 1 + (s.lowerFrom (k + 2)).length + 1 + 1 +
        (t.lowerFrom (k + 2 + s.labelCount)).length + 1 := by
  simp only [lowerFrom, List.length_cons, List.length_append, List.length_nil]
  omega

theorem behind_forLoop (v : Variable) (lower upper : Expr) :
    p + ((forLoop v lower upper s).lowerFrom k).length =
      p + 1 + (loop k (withinBound v upper) (s.lowerFrom (k + 3) ++ [increment v])).length := by
  simp only [lowerFrom, List.length_cons]
  omega

end Lumen.Bound.Stmt
