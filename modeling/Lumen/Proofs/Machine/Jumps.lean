import Lumen.Proofs.Bound.Jumps
import Lumen.Proofs.Machine.Code

/-!
# Jumps of a run

In aimed code whose labels are set once, every jump has a destination and only the checks of loops
go back. So a lowered program never fails for its form. If it has no loops, then each step of a run
goes forward, so the run ends and executes no statement twice.
-/

namespace Lumen

/-- Whether a fault is one of the form of a program. -/
def Fault.OfForm : Fault → Prop
  | undefinedLabel _ => True
  | unexpectedStatement _ => True
  | _ => False

def Outcome.KeepsForm {α : Type} : Outcome α → Prop
  | done _ _ => True
  | fault f _ => ¬ f.OfForm

theorem UnaryKind.apply_keepsForm (kind : UnaryKind) (x : Value) (s : Store) :
    (Outcome.ofExcept s (kind.apply x)).KeepsForm := by
  cases kind <;> cases x <;> simp [apply, Outcome.ofExcept, Outcome.KeepsForm, Fault.OfForm]

theorem BinaryKind.apply_keepsForm (kind : BinaryKind) (x y : Value) (s : Store) :
    (Outcome.ofExcept s (kind.apply x y)).KeepsForm := by
  cases x with
  | int l =>
    cases y with
    | int r =>
      rw [apply]
      split
      · exact not_false
      · split
        · trivial
        · exact not_false
    | bool r => exact not_false
  | bool l =>
    cases y with
    | int r => exact not_false
    | bool r =>
      rw [apply]
      split
      · trivial
      · exact not_false

theorem Bound.Expr.eval_keepsForm : ∀ (e : Expr) (s : Store), (e.eval s).KeepsForm
  | .literal _, _ => trivial
  | .variable x, s => by
    rw [eval]
    cases s.get? x with
    | none => exact not_false
    | some v => trivial
  | .assignment x e, s => by
    have he := eval_keepsForm e s
    rw [eval]
    cases heval : e.eval s with
    | done v s' => trivial
    | fault f s' => rwa [heval] at he
  | .unary op e, s => by
    have he := eval_keepsForm e s
    rw [eval]
    cases heval : e.eval s with
    | done v s' => exact op.kind.apply_keepsForm v s'
    | fault f s' => rwa [heval] at he
  | .binary l op r, s => by
    have hl := eval_keepsForm l s
    rw [eval]
    cases hleft : l.eval s with
    | fault f s' => rwa [hleft] at hl
    | done v s' =>
      have hr := eval_keepsForm r s'
      dsimp only
      cases hright : r.eval s' with
      | done w s'' => exact op.kind.apply_keepsForm v w s''
      | fault f s'' => rwa [hright] at hr

namespace Machine

open Lumen.Bound (Stmt Expr numbered)
open Lumen.Bound.Stmt (Aimed labels mem_labels_iff)

/-- Whether the statement with a number is a jump to itself or to a statement before it. -/
def goesBack (program : Array Stmt) (i : Nat) : Bool :=
  match (program[i]?.bind Stmt.destination?).bind (target? program) with
  | none => false
  | some n => n ≤ i

/-- The numbers of the statements that a run executes within a number of steps, in order. -/
def executed (program : Array Stmt) : Nat → State → List Nat
  | 0, _ => []
  | budget + 1, s =>
    if s.next < program.size then
      s.next ::
        match step program s with
        | .halted _ => []
        | .running s' => executed program budget s'
    else []

section

variable {a b code : List Stmt} {i : Nat} {t : Stmt} {l : Label}

theorem target?_before (hnodup : (labels (a ++ t :: b)).Nodup) (hl : l ∈ labels a) :
    ∃ n ≤ a.length, target? (a ++ t :: b).toArray l = some n := by
  obtain ⟨p, hp⟩ := List.mem_iff_getElem?.mp (mem_labels_iff.mp hl)
  have hlt : p < a.length := (List.getElem?_eq_some_iff.mp hp).1
  have hcode : (a ++ t :: b)[p]? = some (.label l) := by rwa [List.getElem?_append_left hlt]
  exact ⟨p + 1, hlt, target?_eq_some hnodup (by simpa using hcode)⟩

theorem target?_behind (hnodup : (labels (a ++ t :: b)).Nodup) (hl : l ∈ labels b) :
    ∃ n, a.length < n ∧ target? (a ++ t :: b).toArray l = some n := by
  obtain ⟨p, hp⟩ := List.mem_iff_getElem?.mp (mem_labels_iff.mp hl)
  have hcode : (a ++ t :: b)[a.length + (p + 1)]? = some (.label l) := by
    rwa [List.getElem?_append_right (Nat.le_add_right _ _), Nat.add_sub_cancel_left,
      List.getElem?_cons_succ]
  exact ⟨a.length + (p + 1) + 1, by omega, target?_eq_some hnodup (by simpa using hcode)⟩

/-- Each jump of aimed code has a destination, which lies behind the jump unless it is a check. -/
theorem exists_target (haimed : Aimed [] [] code) (hnodup : (labels code).Nodup)
    (hi : code[i]? = some t) (hl : t.destination? = some l) :
    ∃ n, target? code.toArray l = some n ∧ (n ≤ i ↔ t.check?.isSome = true) := by
  obtain ⟨hlt, rfl⟩ := List.getElem?_eq_some_iff.mp hi
  obtain ⟨a, b, hcode, rfl⟩ : ∃ a b, code = a ++ code[i] :: b ∧ a.length = i := by
    refine ⟨code.take i, code.drop (i + 1), ?_, List.length_take_of_le (Nat.le_of_lt hlt)⟩
    rw [← List.drop_eq_getElem_cons hlt, List.take_append_drop]
  generalize code[a.length] = t at hcode hl ⊢
  subst hcode
  have hmem := haimed.mem_labels hl
  by_cases hcheck : t.check?.isSome = true
  · rw [if_pos hcheck, List.nil_append] at hmem
    obtain ⟨n, hn, htarget⟩ := target?_before hnodup hmem
    exact ⟨n, htarget, iff_of_true hn hcheck⟩
  · rw [if_neg hcheck, List.append_nil] at hmem
    obtain ⟨n, hn, htarget⟩ := target?_behind hnodup hmem
    exact ⟨n, htarget, iff_of_false (Nat.not_le_of_lt hn) hcheck⟩

theorem goesBack_iff (haimed : Aimed [] [] code) (hnodup : (labels code).Nodup) :
    goesBack code.toArray i = true ↔ ∃ l c, code[i]? = some (.jumpIf l c false) := by
  rw [goesBack, List.getElem?_toArray]
  cases hi : code[i]? with
  | none => simp
  | some t =>
    rw [Option.bind_some]
    cases hl : t.destination? with
    | none => cases t <;> simp_all [Stmt.destination?]
    | some l =>
      obtain ⟨n, hn, hback⟩ := exists_target haimed hnodup hi hl
      rw [Option.bind_some, hn]
      dsimp only
      rw [decide_eq_true_iff, hback]
      cases t with
      | jumpIf m c onFalse => cases onFalse <;> simp [Stmt.check?]
      | jump m => simp [Stmt.check?]
      | _ => cases hl

theorem countP_range_getElem? (p : Option Stmt → Bool) (code : List Stmt) :
    (List.range code.length).countP (fun i => p code[i]?) = code.countP (p ∘ some) := by
  have hread : (List.range code.length).map (code[·]?) = code.map some := by
    refine List.ext_getElem (by simp) fun i hi _ => ?_
    have hlt : i < code.length := by simpa using hi
    simp [hlt]
  rw [← List.countP_map, ← hread, List.countP_map]
  rfl

theorem countP_goesBack (haimed : Aimed [] [] code) (hnodup : (labels code).Nodup) :
    (List.range code.length).countP (goesBack code.toArray) =
      (code.filterMap Stmt.check?).length := by
  have hback (i : Nat) : goesBack code.toArray i = (code[i]?.bind Stmt.check?).isSome := by
    rw [Bool.eq_iff_iff, goesBack_iff haimed hnodup]
    cases code[i]? with
    | none => simp
    | some t =>
      cases t with
      | jumpIf l c onFalse => cases onFalse <;> simp [Stmt.check?]
      | _ => simp [Stmt.check?]
  rw [funext hback, countP_range_getElem? fun o => (o.bind Stmt.check?).isSome,
    List.length_filterMap_eq_countP]
  rfl

end

section

variable {program : Array Stmt} {s s' : State} {o : Outcome (Option Value)} {budget : Nat}

/-- Whether a program has flat statements only and each of its jumps has a destination. -/
structure Closed (program : Array Stmt) : Prop where
  flat : ∀ t ∈ program, t.Flat
  target : ∀ t ∈ program, ∀ l, t.destination? = some l → ∃ n, target? program l = some n

theorem jumpTo_ne_halted {l : Label} {last : Option Value} {σ : Store}
    (h : ∃ n, target? program l = some n) : jumpTo program l last σ ≠ .halted o := by
  obtain ⟨n, hn⟩ := h
  rw [jumpTo, hn]
  intro hjump
  cases hjump

theorem step_keepsForm (hclosed : Closed program) (h : step program s = .halted o) :
    o.KeepsForm := by
  rw [step] at h
  cases hread : program[s.next]? with
  | none =>
    rw [hread] at h
    cases h
    trivial
  | some t =>
    have ht : t ∈ program := Array.mem_of_getElem? hread
    have hflat := hclosed.flat t ht
    have htarget := hclosed.target t ht
    rw [hread] at h
    cases t with
    | declaration v e | expression e =>
      have he := e.eval_keepsForm s.store
      dsimp only at h
      cases heval : e.eval s.store with
      | done x σ =>
        rw [heval] at h
        cases h
      | fault f σ =>
        rw [heval] at h he
        cases h
        exact he
    | jumpIf l c onFalse =>
      have hc := c.eval_keepsForm s.store
      dsimp only at h
      cases heval : c.eval s.store with
      | fault f σ =>
        rw [heval] at h hc
        cases h
        exact hc
      | done x σ =>
        rw [heval] at h
        dsimp only at h
        split at h
        · cases h
          exact not_false
        · split at h
          · exact absurd h (jumpTo_ne_halted (htarget l rfl))
          · cases h
    | jump l => exact absurd h (jumpTo_ne_halted (htarget l rfl))
    | label l => cases h
    | _ => exact hflat.elim

theorem run_keepsForm (hclosed : Closed program) (h : run program budget s = some o) :
    o.KeepsForm := by
  induction budget generalizing s with
  | zero => cases h
  | succ budget ih =>
    rw [run] at h
    cases hstep : step program s with
    | halted o' =>
      rw [hstep] at h
      cases h
      exact step_keepsForm hclosed hstep
    | running s' =>
      rw [hstep] at h
      exact ih h

theorem target_of_jumpTo {l : Label} {last : Option Value} {σ : Store}
    (h : jumpTo program l last σ = .running s') : target? program l = some s'.next := by
  rw [jumpTo] at h
  cases htarget : target? program l with
  | none =>
    rw [htarget] at h
    cases h
  | some n =>
    rw [htarget] at h
    cases h
    rfl

theorem next_of_step (h : step program s = .running s') : ∃ t, program[s.next]? = some t ∧
    (s'.next = s.next + 1 ∨ t.destination?.bind (target? program) = some s'.next) := by
  rw [step] at h
  cases hread : program[s.next]? with
  | none =>
    rw [hread] at h
    cases h
  | some t =>
    rw [hread] at h
    refine ⟨t, rfl, ?_⟩
    cases t with
    | declaration v e | expression e =>
      dsimp only at h
      split at h <;> cases h
      exact Or.inl rfl
    | jumpIf l c onFalse =>
      dsimp only at h
      split at h
      · cases h
      · split at h
        · cases h
        · split at h
          · exact Or.inr (target_of_jumpTo h)
          · cases h
            exact Or.inl rfl
    | jump l => exact Or.inr (target_of_jumpTo h)
    | label l =>
      cases h
      exact Or.inl rfl
    | _ => cases h

theorem lt_next_of_step (hforward : ∀ i, goesBack program i = false)
    (h : step program s = .running s') : s.next < s'.next ∧ s.next < program.size := by
  obtain ⟨t, hread, hnext⟩ := next_of_step h
  refine ⟨?_, (Array.getElem?_eq_some_iff.mp hread).1⟩
  rcases hnext with hnext | hnext
  · omega
  · have hback := hforward s.next
    rw [goesBack, hread, Option.bind_some, hnext] at hback
    exact Nat.lt_of_not_le (of_decide_eq_false hback)

theorem run_of_forward (hforward : ∀ i, goesBack program i = false)
    (hbudget : program.size - s.next < budget) : ∃ o, run program budget s = some o := by
  induction budget generalizing s with
  | zero => cases hbudget
  | succ budget ih =>
    rw [run]
    cases hstep : step program s with
    | halted o => exact ⟨o, rfl⟩
    | running s' =>
      obtain ⟨hnext, hsize⟩ := lt_next_of_step hforward hstep
      exact ih (by omega)

theorem executed_sorted (hforward : ∀ i, goesBack program i = false) (budget : Nat) (s : State) :
    (executed program budget s).Pairwise (· < ·) ∧
      ∀ i ∈ executed program budget s, s.next ≤ i := by
  induction budget generalizing s with
  | zero => simp [executed]
  | succ budget ih =>
    rw [executed]
    split
    · cases hstep : step program s with
      | halted o => simp
      | running s' =>
        obtain ⟨hlt, -⟩ := lt_next_of_step hforward hstep
        obtain ⟨hsorted, hle⟩ := ih s'
        have hall : ∀ i ∈ executed program budget s', s.next < i :=
          fun i hi => Nat.lt_of_lt_of_le hlt (hle i hi)
        refine ⟨List.pairwise_cons.mpr ⟨hall, hsorted⟩, ?_⟩
        exact List.forall_mem_cons.mpr ⟨Nat.le_refl _, fun i hi => Nat.le_of_lt (hall i hi)⟩
    · simp

end

end Machine

namespace Bound.Stmt

open Machine

variable {s : Stmt}

/-- A flat program is the closed form of a statement if its labels are those numbered from one on,
each set once, its jumps lead to them and only the checks of the loops go back. Then no run of it
fails for its form, and without loops every run ends and executes no statement twice. -/
structure ClosedForm (s : Stmt) (program : List Stmt) : Prop where
  flat : ∀ t ∈ program, t.Flat
  labels_perm : (labels program).Perm ((List.range' 1 (s.parts.countP isIfThen +
    2 * s.parts.countP isIfElse + 3 * s.parts.countP isLoop)).map numbered)
  destination_mem : ∀ t ∈ program, ∀ l, t.destination? = some l → l ∈ labels program
  goesBack_iff : ∀ i : Nat,
    goesBack program.toArray i = true ↔ ∃ l c, program[i]? = some (.jumpIf l c false)
  checks_eq : program.filterMap check? = s.loopConditions
  countP_goesBack :
    (List.range program.length).countP (goesBack program.toArray) = s.parts.countP isLoop
  keepsForm : ∀ budget store o, evaluate budget program store = some o → o.KeepsForm
  ends : s.parts.countP isLoop = 0 → ∀ store,
    (∃ o, evaluate (program.length + 1) program store = some o) ∧
      ∀ budget, (executed program.toArray budget (.start store)).Nodup

theorem closed_lowerFrom (k : Nat) (h : s.Structured) : Closed (s.lowerFrom k).toArray where
  flat t ht := flat_lowerFrom s k t (by simpa using ht)
  target t ht l hl := by
    obtain ⟨i, hi⟩ := List.mem_iff_getElem?.mp (List.mem_toArray.mp ht)
    obtain ⟨n, hn, -⟩ := exists_target (aimed_lowerFrom k h) (nodup_labels_lowerFrom k h) hi hl
    exact ⟨n, hn⟩

/-- The flat form of a structured statement is closed. -/
theorem closedForm_lower (h : s.Structured) : ClosedForm s s.lower := by
  have haimed : Aimed [] [] s.lower := aimed_lowerFrom 0 h
  have hnodup : (labels s.lower).Nodup := nodup_labels_lowerFrom 0 h
  have hcount : (List.range s.lower.length).countP (goesBack s.lower.toArray) =
      s.parts.countP isLoop := by
    rw [Machine.countP_goesBack haimed hnodup, lower, checks_lowerFrom 0 h, length_loopConditions]
  refine ⟨flat_lowerFrom s 0, ?_, fun t ht l hl => haimed.destination_mem ht hl,
    fun i => Machine.goesBack_iff haimed hnodup, checks_lowerFrom 0 h, hcount,
    fun budget store o => run_keepsForm (closed_lowerFrom 0 h), ?_⟩
  · rw [← labelCount_eq]
    exact labels_lowerFrom_perm 0 h
  · intro hloops store
    have hforward (i : Nat) : goesBack s.lower.toArray i = false := by
      refine Bool.eq_false_iff.mpr fun hback => ?_
      obtain ⟨l, c, hi⟩ := (Machine.goesBack_iff haimed hnodup).mp hback
      have hlt : i < s.lower.length := (List.getElem?_eq_some_iff.mp hi).1
      exact List.countP_eq_zero.mp (hcount.trans hloops) i (List.mem_range.mpr hlt) hback
    refine ⟨run_of_forward hforward ?_, fun budget => ?_⟩
    · simp [State.start]
    · exact (executed_sorted hforward budget _).1.imp Nat.ne_of_lt

/-- A loop around a branch is lowered to code with one jump back, and a branch alone to code that
ends. -/
theorem closedForm_lower_of_branch :
    let condition := .variable ⟨0, "x", .bool, true⟩
    let branch := ifElse condition (block []) (expression (.literal (.int 1)))
    let program := whileLoop (.literal (.bool true)) branch
    ClosedForm program program.lower ∧
      (List.range program.lower.length).countP (goesBack program.lower.toArray) = 1 ∧
      ∃ o, evaluate (branch.lower.length + 1) branch.lower ∅ = some o := by
  intro condition branch program
  have hbranch : branch.Structured := ⟨trivial, trivial⟩
  have hprogram : ClosedForm program program.lower := closedForm_lower hbranch
  have hcount : program.parts.countP isLoop = 1 := by decide
  refine ⟨hprogram, hprogram.countP_goesBack.trans hcount, ?_⟩
  exact ((closedForm_lower hbranch).ends (by decide) ∅).1

end Bound.Stmt

end Lumen
