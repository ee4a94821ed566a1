import Lumen.Proofs.Machine.Code

/-!
# Lowering keeps the meaning

The flat form of a structured statement, wherever it stands in a program whose labels are set once,
performs the structured execution of the statement. Performing is meant in both directions: an
outcome of the statement leads the machine on behind the code, and when the machine ends, the
statement has ended within some budget. Hence a whole program and its flat form have the same
outcomes, and the one runs forever exactly if the other does.
-/

namespace Lumen.Machine

open Lumen.Bound (Expr Run Stmt withinUpper)
open Lumen.Bound.Stmt (labels)

variable {program : Array Stmt} {p q w n : Nat} {last : Option Value} {σ : Store}
  {o res : Outcome (Option Value)}

/-- The machine ends with `o` when it goes on at `q` from what a piece of code has come to. -/
def Follows (program : Array Stmt) (n q : Nat) (o : Outcome (Option Value)) :
    Outcome (Option Value) → Prop
  | .done last σ => run program n ⟨q, last, σ⟩ = some o
  | .fault f σ => o = .fault f σ

/-- The code from `p` to `q` does what a run does, which is given a budget. -/
structure Performs (program : Array Stmt) (p q : Nat) (r : Nat → Run) : Prop where
  growing : Run.Growing r
  forward : ∀ {n b last σ res o}, r b last σ = some res → Follows program n q o res →
    ∃ m, run program m ⟨p, last, σ⟩ = some o
  backward : ∀ {n last σ o}, run program n ⟨p, last, σ⟩ = some o →
    ∃ b res, r b last σ = some res ∧ Follows program n q o res

theorem Follows.mono {m : Nat} (hmn : m ≤ n) (h : Follows program m q o res) :
    Follows program n q o res := by
  cases res with
  | done last σ => exact run_mono hmn h
  | fault f σ => exact h

/-- One statement that goes on at a fixed position performs what it does to the state. -/
theorem performs_of_run {r : Run}
    (h : ∀ n last σ, run program (n + 1) ⟨p, last, σ⟩ =
      (r last σ).bind fun o => o.andThen fun l s => run program n ⟨q, l, s⟩)
    (hr : ∀ last σ, r last σ ≠ none) : Performs program p q fun _ => r where
  growing := Run.Growing.const r
  forward {n _ last σ res o} hres ho := by
    refine ⟨n + 1, ?_⟩
    rw [h, hres, Option.bind_some]
    cases res with
    | done l s => exact ho
    | fault f s => exact congrArg some ho.symm
  backward {n last σ o} ho := by
    obtain ⟨res, hres⟩ := Option.ne_none_iff_exists'.mp (hr last σ)
    refine ⟨0, res, hres, ?_⟩
    cases n with
    | zero => cases ho
    | succ n =>
      rw [h, hres, Option.bind_some] at ho
      cases res with
      | done l s => exact run_succ_of_run ho
      | fault f s => exact (Option.some.inj ho).symm

theorem performs_nil : Performs program p p fun _ => Run.skip where
  growing := Run.Growing.const _
  forward {n _ last σ res o} hres ho := by
    cases hres
    exact ⟨n, ho⟩
  backward ho := ⟨0, _, rfl, ho⟩

theorem performs_declaration {v : Variable} {e : Expr}
    (h : program[p]? = some (.declaration v e)) :
    Performs program p (p + 1) fun _ => Run.declare v e := by
  refine performs_of_run (fun n last σ => ?_) (fun last σ => ?_)
  · rw [run_declaration h, Run.declare]
    cases e.eval σ <;> rfl
  · rw [Run.declare]
    cases e.eval σ <;> simp

theorem performs_expression {e : Expr} (h : program[p]? = some (.expression e)) :
    Performs program p (p + 1) fun _ => Run.record e := by
  refine performs_of_run (fun n last σ => ?_) (fun last σ => ?_)
  · rw [run_expression h, Run.record]
    cases e.eval σ <;> rfl
  · rw [Run.record]
    cases e.eval σ <;> simp

theorem performs_label {l : Label} (h : program[p]? = some (.label l)) :
    Performs program p (p + 1) fun _ => Run.skip :=
  performs_of_run (fun _ _ _ => run_label h) fun _ _ => Option.some_ne_none _

theorem performs_jump {l : Label} (hnd : (labels program.toList).Nodup)
    (h : program[p]? = some (.jump l)) (hq : program[q]? = some (.label l)) :
    Performs program p (q + 1) fun _ => Run.skip :=
  performs_of_run (fun _ _ _ => run_jump hnd h hq) fun _ _ => Option.some_ne_none _

theorem Performs.seq {r t : Nat → Run} (hr : Performs program p q r)
    (ht : Performs program q w t) : Performs program p w fun b => Run.seq (r b) (t b) where
  growing := hr.growing.seq ht.growing
  forward {n b last σ res o} hres ho := by
    obtain ⟨mid, hmid, hnext⟩ := Option.bind_eq_some_iff.mp hres
    cases mid with
    | done l s =>
      obtain ⟨m, hm⟩ := ht.forward hnext ho
      exact hr.forward hmid hm
    | fault f s =>
      cases hnext
      exact hr.forward (n := n) hmid ho
  backward {n last σ o} ho := by
    obtain ⟨a, mid, hmid, hnext⟩ := hr.backward ho
    cases mid with
    | fault f s =>
      exact ⟨a, .fault f s, by rw [Run.seq, hmid]; rfl, hnext⟩
    | done l s =>
      obtain ⟨b, res, hres, hfollows⟩ := ht.backward hnext
      refine ⟨max a b, res, ?_, hfollows⟩
      rw [Run.seq, hr.growing (Nat.le_max_left a b) _ _ _ hmid]
      exact ht.growing (Nat.le_max_right a b) _ _ _ hres

/-- A conditional jump performs the code at one of two positions. -/
theorem performs_jumpIf {l : Label} {c : Expr} {onFalse : Bool} {r t : Nat → Run}
    (hnd : (labels program.toList).Nodup) (h : program[p]? = some (.jumpIf l c onFalse))
    (hl : program[w]? = some (.label l)) (hr : Performs program (p + 1) q r)
    (ht : Performs program (w + 1) q t) :
    Performs program p q fun b last s =>
      (c.test s).andThen fun x s' => if x = onFalse then r b last s' else t b last s' where
  growing := by
    refine Run.Growing.andThen fun x => ?_
    split
    · exact hr.growing
    · exact ht.growing
  forward {n b last σ res o} hres ho := by
    cases hc : c.test σ with
    | fault f s =>
      rw [hc] at hres
      cases hres
      exact ⟨1, (run_jumpIf_of_fault h hc).trans (congrArg some ho.symm)⟩
    | done x s =>
      rw [hc, Outcome.andThen_done] at hres
      split at hres
      · next hx =>
        obtain ⟨m, hm⟩ := hr.forward hres ho
        exact ⟨m + 1, by rw [run_jumpIf_of_done hnd h hl hc, if_pos hx, hm]⟩
      · next hx =>
        obtain ⟨m, hm⟩ := ht.forward hres ho
        exact ⟨m + 1, by rw [run_jumpIf_of_done hnd h hl hc, if_neg hx, hm]⟩
  backward {n last σ o} ho := by
    cases n with
    | zero => cases ho
    | succ n =>
      cases hc : c.test σ with
      | fault f s =>
        rw [run_jumpIf_of_fault h hc] at ho
        exact ⟨0, .fault f s, rfl, (Option.some.inj ho).symm⟩
      | done x s =>
        rw [run_jumpIf_of_done hnd h hl hc] at ho
        simp only [Outcome.andThen_done]
        split at ho
        · next hx =>
          obtain ⟨b, res, hres, hfollows⟩ := hr.backward ho
          exact ⟨b, res, by rw [if_pos hx]; exact hres, hfollows.mono (Nat.le_succ n)⟩
        · next hx =>
          obtain ⟨b, res, hres, hfollows⟩ := ht.backward ho
          exact ⟨b, res, by rw [if_neg hx]; exact hres, hfollows.mono (Nat.le_succ n)⟩

/-- The check of a loop together with its body performs the repetition of a round. -/
theorem performs_loop {k l : Label} {c : Expr} {r : Nat → Run}
    (hnd : (labels program.toList).Nodup) (hl : program[p]? = some (.label l))
    (hk : program[q]? = some (.label k)) (hq : program[q + 1]? = some (.jumpIf l c false))
    (hr : Performs program (p + 1) q r) :
    Performs program (q + 1) (q + 2) fun b => Run.repeatWhile c.test (r b) b where
  growing := hr.growing.repeatWhile c.test
  forward {n b last σ res o} hres ho := by
    suffices h : ∀ a last σ, Run.repeatWhile c.test (r b) a last σ = some res →
        ∃ m, run program m ⟨q + 1, last, σ⟩ = some o from h b last σ hres
    intro a
    induction a with
    | zero => intro last σ h; cases h
    | succ a ih =>
      intro last σ h
      cases hc : c.test σ with
      | fault f s =>
        rw [Run.repeatWhile_of_fault hc] at h
        cases h
        exact ⟨1, (run_jumpIf_of_fault hq hc).trans (congrArg some ho.symm)⟩
      | done goOn s =>
        cases goOn with
        | false =>
          rw [Run.repeatWhile_of_false hc] at h
          cases h
          exact ⟨n + 1, (run_jumpIf_of_done hnd hq hl hc).trans ho⟩
        | true =>
          rw [Run.repeatWhile_of_true hc] at h
          obtain ⟨mid, hmid, hnext⟩ := Option.bind_eq_some_iff.mp h
          have hround : ∃ m, Follows program m q o mid := by
            cases mid with
            | fault f s' =>
              cases hnext
              exact ⟨0, ho⟩
            | done last' s' =>
              obtain ⟨m, hm⟩ := ih last' s' hnext
              exact ⟨m + 1, (run_label hk).trans hm⟩
          obtain ⟨m, hm⟩ := hround
          obtain ⟨m', hm'⟩ := hr.forward hmid hm
          exact ⟨m' + 1, (run_jumpIf_of_done hnd hq hl hc).trans hm'⟩
  backward {n last σ o} ho := by
    -- every round takes the step of the check, so the induction is on the steps left
    induction n using Nat.strongRecOn generalizing last σ with
    | ind n ih =>
      cases n with
      | zero => cases ho
      | succ n =>
        cases hc : c.test σ with
        | fault f s =>
          rw [run_jumpIf_of_fault hq hc] at ho
          exact ⟨1, .fault f s, Run.repeatWhile_of_fault hc, (Option.some.inj ho).symm⟩
        | done goOn s =>
          rw [run_jumpIf_of_done hnd hq hl hc] at ho
          cases goOn with
          | false => exact ⟨1, .done last s, Run.repeatWhile_of_false hc, run_succ_of_run ho⟩
          | true =>
            obtain ⟨a, mid, hmid, hnext⟩ := hr.backward ho
            cases mid with
            | fault f s' =>
              refine ⟨a + 1, .fault f s', ?_, hnext⟩
              rw [Run.repeatWhile_of_true hc]
              exact Run.seq_of_fault (hr.growing (Nat.le_succ a) _ _ _ hmid)
            | done last' s' =>
              cases n with
              | zero => cases hnext
              | succ m =>
                have hcheck : run program m ⟨q + 1, last', s'⟩ = some o :=
                  (run_label hk).symm.trans hnext
                obtain ⟨b, res, hres, hfollows⟩ := ih m (by omega) hcheck
                refine ⟨max a b + 1, res, ?_, hfollows.mono (by omega)⟩
                rw [Run.repeatWhile_of_true hc,
                  Run.seq_of_done (hr.growing (show a ≤ max a b + 1 by omega) _ _ _ hmid)]
                have hgrow := hr.growing (show b ≤ max a b + 1 by omega)
                exact hgrow.repeatWhile (Nat.le_max_right a b) _ _ _ hres

end Lumen.Machine

namespace Lumen.Bound

open Machine (CodeAt Performs)

theorem test_withinBound (v : Variable) (upper : Expr) :
    (Stmt.withinBound v upper).test = withinUpper v upper := by
  funext s
  simp only [Stmt.withinBound, Expr.test, Expr.eval, withinUpper]
  cases s.get? v with
  | none => rfl
  | some x =>
    dsimp only
    cases upper.eval s with
    | fault f s' => rfl
    | done y s' => cases x <;> cases y <;> rfl

theorem record_increment (v : Variable) :
    Run.record (.assignment v (.binary (.variable v) .intAddition (.literal (.int 1)))) =
      Run.advance v := by
  funext last s
  simp only [Run.record, Run.advance, Expr.eval]
  cases s.get? v with
  | none => rfl
  | some x => cases x <;> rfl

namespace Stmt

variable {program : Array Stmt}

/-- A loop performs the repetition of what its body performs. -/
theorem performs_loop {c : Expr} {body : List Stmt} {k p : Nat} {r : Nat → Run}
    (hnd : (labels program.toList).Nodup) (h : CodeAt program p (loop k c body))
    (hr : Performs program (p + 2) (p + 2 + body.length) r) :
    Performs program p (p + (loop k c body).length) fun b => Run.repeatWhile c.test (r b) b := by
  simp only [loop, Machine.codeAt_cons, Machine.codeAt_append] at h
  obtain ⟨hjump, hcontinue, -, hcheck, hjumpIf, hend, -⟩ := h
  have hstart := Machine.performs_jump hnd hjump hcheck
  have hrounds := Machine.performs_loop hnd hcontinue hcheck hjumpIf hr
  have hbehind := Machine.performs_label hend
  rw [behind_loop]
  simpa only [Run.skip_seq, Run.seq_skip] using (hstart.seq hrounds).seq hbehind

mutual

/-- The flat form of a statement, wherever it stands, performs the statement. -/
theorem performs_lowerFrom (hnd : (labels program.toList).Nodup) : ∀ {s : Stmt} {k p : Nat},
    s.Structured → CodeAt program p (s.lowerFrom k) →
      Performs program p (p + (s.lowerFrom k).length) s.exec
  | block body, k, p, hs, h => performs_lowerList hnd hs h
  | declaration v e, k, p, _, h => Machine.performs_declaration h.1
  | expression e, k, p, _, h => Machine.performs_expression h.1
  | ifThen c s, k, p, hs, h => by
    simp only [lowerFrom, Machine.codeAt_cons, Machine.codeAt_append] at h
    obtain ⟨hjumpIf, hthen, hend, -⟩ := h
    have hbody := (performs_lowerFrom (s := s) hnd hs hthen).seq (Machine.performs_label hend)
    rw [behind_ifThen]
    simp only [Run.seq_skip] at hbody
    exact Machine.performs_jumpIf hnd hjumpIf hend hbody Machine.performs_nil
  | ifElse c s t, k, p, hs, h => by
    simp only [lowerFrom, Machine.codeAt_cons, Machine.codeAt_append] at h
    obtain ⟨hjumpIf, hthen, hjump, helse, hother, hend, -⟩ := h
    have hbody := (performs_lowerFrom hnd hs.1 hthen).seq (Machine.performs_jump hnd hjump hend)
    have halternative := (performs_lowerFrom hnd hs.2 hother).seq (Machine.performs_label hend)
    rw [behind_ifElse]
    simp only [Run.seq_skip] at hbody halternative
    exact Machine.performs_jumpIf hnd hjumpIf helse hbody halternative
  | whileLoop c s, k, p, hs, h => by
    have hbody := h
    simp only [lowerFrom, loop, Machine.codeAt_cons, Machine.codeAt_append] at hbody
    exact performs_loop hnd h (performs_lowerFrom (s := s) hnd hs hbody.2.2.1)
  | forLoop v lower upper s, k, p, hs, h => by
    have hbody := h
    simp only [lowerFrom, loop, Machine.codeAt_cons, Machine.codeAt_append] at hbody
    obtain ⟨hdeclare, -, -, ⟨hround, hstep, -⟩, -⟩ := hbody
    have hrounds :=
      (performs_lowerFrom (s := s) hnd hs hround).seq (Machine.performs_expression hstep)
    rw [record_increment] at hrounds
    have hloop := performs_loop hnd h.2 (by simpa [← Nat.add_assoc] using hrounds)
    rw [test_withinBound] at hloop
    rw [behind_forLoop]
    exact (Machine.performs_declaration hdeclare).seq hloop
  | jump _, _, _, hs, _ => hs.elim
  | jumpIf .., _, _, hs, _ => hs.elim
  | label _, _, _, hs, _ => hs.elim

theorem performs_lowerList (hnd : (labels program.toList).Nodup) : ∀ {ss : List Stmt} {k p : Nat},
    StructuredList ss → CodeAt program p (lowerList k ss) →
      Performs program p (p + (lowerList k ss).length) (execList · ss)
  | [], k, p, _, _ => Machine.performs_nil
  | s :: ss, k, p, hs, h => by
    simp only [lowerList, Machine.codeAt_append] at h
    rw [lowerList, List.length_append, ← Nat.add_assoc]
    exact (performs_lowerFrom hnd hs.1 h.1).seq (performs_lowerList hnd hs.2 h.2)

end

/-- A flat form ends with an outcome exactly if its statement does. -/
theorem exists_evaluate_lower_iff {s : Stmt} (hs : s.Structured) (store : Store)
    (o : Outcome (Option Value)) :
    (∃ budget, Machine.evaluate budget s.lower store = some o) ↔
      ∃ budget, s.exec budget none store = some o := by
  have hnd : (labels s.lower.toArray.toList).Nodup := nodup_labels_lowerFrom 0 hs
  have hcode : CodeAt s.lower.toArray 0 s.lower := Machine.codeAt_of_append [] s.lower
  have hperforms := performs_lowerFrom hnd hs hcode
  have hend : s.lower.toArray.size ≤ 0 + s.lower.length := by simp
  constructor
  · rintro ⟨n, h⟩
    obtain ⟨b, res, hres, hfollows⟩ := hperforms.backward h
    refine ⟨b, hres.trans (congrArg some ?_)⟩
    cases res with
    | fault f σ => exact hfollows.symm
    | done last σ =>
      exact Option.some.inj
        ((Machine.run_end hend).symm.trans (Machine.run_succ_of_run hfollows))
  · rintro ⟨b, h⟩
    refine hperforms.forward (n := 1) h ?_
    cases o with
    | fault f σ => rfl
    | done last σ => exact Machine.run_end hend

/-- Lowering keeps the meaning of every statement without labels and jumps: running the flat form
has the value or fault and the store of the structured execution, and runs forever exactly if that
does. -/
theorem lower_keeps_meaning {s : Stmt} (hs : s.Structured) (store : Store) :
    (∀ o, (∃ budget, Machine.evaluate budget s.lower store = some o) ↔
      ∃ budget, s.exec budget none store = some o) ∧
    ((∀ budget, Machine.evaluate budget s.lower store = none) ↔
      ∀ budget, s.exec budget none store = none) := by
  have hends := exists_evaluate_lower_iff hs store
  refine ⟨hends, ?_⟩
  simp only [Option.eq_none_iff_forall_ne_some, ne_eq]
  constructor
  · intro h b o ho
    obtain ⟨n, hn⟩ := (hends o).mpr ⟨b, ho⟩
    exact h n o hn
  · intro h n o hn
    obtain ⟨b, ho⟩ := (hends o).mp ⟨n, hn⟩
    exact h b o ho

/-- A sum over a loop with a branch, which divides by zero in its third round. -/
theorem lower_keeps_meaning_of_faulting_loop :
    let i : Variable := ⟨0, "i", .int, false⟩
    let sum : Variable := ⟨1, "sum", .int, false⟩
    let s := forLoop i (.literal (.int 1)) (.literal (.int 9))
      (ifElse (.binary (.variable i) .intLessOrEquals (.literal (.int 2)))
        (declaration sum (.variable i))
        (expression (.binary (.variable sum) ⟨.slash, .division, .int, .int, .int⟩
          (.literal (.int 0)))))
    s.Structured ∧ ∃ budget, Machine.evaluate budget s.lower ∅ =
      some (.fault .divisionByZero ⟨[⟨i, .int 3⟩, ⟨sum, .int 2⟩]⟩) :=
  ⟨by simp [Structured], ((lower_keeps_meaning (by simp [Structured]) ∅).1 _).mpr ⟨4, by rfl⟩⟩

end Stmt

end Lumen.Bound
