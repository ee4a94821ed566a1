import Lumen.Proofs.Binding.Typing
import Lumen.Proofs.Bound.Meaning
import Lumen.Proofs.Machine.Typing
import Lumen.Proofs.Session.Reachable
import Lumen.Text.Identifier.Table

/-!
# Type soundness

In every reachable session the store holds values of the types of their variables, whatever became
of the submissions before. So it does at every moment of an evaluation, and no submission without
complaints ever applies an operation to a value of a wrong type.
-/

namespace Lumen

namespace Submission

def WellTyped (c : Submission) : Prop := c.bound.WellTyped (c.diagnostics = [])

/-- What typing promises for the evaluation of a submission on a store. -/
structure RunsWellTyped (c : Submission) (store : Store) : Prop where
  moments_wellTyped {budget : Nat} :
    ∀ m ∈ c.moments budget store, m.before.WellTyped ∧ m.after.WellTyped
  store_wellTyped {budget : Nat} {e : Evaluated} :
    c.evaluate budget store = some e → e.store.WellTyped
  operands_valid {budget : Nat} {e : Evaluated} {operation : Operation} {operand : Value} :
    c.evaluate budget store = some e → e.verdict ≠ .faulted (.invalidOperand operation operand)
  value_type {budget : Nat} {e : Evaluated} {source : Bound.Expr} {value : Option Value} :
    c.bound = .expression source → c.evaluate budget store = some e →
      e.verdict = .finished value → ∃ x, value = some x ∧ x.type = source.type

variable {c : Submission} {budget : Nat} {store : Store} {e : Evaluated}

theorem compile_wellTyped [Xid] (chain : List Submission) (fresh : Nat) (text : List Char) :
    (compile chain fresh text).submission.WellTyped := by
  refine Binding.stmt_wellTyped _ _ fun h => ?_
  exact (List.append_eq_nil_iff.mp h).2

theorem WellTyped.program (hc : c.WellTyped) (hclean : c.diagnostics = []) :
    Machine.WellTyped c.program.toArray := by
  rw [WellTyped, eq_true hclean] at hc
  exact Bound.Stmt.lower_wellTyped hc

theorem WellTyped.runsWellTyped (hc : c.WellTyped) (hs : store.WellTyped) :
    c.RunsWellTyped store where
  moments_wellTyped {budget} := by
    rw [Submission.moments]
    split
    · next hclean => exact Machine.moments_wellTyped (hc.program hclean) hs
    · exact List.forall_mem_nil _
  store_wellTyped h := by
    obtain ⟨-, rfl⟩ | ⟨hclean, ⟨value, -, hrun⟩ | ⟨cause, -, hrun⟩⟩ := evaluate_cases h
    · exact hs
    · exact Machine.store_wellTyped_of_run (hc.program hclean) hs hrun
    · exact Machine.store_wellTyped_of_run (hc.program hclean) hs hrun
  operands_valid h hverdict := by
    obtain ⟨-, rfl⟩ | ⟨hclean, ⟨value, hfinished, -⟩ | ⟨cause, hfaulted, hrun⟩⟩ :=
      evaluate_cases h
    · cases hverdict
    · cases hfinished.symm.trans hverdict
    · cases hfaulted.symm.trans hverdict
      exact (Machine.run_wellTyped (hc.program hclean) hs).2 _ _ hrun trivial
  value_type {budget e source value} hsource h hverdict := by
    obtain ⟨-, rfl⟩ | ⟨hclean, ⟨value', hfinished, hrun⟩ | ⟨cause, hfaulted, -⟩⟩ :=
      evaluate_cases h
    · cases hverdict
    · cases hfinished.symm.trans hverdict
      rw [WellTyped, hsource] at hc
      rw [Submission.program, hsource] at hrun
      obtain ⟨n, hexec⟩ :=
        (Bound.Stmt.exists_evaluate_lower_iff (s := .expression source) trivial _ _).mp ⟨_, hrun⟩
      have hvalue := (Bound.Expr.eval_hasType hc hs).1
      change Bound.Run.record source none store = _ at hexec
      rw [Bound.Run.record] at hexec
      cases heval : source.eval store with
      | fault f σ =>
        rw [heval] at hexec
        cases hexec
      | done x σ =>
        rw [heval] at hexec hvalue
        cases hexec
        exact ⟨x, rfl, hvalue⟩
    · cases hfaulted.symm.trans hverdict

end Submission

namespace Session

section

variable [Xid] {s : Session} {c : Submission}

/-- What holds of every reachable session. -/
structure WellTyped (s : Session) : Prop where
  store : s.store.WellTyped
  members : ∀ m ∈ s.members, m.submission.WellTyped

theorem Reachable.wellTyped (h : s.Reachable) : s.WellTyped := by
  induction h with
  | empty => exact ⟨Store.wellTyped_empty, List.forall_mem_nil _⟩
  | submit _ hsubmit ih =>
    obtain ⟨chain, e, -, he, rfl⟩ := submit_eq_some hsubmit
    refine ⟨((Submission.compile_wellTyped ..).runsWellTyped ih.store).store_wellTyped he, ?_⟩
    exact List.forall_mem_append.mpr
      ⟨ih.members, List.forall_mem_singleton.mpr (Submission.compile_wellTyped ..)⟩
  | rerun _ hrerun ih =>
    obtain ⟨m, e, hm, he, rfl⟩ := rerun_eq_some hrerun
    have hold := ih.members m (List.mem_of_getElem? hm)
    exact ⟨(hold.runsWellTyped ih.store).store_wellTyped he, ih.members⟩
  | clear _ ih => exact ⟨Store.wellTyped_empty, ih.members⟩

theorem WellTyped.submission (hs : s.WellTyped) (h : s.Evaluates c) : c.WellTyped := by
  cases h with
  | new text _ => exact Submission.compile_wellTyped _ _ _
  | again hm => exact hs.members _ (List.mem_of_getElem? hm)

/-- Type soundness over whole sessions: the store of a reachable session is well typed, and
everything that the session evaluates runs well typed on it. -/
theorem type_soundness (hs : s.Reachable) :
    s.store.WellTyped ∧ ∀ c, s.Evaluates c → c.RunsWellTyped s.store :=
  ⟨hs.wellTyped.store, fun _ hc => (hs.wellTyped.submission hc).runsWellTyped hs.wellTyped.store⟩

end

open scoped Xid in
/-- A division by zero in the middle of an assignment leaves a session that is still sound. -/
theorem type_soundness_behind_fault :
    ∃ r, submit 20 ∅ none "\x7b var x = 3 var b = x == (x = 4) x / 0 \x7d".toList = some r ∧
      r.verdict = .faulted .divisionByZero ∧ r.session.store.entries.length = 2 ∧
      r.session.store.WellTyped ∧
      ∀ c, r.session.Evaluates c → c.RunsWellTyped r.session.store := by
  have hrun : (submit 20 ∅ none "\x7b var x = 3 var b = x == (x = 4) x / 0 \x7d".toList).map
      (fun r => (r.verdict, r.session.store.entries.length)) =
        some (.faulted .divisionByZero, 2) := by
    decide +kernel
  obtain ⟨r, hr, hverdict⟩ := Option.map_eq_some_iff.mp hrun
  obtain ⟨hfault, hentries⟩ := Prod.mk.inj hverdict
  exact ⟨r, hr, hfault, hentries, type_soundness (.submit .empty hr)⟩

end Session

end Lumen
