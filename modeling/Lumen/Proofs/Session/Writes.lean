import Lumen.Proofs.Binding.Writes
import Lumen.Proofs.Machine.Writes
import Lumen.Proofs.Session.Reachable
import Lumen.Text.Identifier.Table

/-!
# Writes of a submission are confined

A submission without complaints writes its own variables, and of all others only those that were
declared with `var` and that their name means in the submissions before it. What it declares with
`let` is written by the one declaration alone.
-/

namespace Lumen.Submission

/-- What the evaluation of a submission on a store may write, inside given scopes. -/
structure Confined (outer : List Scope) (c : Submission) (store : Store) : Prop where
  foreign_write {s : Machine.State} {m : Moment} {v : Variable} {x : Value} :
    Machine.Visits c.program.toArray (.start store) s →
      m ∈ Machine.stepMoments c.program.toArray s → m.access = .write v x →
        v ∉ c.bound.introduced → v.readOnly = false ∧ Scope.global? outer v.name = some v
  foreign_kept {v : Variable} :
    v ∉ c.bound.introduced → ¬ (v.readOnly = false ∧ Scope.global? outer v.name = some v) →
      ∀ budget, (∀ m ∈ c.moments budget store,
        m.before.get? v = store.get? v ∧ m.after.get? v = store.get? v) ∧
          ∀ e, c.evaluate budget store = some e → e.store.get? v = store.get? v
  let_write {s : Machine.State} {m : Moment} {v : Variable} {x : Value} :
    Machine.Visits c.program.toArray (.start store) s →
      m ∈ Machine.stepMoments c.program.toArray s → m.access = .write v x →
        v ∈ c.bound.introduced → v.readOnly = true →
          ∃ e, c.program[s.next]? = some (.declaration v e) ∧ e.eval s.store = .done x m.before
  declared_once {v : Variable} :
    v ∈ c.bound.introduced → ∃! i : Nat, ∃ e, c.program[i]? = some (.declaration v e)

variable {outer : List Scope} {fresh : Nat} {source : Source} {c : Submission} {store : Store}

theorem binding_clean (h : c.diagnostics = []) : c.faults = [] :=
  (List.append_eq_nil_iff.mp h).2

theorem assignsOnly_program (h : (ofSource outer fresh source).submission.diagnostics = []) :
    let c := (ofSource outer fresh source).submission
    ∀ t ∈ c.program, t.AssignsOnly (Binding.Assignable outer c.bound.introduced) :=
  Bound.Stmt.lowerFrom_assignsOnly 0
    (Binding.stmt_assignsOnly (.start outer _) (fun _ hv => hv) (binding_clean h))

theorem introduced_nodup (outer : List Scope) (fresh : Nat) (source : Source) :
    (ofSource outer fresh source).submission.bound.introduced.Nodup :=
  (Binding.stmt_numberedFrom ⟨.inside outer, fresh⟩ source.program.statement).nodup

theorem get?_eq_of_keeps {v : Variable} {budget : Nat} (h : c.diagnostics = [])
    (hkeeps : ∀ m ∈ c.moments budget store, m.access.Keeps v) :
    (∀ m ∈ c.moments budget store,
      m.before.get? v = store.get? v ∧ m.after.get? v = store.get? v) ∧
        ∀ e, c.evaluate budget store = some e → e.store.get? v = store.get? v := by
  rw [moments, if_pos h] at hkeeps ⊢
  constructor
  · obtain ⟨σ, hlead⟩ := Machine.exists_lead_moments c.program.toArray budget (.start store)
    exact (hlead.get?_eq hkeeps).2
  · intro e he
    rcases evaluate_cases he with ⟨hfaulty, -⟩ | ⟨-, ⟨value, -, ho⟩ | ⟨cause, -, ho⟩⟩
    · exact absurd h hfaulty
    · exact ((Machine.lead_moments ho).get?_eq hkeeps).1
    · exact ((Machine.lead_moments ho).get?_eq hkeeps).1

/-- What a step of a submission writes may be assigned, or is declared by the statement at hand. -/
theorem assignable_or_declared {s : Machine.State} {m : Moment} {v : Variable} {x : Value}
    (hassigns : ∀ t ∈ c.program, t.AssignsOnly (Binding.Assignable outer c.bound.introduced))
    (hm : m ∈ Machine.stepMoments c.program.toArray s) (hwrite : m.access = .write v x) :
    Binding.Assignable outer c.bound.introduced v ∨
      ∃ e, c.program[s.next]? = some (.declaration v e) ∧ e.eval s.store = .done x m.before := by
  have hstep := Machine.write_of_step hm hwrite
  simp only [List.getElem?_toArray] at hstep
  rcases hstep with ⟨t, e, hnext, hoperand, hv⟩ | hdeclared
  · exact .inl ((hassigns t (List.mem_of_getElem? hnext)).operand hoperand v hv)
  · exact .inr hdeclared

theorem mem_introduced_of_declaration {i : Nat} {v : Variable} {e : Bound.Expr}
    (h : c.program[i]? = some (.declaration v e)) : v ∈ c.bound.introduced := by
  rw [← Bound.Stmt.introduced_lowerFrom c.bound 0]
  exact List.mem_flatMap.mpr ⟨_, List.mem_of_getElem? h, List.mem_cons_self⟩

theorem Confined.of_assignsOnly (hclean : c.diagnostics = [])
    (hassigns : ∀ t ∈ c.program, t.AssignsOnly (Binding.Assignable outer c.bound.introduced))
    (hnodup : c.bound.introduced.Nodup) (store : Store) : Confined outer c store := by
  have hforeign : ∀ {s : Machine.State} {m : Moment} {v : Variable} {x : Value},
      m ∈ Machine.stepMoments c.program.toArray s → m.access = .write v x →
        v ∉ c.bound.introduced → v.readOnly = false ∧ Scope.global? outer v.name = some v := by
    intro s m v x hm hwrite hv
    rcases assignable_or_declared hassigns hm hwrite with ⟨hfree, hown | hglobal⟩ | ⟨e, he, -⟩
    · exact absurd hown hv
    · exact ⟨hfree, hglobal⟩
    · exact absurd (mem_introduced_of_declaration he) hv
  refine ⟨fun _ => hforeign, fun {v} hv hbarred budget => ?_, fun _ hm hwrite _ hlet => ?_,
    Bound.Stmt.existsUnique_declaration hnodup⟩
  · refine get?_eq_of_keeps hclean fun m hm => ?_
    rw [moments, if_pos hclean] at hm
    obtain ⟨s, -, hstep⟩ := Machine.exists_visits_of_moment .start hm
    cases haccess : m.access with
    | read w => trivial
    | write w x =>
      rintro rfl
      exact hbarred (hforeign hstep haccess hv)
  · rcases assignable_or_declared hassigns hm hwrite with ⟨hfree, -⟩ | hdeclared
    · cases hlet.symm.trans hfree
    · exact hdeclared

/-- The writes of a submission without complaints are confined, whatever the store. -/
theorem writes_confined [Xid] (chain : List Submission) (fresh : Nat) (text : List Char)
    (h : (compile chain fresh text).submission.diagnostics = []) (store : Store) :
    Confined (scopes chain) (compile chain fresh text).submission store :=
  .of_assignsOnly h (assignsOnly_program h) (introduced_nodup (scopes chain) fresh (.parse text))
    store

open scoped Xid in
theorem writes_confined_of_shadowed_global :
    let first := (compile [] 0 "var x = 1".toList).submission
    let second := compile [first] 1
      "{ let y = x for i = 0 to y x = x / (1 - i) var x = 5 x = y }".toList
    second.submission.diagnostics = [] ∧
      second.submission.bound.introduced.map (·.name) = ["y", "i", "x"] ∧
      Confined (scopes [first]) second.submission ⟨[⟨⟨0, "x", .int, false⟩, .int 1⟩]⟩ := by
  intro first second
  have hclean : second.submission.diagnostics = [] := by decide +kernel
  exact ⟨hclean, by decide +kernel, writes_confined [first] 1 _ hclean _⟩

end Lumen.Submission
