import Lumen.Proofs.Bound.Typing

/-!
# Runs of well typed programs

Every step of a well typed flat program writes values of the right types only and meets no value of
a wrong type. As the moments of a run leave no gap, the store is well typed throughout the run.
-/

namespace Lumen.Machine

open Lumen.Bound (Stmt)

variable {program : Array Stmt} {s : State} {n : Nat} {o : Outcome (Option Value)}

def WellTyped (program : Array Stmt) : Prop :=
  ∀ (p : Nat) (t : Stmt), program[p]? = some t → t.WellTyped True

theorem jumpTo_valid {l : Label} {last : Option Value} {σ σ' : Store} {f : Fault}
    (h : jumpTo program l last σ = .halted (.fault f σ')) : ¬ f.IsInvalidOperand := by
  rw [jumpTo] at h
  split at h
  · cases h
  · cases h
    exact id

/-- What one step keeps: it writes values of the right types, and meets none of a wrong type. -/
theorem Steps.wellTyped {r : Result} {ms : List Moment} (h : Steps program s r ms)
    (hprogram : WellTyped program) (hs : s.store.WellTyped) :
    (∀ m ∈ ms, m.access.WellTyped) ∧
      ∀ f σ, r = .halted (.fault f σ) → ¬ f.IsInvalidOperand := by
  cases h with
  | ended _ => exact ⟨List.forall_mem_nil _, by simp⟩
  | failed hnext he heval =>
    have ht := (hprogram _ _ hnext).operand he
    refine ⟨ht.moments hs, fun g σ' hr => ?_⟩
    cases hr
    exact ht.valid_of_fault hs heval
  | declared hnext heval =>
    obtain ⟨ht, htype⟩ := hprogram _ _ hnext
    refine ⟨List.forall_mem_append.mpr ⟨ht.moments hs, ?_⟩, by simp⟩
    exact List.forall_mem_singleton.mpr ((ht.type_of_done hs heval).trans htype)
  | recorded hnext heval => exact ⟨((hprogram _ _ hnext).operand rfl).moments hs, by simp⟩
  | undecided hnext heval =>
    obtain ⟨ht, hbool⟩ := hprogram _ _ hnext
    cases (ht.type_of_done hs heval).trans (hbool trivial)
  | decided hnext heval =>
    refine ⟨((hprogram _ _ hnext).operand rfl).moments hs, fun g σ' hr => ?_⟩
    split at hr
    · cases hr
    · exact jumpTo_valid hr
  | jumped _ => exact ⟨List.forall_mem_nil _, fun _ _ hr => jumpTo_valid hr⟩
  | passed _ => exact ⟨List.forall_mem_nil _, by simp⟩
  | refused _ _ =>
    refine ⟨List.forall_mem_nil _, fun g σ' hr => ?_⟩
    cases hr
    exact id

theorem run_wellTyped (hprogram : WellTyped program) (hs : s.store.WellTyped) :
    (∀ m ∈ moments program n s, m.access.WellTyped) ∧
      ∀ f σ, run program n s = some (.fault f σ) → ¬ f.IsInvalidOperand := by
  induction n generalizing s with
  | zero => exact ⟨List.forall_mem_nil _, by simp [run]⟩
  | succ n ih =>
    have hsteps := steps_step program s
    obtain ⟨hmoments, hfault⟩ := hsteps.wellTyped hprogram hs
    have hlead := hsteps.lead
    rw [run]
    cases hstep : step program s with
    | halted p =>
      rw [moments_of_halted hstep]
      refine ⟨hmoments, fun f σ h => ?_⟩
      cases h
      exact hfault f σ hstep
    | running s' =>
      rw [hstep] at hlead
      have hs' : s'.store.WellTyped := (hlead.wellTyped hs hmoments).1
      obtain ⟨hrest, hend⟩ := ih hs'
      rw [moments_of_running hstep]
      exact ⟨List.forall_mem_append.mpr ⟨hmoments, hrest⟩, hend⟩

theorem moments_wellTyped (hprogram : WellTyped program) (hs : s.store.WellTyped) :
    ∀ m ∈ moments program n s, m.before.WellTyped ∧ m.after.WellTyped := by
  obtain ⟨σ, hlead⟩ := exists_lead_moments program n s
  exact (hlead.wellTyped hs (run_wellTyped hprogram hs).1).2

theorem store_wellTyped_of_run (hprogram : WellTyped program) (hs : s.store.WellTyped)
    (h : run program n s = some o) : o.store.WellTyped :=
  ((lead_moments h).wellTyped hs (run_wellTyped hprogram hs).1).1

end Lumen.Machine

namespace Lumen.Bound.Stmt

theorem lower_wellTyped {s : Stmt} (h : s.WellTyped True) :
    Machine.WellTyped s.lower.toArray := by
  intro p t ht
  rw [List.getElem?_toArray] at ht
  exact lowerFrom_wellTyped 0 h t (List.mem_of_getElem? ht)

end Lumen.Bound.Stmt
