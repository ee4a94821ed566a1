import Lumen.Proofs.Machine.Code
import Lumen.Proofs.Machine.Moments

/-!
# Code that reads no variable too early

Code is guarded if, started on a store that has the values of certain variables, it reads no
variable without value, save for exempt ones, and comes out with the values of certain variables.
This is a rule about the moments of the machine from there on: whatever is guarded behind the code
is guarded at the code, within the same number of steps. The rules follow the shapes of flat
programs, and the one for loops is an induction on the number of steps.
-/

namespace Lumen

variable {s s' σ : Store} {v : Variable} {x : Value} {vs ws : List Variable}

def Store.Has (s : Store) (vs : List Variable) : Prop := ∀ v ∈ vs, (s.get? v).isSome

theorem Store.isSome_set {w : Variable} (h : (s.get? w).isSome) :
    ((s.set v x).get? w).isSome := by
  rw [get?_set]
  split
  · rfl
  · exact h

theorem Store.Has.set (h : s.Has vs) : (s.set v x).Has (vs ++ [v]) := by
  refine List.forall_mem_append.mpr ⟨fun w hw => isSome_set (h w hw), ?_⟩
  simp

theorem Store.Has.of_subset (h : s.Has vs) (hws : ws ⊆ vs) : s.Has ws :=
  fun v hv => h v (hws hv)

theorem Moment.Lead.has {ms : List Moment} (h : Lead s ms s') (hs : s.Has vs) :
    s'.Has vs ∧ ∀ m ∈ ms, m.before.Has vs := by
  obtain ⟨hend, hms⟩ := h.invariant (P := (Store.Has · vs)) hs fun m _ hm => by
    obtain ⟨before, access⟩ := m
    cases access with
    | read v => exact hm
    | write v x => exact fun w hw => Store.isSome_set (hm w hw)
  exact ⟨hend, fun m hm => (hms m hm).1⟩

namespace Bound.Expr

def reads : Expr → List Variable
  | literal _ => []
  | .variable v => [v]
  | assignment _ e => e.reads
  | unary _ e => e.reads
  | binary l _ r => l.reads ++ r.reads

/-- Whether an expression reads variables of a list and exempt ones only. -/
def Covered (exempt : Variable → Prop) (vs : List Variable) (e : Expr) : Prop :=
  ∀ v ∈ e.reads, v ∈ vs ∨ exempt v

theorem mem_reads_of_moments : ∀ {e : Expr} {s : Store},
    ⟨σ, .read v⟩ ∈ e.moments s → v ∈ e.reads
  | .literal _, _, h => nomatch h
  | .variable _, _, h => by
    cases List.mem_singleton.mp h
    exact List.mem_singleton.mpr rfl
  | .assignment x e, s, h => by
    rcases List.mem_append.mp h with h | h
    · exact mem_reads_of_moments (e := e) h
    · cases heval : e.eval s <;> simp [heval] at h
  | .unary _ e, _, h => mem_reads_of_moments (e := e) h
  | .binary l _ r, s, h => by
    rcases List.mem_append.mp h with h | h
    · exact List.mem_append_left _ (mem_reads_of_moments h)
    · cases heval : l.eval s with
      | fault f s' => simp [heval] at h
      | done x s' =>
        rw [heval] at h
        exact List.mem_append_right _ (mem_reads_of_moments h)

theorem Covered.exempt_of_read {exempt : Variable → Prop} {e : Expr} (he : e.Covered exempt vs)
    (hs : s.Has vs) (hread : ⟨σ, .read v⟩ ∈ e.moments s) (hnone : σ.get? v = none) :
    exempt v := by
  rcases he v (mem_reads_of_moments hread) with hv | hv
  · have hhas := ((e.lead_moments s).has hs).2 _ hread v hv
    rw [hnone] at hhas
    cases hhas
  · exact hv

end Bound.Expr

namespace Machine

open Lumen.Bound (Expr Stmt)
open Lumen.Bound.Stmt (labels)

/-- Whether a run reads only exempt variables without value within a number of steps, and leaves a
store with a goal if it gets to the end of the program. -/
structure Guarded (program : Array Stmt) (exempt : Variable → Prop) (goal : Store → Prop)
    (n : Nat) (s : State) : Prop where
  reads {v : Variable} {σ : Store} :
    ⟨σ, .read v⟩ ∈ moments program n s → σ.get? v = none → exempt v
  ends {last : Option Value} {σ : Store} : run program n s = some (.done last σ) → goal σ

/-- Whether what is guarded at `q` on stores that have the variables `ws` is guarded at `p` on
stores that have the variables `vs`. -/
def Guards (program : Array Stmt) (exempt : Variable → Prop) (goal : Store → Prop) (p q : Nat)
    (vs ws : List Variable) : Prop :=
  ∀ n, (∀ last σ, σ.Has ws → Guarded program exempt goal n ⟨q, last, σ⟩) →
    ∀ last σ, σ.Has vs → Guarded program exempt goal n ⟨p, last, σ⟩

variable {program : Array Stmt} {exempt : Variable → Prop} {goal : Store → Prop}
  {p q w n : Nat} {us : List Variable} {st : State} {r : Result} {ms : List Moment}

theorem Steps.exists_operand (h : Steps program st r ms) (hread : ⟨σ, .read v⟩ ∈ ms) :
    ∃ t e, program[st.next]? = some t ∧ t.operand? = some e ∧
      ⟨σ, .read v⟩ ∈ e.moments st.store := by
  cases h with
  | ended _ => cases hread
  | failed hnext he _ => exact ⟨_, _, hnext, he, hread⟩
  | declared hnext _ =>
    rcases List.mem_append.mp hread with hread | hread
    · exact ⟨_, _, hnext, rfl, hread⟩
    · cases List.mem_singleton.mp hread
  | recorded hnext _ => exact ⟨_, _, hnext, rfl, hread⟩
  | undecided hnext _ => exact ⟨_, _, hnext, rfl, hread⟩
  | decided hnext _ => exact ⟨_, _, hnext, rfl, hread⟩
  | jumped _ => cases hread
  | passed _ => cases hread
  | refused _ _ => cases hread

theorem jumpTo_ne_done (l : Label) (last last' : Option Value) (σ' : Store) :
    jumpTo program l last σ ≠ .halted (.done last' σ') := by
  rw [jumpTo]
  split <;> simp

theorem Steps.ended_of_done {last : Option Value} (h : Steps program st r ms)
    (hr : r = .halted (.done last σ)) : program[st.next]? = none ∧ σ = st.store := by
  cases h with
  | ended hnext =>
    cases hr
    exact ⟨hnext, rfl⟩
  | decided _ _ =>
    split at hr
    · cases hr
    · exact absurd hr (jumpTo_ne_done _ _ _ _)
  | jumped _ => exact absurd hr (jumpTo_ne_done _ _ _ _)
  | _ => cases hr

theorem guarded_zero : Guarded program exempt goal 0 st where
  reads h := nomatch h
  ends h := nomatch h

/-- One step: what it reads is exempt, it ends the run with the goal only, and goes on guarded. -/
theorem guarded_succ
    (hreads : ∀ v σ, ⟨σ, .read v⟩ ∈ stepMoments program st → σ.get? v = none → exempt v)
    (hends : program[st.next]? = none → goal st.store)
    (hnext : ∀ st', step program st = .running st' → Guarded program exempt goal n st') :
    Guarded program exempt goal (n + 1) st where
  reads {v σ} h hnone := by
    cases hs : step program st with
    | halted o =>
      rw [moments_of_halted hs] at h
      exact hreads v σ h hnone
    | running st' =>
      rw [moments_of_running hs] at h
      rcases List.mem_append.mp h with h | h
      · exact hreads v σ h hnone
      · exact (hnext st' hs).reads h hnone
  ends {last σ} h := by
    rw [run] at h
    cases hs : step program st with
    | halted o =>
      rw [hs] at h
      cases h
      obtain ⟨hend, rfl⟩ := (steps_step program st).ended_of_done hs
      exact hends hend
    | running st' =>
      rw [hs] at h
      exact (hnext st' hs).ends h

/-- A covered statement on a store that has the variables it needs is guarded by what it leads to,
which has them, too. -/
theorem guarded_step {t : Stmt} (ht : program[st.next]? = some t)
    (hc : ∀ e, t.operand? = some e → e.Covered exempt vs) (hst : st.store.Has vs)
    (hnext : ∀ st', step program st = .running st' → st'.store.Has vs →
      Guarded program exempt goal n st') : Guarded program exempt goal (n + 1) st := by
  have hsteps := steps_step program st
  refine guarded_succ (fun v σ hread hnone => ?_) (fun hend => ?_) (fun st' hstep => ?_)
  · obtain ⟨t', e, ht', he, hread⟩ := hsteps.exists_operand hread
    cases Option.some.inj (ht.symm.trans ht')
    exact (hc e he).exempt_of_read hst hread hnone
  · cases ht.symm.trans hend
  · have hlead := hsteps.lead
    rw [hstep] at hlead
    exact hnext st' hstep (hlead.has hst).1

theorem moments_subset_succ : moments program n st ⊆ moments program (n + 1) st := by
  induction n generalizing st with
  | zero => exact List.nil_subset _
  | succ n ih =>
    cases hs : step program st with
    | halted o => rw [moments_of_halted hs, moments_of_halted hs]; exact List.Subset.refl _
    | running st' =>
      rw [moments_of_running hs, moments_of_running hs]
      exact List.append_subset.mpr
        ⟨List.subset_append_left .., List.subset_append_of_subset_right _ ih⟩

theorem Guarded.of_succ (h : Guarded program exempt goal (n + 1) st) :
    Guarded program exempt goal n st where
  reads hread hnone := h.reads (moments_subset_succ hread) hnone
  ends hrun := h.ends (run_succ_of_run hrun)

theorem guarded_end {last : Option Value} {σ : Store} (h : program.size ≤ p) (hσ : goal σ) :
    Guarded program exempt goal n ⟨p, last, σ⟩ := by
  have hnone : program[p]? = none := Array.getElem?_eq_none h
  cases n with
  | zero => exact guarded_zero
  | succ n =>
    refine guarded_succ (fun u τ hread _ => ?_) (fun _ => hσ) (fun st' hst' => ?_)
    · simp only [stepMoments, hnone] at hread
      cases hread
    · simp only [step, hnone] at hst'
      cases hst'

theorem guards_weaken (h : ws ⊆ vs) : Guards program exempt goal p p vs ws :=
  fun _ hq last σ hσ => hq last σ (hσ.of_subset h)

theorem Guards.trans (h : Guards program exempt goal p q vs us)
    (h' : Guards program exempt goal q w us ws) : Guards program exempt goal p w vs ws :=
  fun n hw => h n (h' n hw)

/-- A covered statement is guarded if every step that it may take leads on to the same position. -/
theorem guards_of_step {t : Stmt} (ht : program[p]? = some t)
    (hc : ∀ e, t.operand? = some e → e.Covered exempt vs)
    (hnext : ∀ last σ st', step program ⟨p, last, σ⟩ = .running st' → st'.store.Has vs →
      st'.next = q ∧ st'.store.Has ws) : Guards program exempt goal p q vs ws := by
  intro n hq last σ hσ
  cases n with
  | zero => exact guarded_zero
  | succ n =>
    refine guarded_step ht hc hσ fun st' hst' hhas => ?_
    obtain ⟨rfl, hws⟩ := hnext last σ st' hst' hhas
    exact (hq st'.last st'.store hws).of_succ

theorem guards_declaration {e : Expr} (h : program[p]? = some (.declaration v e))
    (he : e.Covered exempt vs) : Guards program exempt goal p (p + 1) vs (vs ++ [v]) := by
  refine guards_of_step h (fun _ h => by cases h; exact he) fun last σ st' hst' hhas => ?_
  simp only [step, h] at hst'
  cases heval : e.eval σ with
  | fault f τ => simp [heval] at hst'
  | done x τ =>
    rw [heval] at hst'
    cases hst'
    exact ⟨rfl, List.forall_mem_append.mpr ⟨hhas, by simp⟩⟩

theorem guards_expression {e : Expr} (h : program[p]? = some (.expression e))
    (he : e.Covered exempt vs) : Guards program exempt goal p (p + 1) vs vs := by
  refine guards_of_step h (fun _ h => by cases h; exact he) fun last σ st' hst' hhas => ?_
  simp only [step, h] at hst'
  cases heval : e.eval σ with
  | fault f τ => simp [heval] at hst'
  | done x τ =>
    rw [heval] at hst'
    cases hst'
    exact ⟨rfl, hhas⟩

theorem guards_label {l : Label} (h : program[p]? = some (.label l)) :
    Guards program exempt goal p (p + 1) vs vs := by
  refine guards_of_step h (fun _ h => by cases h) fun last σ st' hst' hhas => ?_
  simp only [step, h] at hst'
  cases hst'
  exact ⟨rfl, hhas⟩

theorem guards_jump {l : Label} (hnd : (labels program.toList).Nodup)
    (h : program[p]? = some (.jump l)) (hq : program[q]? = some (.label l)) :
    Guards program exempt goal p (q + 1) vs vs := by
  refine guards_of_step h (fun _ h => by cases h) fun last σ st' hst' hhas => ?_
  simp only [step, h, jumpTo, target?_eq_some hnd hq] at hst'
  cases hst'
  exact ⟨rfl, hhas⟩

theorem guarded_jumpIf {l : Label} {c : Expr} {onFalse : Bool} {last : Option Value}
    (hnd : (labels program.toList).Nodup) (h : program[p]? = some (.jumpIf l c onFalse))
    (hl : program[w]? = some (.label l)) (hc : c.Covered exempt vs) (hσ : σ.Has vs)
    (hr : ∀ σ', σ'.Has vs → Guarded program exempt goal n ⟨p + 1, last, σ'⟩)
    (ht : ∀ σ', σ'.Has vs → Guarded program exempt goal n ⟨w + 1, last, σ'⟩) :
    Guarded program exempt goal (n + 1) ⟨p, last, σ⟩ := by
  refine guarded_step h (fun _ h => by cases h; exact hc) hσ fun st' hst' hhas => ?_
  simp only [step, h, jumpTo, target?_eq_some hnd hl] at hst'
  cases heval : c.eval σ with
  | fault f τ => simp [heval] at hst'
  | done x τ =>
    rw [heval] at hst'
    cases x with
    | int i => cases hst'
    | bool b =>
      dsimp only [Value.truth?] at hst'
      split at hst' <;> cases hst'
      · exact ht τ hhas
      · exact hr τ hhas

theorem guards_jumpIf {l : Label} {c : Expr} {onFalse : Bool}
    (hnd : (labels program.toList).Nodup) (h : program[p]? = some (.jumpIf l c onFalse))
    (hl : program[w]? = some (.label l)) (hc : c.Covered exempt vs)
    (hr : Guards program exempt goal (p + 1) q vs ws)
    (ht : Guards program exempt goal (w + 1) q vs ws) :
    Guards program exempt goal p q vs ws := by
  intro n hq last σ hσ
  cases n with
  | zero => exact guarded_zero
  | succ n =>
    have hq' : ∀ last σ, σ.Has ws → Guarded program exempt goal n ⟨q, last, σ⟩ :=
      fun last σ hσ => (hq last σ hσ).of_succ
    exact guarded_jumpIf hnd h hl hc hσ (hr n hq' last) (ht n hq' last)

/-- The check of a loop is guarded together with its body if the body keeps what it needs. -/
theorem guards_loop {k l : Label} {c : Expr} (hnd : (labels program.toList).Nodup)
    (hl : program[p]? = some (.label l)) (hk : program[q]? = some (.label k))
    (hq : program[q + 1]? = some (.jumpIf l c false)) (hc : c.Covered exempt vs)
    (hr : Guards program exempt goal (p + 1) q vs vs) :
    Guards program exempt goal (q + 1) (q + 2) vs vs := by
  intro n
  induction n with
  | zero => exact fun _ _ _ _ => guarded_zero
  | succ n ih =>
    intro hend last σ hσ
    have hend' : ∀ last σ, σ.Has vs → Guarded program exempt goal n ⟨q + 2, last, σ⟩ :=
      fun last σ hσ => (hend last σ hσ).of_succ
    -- a round comes back to the check, where the induction hypothesis takes over
    have hround := hr n (guards_label hk n (ih hend'))
    exact guarded_jumpIf hnd hq hl hc hσ (hend' last) (hround last)

end Machine

end Lumen
