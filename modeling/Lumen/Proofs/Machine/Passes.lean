import Lumen.Proofs.Machine.Guards
import Lumen.Proofs.Machine.Jumps

/-!
# The states that a run passes

A run passes one state after another. Code whose jumps stay inside passes, wherever it stands in a
program, the states that it passes by itself, moved to its place. It starts at its first statement
and never comes back there, and it leaves behind its last one; so the number of times that a run
comes to a piece of code is the number of times that it executes the piece.
-/

namespace Lumen.Machine

open Lumen.Bound (Stmt)
open Lumen.Bound.Stmt (Aimed labels mem_labels_iff)

/-- The states that a run passes within a number of steps. -/
def passed (program : Array Stmt) : Nat → State → List State
  | 0, _ => []
  | budget + 1, s =>
    s ::
      match step program s with
      | .halted _ => []
      | .running s' => passed program budget s'

def storesAt (p : Nat) (ss : List State) : List Store :=
  (ss.filter fun s => s.next = p).map State.store

/-- The stores with which a run comes to a position within a number of steps. -/
def arrivals (program : Array Stmt) (p budget : Nat) (s : State) : List Store :=
  storesAt p (passed program budget s)

/-- Whether a run leads from one state to another one and passes the states of a list before it. -/
inductive Leads (program : Array Stmt) : State → List State → State → Prop
  | here {s : State} : Leads program s [] s
  | step {s s' t : State} {ss : List State} :
    step program s = .running s' → Leads program s' ss t → Leads program s (s :: ss) t

variable {program : Array Stmt} {s s' t u : State} {ss ts : List State} {p n : Nat}

@[simp] theorem storesAt_nil : storesAt p [] = [] := rfl

@[simp] theorem storesAt_cons :
    storesAt p (s :: ss) = if s.next = p then s.store :: storesAt p ss else storesAt p ss := by
  by_cases h : s.next = p <;> simp [storesAt, h]

@[simp] theorem storesAt_append : storesAt p (ss ++ ts) = storesAt p ss ++ storesAt p ts := by
  simp [storesAt]

theorem storesAt_eq_nil (h : ∀ s ∈ ss, s.next ≠ p) : storesAt p ss = [] := by
  rw [storesAt, List.filter_eq_nil_iff.mpr (by simpa using h), List.map_nil]

theorem Leads.single (h : Machine.step program s = .running s') : Leads program s [s] s' :=
  .step h .here

theorem Leads.append (h : Leads program s ss t) (h' : Leads program t ts u) :
    Leads program s (ss ++ ts) u := by
  induction h with
  | here => exact h'
  | step hstep _ ih => exact .step hstep (ih h')

theorem Leads.run_eq (h : Leads program s ss t) (n : Nat) :
    run program (ss.length + n) s = run program n t := by
  induction h with
  | here => rw [List.length_nil, Nat.zero_add]
  | step hstep _ ih => rw [List.length_cons, Nat.add_right_comm, run, hstep, ← ih]

theorem Leads.passed_eq (h : Leads program s ss t) (n : Nat) :
    passed program (ss.length + n) s = ss ++ passed program n t := by
  induction h with
  | here => rw [List.length_nil, Nat.zero_add, List.nil_append]
  | step hstep _ ih =>
    rw [List.length_cons, Nat.add_right_comm, passed, hstep]
    exact congrArg (_ :: ·) ih

theorem passed_one : passed program 1 s = [s] := by
  rw [passed]
  cases Machine.step program s <;> rfl

theorem run_eq_none_of_leads (h : ∀ n, ∃ ss t, n ≤ ss.length ∧ Leads program s ss t) (n : Nat) :
    run program n s = none := by
  obtain ⟨ss, t, hlength, hleads⟩ := h n
  refine Option.eq_none_iff_forall_ne_some.mpr fun o ho => ?_
  have hrun : run program (ss.length + 0) s = some o := run_mono hlength ho
  rw [hleads.run_eq] at hrun
  cases hrun

theorem bounds_of_targetFrom? {l : Label} {code : List Stmt} {pos : Nat}
    (h : targetFrom? l pos code = some n) : pos < n ∧ n ≤ pos + code.length := by
  induction code generalizing pos with
  | nil => cases h
  | cons t ts ih =>
    rw [targetFrom?] at h
    rw [List.length_cons]
    split at h
    · next hrest =>
      cases h
      have hbounds := ih hrest
      omega
    · split at h <;> cases h
      omega

theorem bounds_of_step (h : step program s = .running s') :
    s.next < program.size ∧ 0 < s'.next ∧ s'.next ≤ program.size := by
  obtain ⟨t, ht, hnext⟩ := next_of_step h
  have hsize : s.next < program.size := (Array.getElem?_eq_some_iff.mp ht).1
  rcases hnext with hnext | hnext
  · omega
  · obtain ⟨l, -, htarget⟩ := Option.bind_eq_some_iff.mp hnext
    have hbounds := bounds_of_targetFrom? htarget
    rw [Array.length_toList] at hbounds
    omega

theorem Leads.next_lt (h : Leads program s ss t) : ∀ s' ∈ ss, s'.next < program.size := by
  induction h with
  | here => exact List.forall_mem_nil _
  | step hstep _ ih => exact List.forall_mem_cons.mpr ⟨(bounds_of_step hstep).1, ih⟩

theorem Leads.next_pos (h : Leads program s ss t) (hs : 0 < s.next) :
    ∀ s' ∈ ss ++ [t], 0 < s'.next := by
  induction h with
  | here => exact List.forall_mem_singleton.mpr hs
  | step hstep _ ih => exact List.forall_mem_cons.mpr ⟨hs, ih (bounds_of_step hstep).2.1⟩

theorem Leads.storesAt_start (h : Leads program s ss t) (hs : s.next = 0) :
    storesAt 0 (ss ++ [t]) = [s.store] := by
  cases h with
  | here => simp [hs]
  | @step _ s' _ ss hstep hrest =>
    have hpos := hrest.next_pos (bounds_of_step hstep).2.1
    rw [List.cons_append, storesAt_cons, if_pos hs,
      storesAt_eq_nil fun u hu => Nat.ne_of_gt (hpos u hu)]

/-- A run that ends without fault leads to its end behind the last statement. -/
theorem exists_leads_of_done {last : Option Value} {σ : Store} (hs : s.next ≤ program.size)
    (h : run program n s = some (.done last σ)) :
    ∃ ss, Leads program s ss ⟨program.size, last, σ⟩ := by
  induction n generalizing s with
  | zero => cases h
  | succ n ih =>
    rw [run] at h
    cases hstep : step program s with
    | running s' =>
      rw [hstep] at h
      obtain ⟨ss, hleads⟩ := ih (bounds_of_step hstep).2.2 h
      exact ⟨s :: ss, .step hstep hleads⟩
    | halted o =>
      rw [hstep] at h
      cases h
      have hend := ((steps_step program s).ended_of_done hstep).1
      have hsize : s.next = program.size :=
        Nat.le_antisymm hs (Array.getElem?_eq_none_iff.mp hend)
      rw [step, hend] at hstep
      cases hstep
      exact ⟨[], hsize ▸ .here⟩

section

def State.shift (p : Nat) (s : State) : State := { s with next := p + s.next }

def Result.shift (p : Nat) : Result → Result
  | running s => running (s.shift p)
  | halted o => halted o

/-- Whether code whose jumps stay inside stands in a program whose labels are set once. -/
structure Embedded (program : Array Stmt) (p : Nat) (code : List Stmt) : Prop where
  codeAt : CodeAt program p code
  aimed : Aimed [] [] code
  nodup : (labels code).Nodup
  unique : (labels program.toList).Nodup

variable {code : List Stmt} {i : Nat} {l : Label}

theorem CodeAt.getElem? (h : CodeAt program p code) {t : Stmt} (ht : code[i]? = some t) :
    program[p + i]? = some t := by
  induction code generalizing p i with
  | nil => cases ht
  | cons c code ih =>
    cases i with
    | zero =>
      cases ht
      exact h.1
    | succ i =>
      have hrest := ih h.2 ht
      rwa [Nat.add_assoc, Nat.add_comm 1] at hrest

namespace Embedded

theorem jumpTo_shift (h : Embedded program p code) (hl : l ∈ labels code) (last : Option Value)
    (σ : Store) : jumpTo program l last σ = (jumpTo code.toArray l last σ).shift p := by
  obtain ⟨j, hj⟩ := List.mem_iff_getElem?.mp (mem_labels_iff.mp hl)
  have hinside : target? code.toArray l = some (j + 1) :=
    target?_eq_some h.nodup (by simpa using hj)
  have hwhole : target? program l = some (p + j + 1) :=
    target?_eq_some h.unique (h.codeAt.getElem? hj)
  rw [jumpTo, jumpTo, hinside, hwhole]
  rfl

theorem step_shift (h : Embedded program p code) (hs : s.next < code.length) :
    step program (s.shift p) = (step code.toArray s).shift p := by
  obtain ⟨t, ht⟩ : ∃ t, code[s.next]? = some t := ⟨_, List.getElem?_eq_getElem hs⟩
  have hjump (l : Label) (hl : t.destination? = some l) (σ : Store) :
      jumpTo program l s.last σ = (jumpTo code.toArray l s.last σ).shift p :=
    h.jumpTo_shift (h.aimed.destination_mem (List.mem_of_getElem? ht) hl) s.last σ
  have hwhole : program[(s.shift p).next]? = some t := h.codeAt.getElem? ht
  rw [step, step, hwhole, List.getElem?_toArray, ht]
  cases t with
  | declaration v e | expression e =>
    dsimp only [State.shift]
    cases e.eval s.store <;> rfl
  | jumpIf l c onFalse =>
    dsimp only [State.shift]
    cases c.eval s.store with
    | fault f σ => rfl
    | done x σ =>
      dsimp only
      cases x.truth? with
      | none => rfl
      | some b =>
        dsimp only
        split
        · exact hjump l rfl σ
        · rfl
  | jump l => exact hjump l rfl s.store
  | _ => rfl

theorem leads_shift (h : Embedded program p code) (hleads : Leads code.toArray s ss t) :
    Leads program (s.shift p) (ss.map (State.shift p)) (t.shift p) := by
  induction hleads with
  | here => exact .here
  | @step s _ _ _ hstep _ ih =>
    have hs : s.next < code.length := (bounds_of_step hstep).1
    refine .step ?_ ih
    rw [h.step_shift hs, hstep]
    rfl

end Embedded

theorem storesAt_shift : storesAt (p + i) (ss.map (State.shift p)) = storesAt i ss := by
  induction ss with
  | nil => rfl
  | cons s ss ih => simp [State.shift, ih]

/-- Code that ends by itself leads, wherever it stands, to the position behind it, and comes to its
first statement and to that position once. -/
theorem Embedded.exists_leads {last value : Option Value} {σ σ' : Store}
    (h : Embedded program p code)
    (hrun : run code.toArray n ⟨0, last, σ⟩ = some (.done value σ')) :
    ∃ ss, Leads program ⟨p, last, σ⟩ ss ⟨p + code.length, value, σ'⟩ ∧
      storesAt p (ss ++ [⟨p + code.length, value, σ'⟩]) = [σ] ∧
        storesAt (p + code.length) ss = [] := by
  obtain ⟨ss, hleads⟩ := exists_leads_of_done (Nat.zero_le _) hrun
  refine ⟨ss.map (State.shift p), h.leads_shift hleads, ?_, ?_⟩
  · have hstart := hleads.storesAt_start rfl
    rw [← storesAt_shift, List.map_append] at hstart
    exact hstart
  · rw [storesAt_shift]
    exact storesAt_eq_nil fun s hs => Nat.ne_of_lt (hleads.next_lt s hs)

end

end Lumen.Machine
