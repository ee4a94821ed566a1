import Lumen.Proofs.Binding.Assignment
import Lumen.Proofs.Machine.Undefined
import Lumen.Proofs.Session.Reachable
import Lumen.Text.Identifier.Table

/-!
# Undefined variables in interactive sessions

In an interactive session every submission continues from the head. The variables of its chain have
values then, except for conditional ones: those that a branch or the body of a while loop declares
in the scope around it. So a submission without complaints ends in the fault of an undefined
variable exactly if it reads a conditional variable whose declaration has not run; and such programs
exist, within one submission and across submissions.
-/

namespace Lumen

namespace Submission

def conditionals (chain : List Submission) : List Variable := chain.flatMap (·.bound.conditional)

/-- Whether the variables of a chain have values, save for the conditional ones. -/
def Ready (chain : List Submission) (store : Store) : Prop :=
  ∀ v ∈ (scopes chain).flatten, v ∈ conditionals chain ∨ (store.get? v).isSome

variable {c : Submission} {chain : List Submission} {budget : Nat} {store : Store}
  {e : Evaluated}

theorem has_of_evaluate {vs : List Variable} (h : c.evaluate budget store = some e)
    (hvs : store.Has vs) : e.store.Has vs := by
  obtain ⟨-, rfl⟩ | ⟨-, ⟨value, -, hrun⟩ | ⟨cause, -, hrun⟩⟩ := evaluate_cases h
  · exact hvs
  · exact ((Machine.lead_moments hrun).has hvs).1
  · exact ((Machine.lead_moments hrun).has hvs).1

theorem Ready.of_evaluate (h : Ready chain store) (he : c.evaluate budget store = some e) :
    Ready chain e.store := by
  intro v hv
  refine (h v hv).imp_right fun hvalue => ?_
  have hhas : store.Has [v] := List.forall_mem_singleton.mpr hvalue
  exact has_of_evaluate he hhas v (List.mem_singleton.mpr rfl)

variable [Xid]

/-- A new submission behind a chain that is ready reads only conditional variables without value,
and leaves the variables that it declares whenever it runs with values. -/
theorem Ready.guarded (h : Ready chain store) (fresh : Nat) (text : List Char) (n : Nat) :
    let c := (compile chain fresh text).submission
    Machine.Guarded c.program.toArray (· ∈ conditionals (c :: chain))
      (Store.Has · c.bound.definite) n (.start store) := by
  intro c
  let vs := (scopes chain).flatten.filter fun v => (store.get? v).isSome
  have hstore : store.Has vs := fun v hv => (List.mem_filter.mp hv).2
  have hcovered : c.bound.Covered (· ∈ conditionals (c :: chain)) vs := by
    refine Binding.stmt_covered (fun v hv => ?_) fun v hv => List.mem_append_left _ hv
    rcases h v hv with hconditional | hvalue
    · exact .inr (List.mem_append_right _ hconditional)
    · exact .inl (List.mem_filter.mpr ⟨hv, hvalue⟩)
  have hguarded := Bound.Stmt.guarded_lower (Binding.stmt_structured _ _) hcovered hstore n
  exact ⟨hguarded.reads, fun hend => (hguarded.ends hend).of_subset (List.subset_append_right ..)⟩

/-- A chain that is ready stays so when a submission that runs to its end joins it. -/
theorem Ready.cons {fresh : Nat} {text : List Char} (h : Ready chain store)
    (he : (compile chain fresh text).submission.evaluate budget store = some e)
    (hsucceeded : e.verdict.succeeded) :
    Ready ((compile chain fresh text).submission :: chain) e.store := by
  intro v hv
  rcases List.mem_append.mp hv with hv | hv
  · -- a variable of the new submission, whose scope was empty at first
    rcases Binding.mem_current_stmt hv with hv | hv
    · cases hv
    · rcases Bound.Stmt.definite_or_conditional hv with hv | hv
      · obtain ⟨-, rfl⟩ | ⟨-, ⟨value, -, hrun⟩ | ⟨cause, hfaulted, -⟩⟩ := evaluate_cases he
        · cases hsucceeded
        · exact .inr ((h.guarded fresh text budget).ends hrun v hv)
        · rw [hfaulted] at hsucceeded
          cases hsucceeded
      · exact .inl (List.mem_append_left _ hv)
  · exact (h.of_evaluate he v hv).imp_left (List.mem_append_right _)

end Submission

namespace Session

open Submission (Ready conditionals)

variable {s : Session} {chain : List Submission}

theorem chainFrom?_append {members : List Member} {head : Option Nat} {fresh : Nat}
    {store store' : Store} (m : Member) (fresh' : Nat)
    (h : chainFrom? ⟨members, head, fresh, store⟩ head = some chain) :
    chainFrom? ⟨members ++ [m], head, fresh', store'⟩ head = some chain := by
  cases head with
  | none => exact h
  | some i =>
    obtain ⟨m', hm', rfl⟩ := Option.map_eq_some_iff.mp h
    have hi : i < members.length := (List.getElem?_eq_some_iff.mp hm').1
    simp only [chainFrom?, List.getElem?_append_left hi, hm', Option.map_some]

section

variable [Xid]

/-- Whether a session comes about by submissions that continue from the head. -/
inductive Interactive : Session → Prop
  | empty : Interactive ∅
  | submit {s : Session} {budget : Nat} {text : List Char} {r : Report} :
    Interactive s → s.submit budget s.head text = some r → Interactive r.session

/-- The head of an interactive session always has a chain, and its chain is ready. -/
theorem Interactive.ready (hs : s.Interactive) :
    ∃ chain, s.chainFrom? s.head = some chain ∧ Ready chain s.store := by
  induction hs with
  | empty => exact ⟨[], rfl, List.forall_mem_nil _⟩
  | @submit s budget text r _ hsubmit ih =>
    obtain ⟨chain, hchain, hready⟩ := ih
    obtain ⟨chain', e, hchain', he, rfl⟩ := submit_eq_some hsubmit
    cases Option.some.inj (hchain.symm.trans hchain')
    by_cases hsucceeded : e.verdict.succeeded
    · refine ⟨(Submission.compile chain s.fresh text).submission :: chain, ?_,
        hready.cons he hsucceeded⟩
      simp [chainFrom?, hsucceeded, Member.visible]
    · refine ⟨chain, ?_, hready.of_evaluate he⟩
      rw [if_neg hsucceeded]
      exact chainFrom?_append _ _ hchain

/-- A submission of an interactive session ends in the fault of an undefined variable exactly if it
reads without value a conditional variable of itself or of its chain. -/
theorem undefined_iff_conditional (hs : s.Interactive) (hchain : s.chainFrom? s.head = some chain)
    (text : List Char) (budget : Nat) (name : String) (σ : Store) :
    let c := (Submission.compile chain s.fresh text).submission
    c.evaluate budget s.store = some ⟨.faulted (.undefinedVariable name), σ⟩ ↔
      ∃ v ∈ conditionals (c :: chain), v.name = name ∧
        ⟨σ, .read v⟩ ∈ c.moments budget s.store ∧ σ.get? v = none := by
  intro c
  obtain ⟨chain', hchain', hready⟩ := hs.ready
  cases Option.some.inj (hchain.symm.trans hchain')
  constructor
  · intro he
    obtain ⟨-, h⟩ | ⟨hclean, ⟨value, h, -⟩ | ⟨cause, h, hrun⟩⟩ := Submission.evaluate_cases he
    · cases h
    · cases h
    · cases h
      obtain ⟨v, hname, hread, hnone⟩ := Machine.run_undefined_iff.mp hrun
      refine ⟨v, (hready.guarded s.fresh text budget).reads hread hnone, hname, ?_, hnone⟩
      rw [Submission.moments, if_pos hclean]
      exact hread
  · rintro ⟨v, -, hname, hread, hnone⟩
    rw [Submission.moments] at hread
    split at hread
    · next hclean =>
      have hrun := Machine.run_undefined_iff.mpr ⟨v, hname, hread, hnone⟩
      rw [Submission.evaluate, if_pos hclean, Machine.evaluate, hrun]
      rfl
    · cases hread

end

open scoped Xid

/-- A branch that is not taken leaves its variable to the next submission without value. -/
theorem undefined_iff_conditional_across_submissions :
    ∃ r chain, submit 9 ∅ none "if false var x = 1".toList = some r ∧
      r.session.chainFrom? r.session.head = some chain ∧
      let c := (Submission.compile chain r.session.fresh "x".toList).submission
      ∃ v ∈ conditionals (c :: chain), v.name = "x" ∧
        ⟨∅, .read v⟩ ∈ c.moments 9 r.session.store := by
  have hrun : ((submit 9 ∅ none "if false var x = 1".toList).bind fun r =>
      (r.session.chainFrom? r.session.head).bind fun chain =>
        ((Submission.compile chain r.session.fresh "x".toList).submission.evaluate 9
          r.session.store).map fun e => (e.verdict, e.store)) =
        some (.faulted (.undefinedVariable "x"), ∅) := by
    decide +kernel
  obtain ⟨r, hr, hrun⟩ := Option.bind_eq_some_iff.mp hrun
  obtain ⟨chain, hchain, hrun⟩ := Option.bind_eq_some_iff.mp hrun
  obtain ⟨⟨verdict, store⟩, he, hresult⟩ := Option.map_eq_some_iff.mp hrun
  cases hresult
  obtain ⟨v, hv, hname, hread, -⟩ :=
    (undefined_iff_conditional (.submit .empty hr) hchain _ 9 "x" ∅).mp he
  exact ⟨r, chain, hr, hchain, v, hv, hname, hread⟩

/-- A submission without complaints that reads a variable without value, in a new session. -/
theorem undefined_behind_branch :
    (∅ : Session).Interactive ∧
      ∃ r, submit 9 ∅ (∅ : Session).head "\x7b if false var x = 1 x \x7d".toList = some r ∧
        r.submission.diagnostics = [] ∧ r.verdict = .faulted (.undefinedVariable "x") := by
  have hrun : (submit 9 ∅ (∅ : Session).head "\x7b if false var x = 1 x \x7d".toList).map
      (fun r => (r.submission.diagnostics, r.verdict)) =
        some ([], .faulted (.undefinedVariable "x")) := by
    decide +kernel
  obtain ⟨r, hr, hresult⟩ := Option.map_eq_some_iff.mp hrun
  exact ⟨.empty, r, hr, Prod.mk.inj hresult⟩

end Session

end Lumen
