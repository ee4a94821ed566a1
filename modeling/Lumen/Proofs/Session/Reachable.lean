import Lumen.Proofs.Machine.Moments
import Lumen.Session

/-!
# Reachable sessions

A session is reached from the empty one by submitting, running again and clearing, in any order. It
evaluates new submissions, which continue from nothing or from any earlier one, and the earlier ones
again; each evaluation has its moments, also one that never ends.
-/

namespace Lumen

namespace Submission

def moments (budget : Nat) (c : Submission) (store : Store) : List Moment :=
  if c.diagnostics = [] then Machine.moments c.program.toArray budget (.start store) else []

variable {c : Submission} {budget : Nat} {store : Store} {e : Evaluated}

/-- What an evaluation that ends may be: nothing, a run to the end, or a run to a fault. -/
theorem evaluate_cases (h : c.evaluate budget store = some e) :
    (c.diagnostics ≠ [] ∧ e = ⟨.rejected, store⟩) ∨
      c.diagnostics = [] ∧
        ((∃ value, e.verdict = .finished value ∧
          Machine.evaluate budget c.program store = some (.done value e.store)) ∨
        ∃ cause, e.verdict = .faulted cause ∧
          Machine.evaluate budget c.program store = some (.fault cause e.store)) := by
  rw [evaluate] at h
  split at h
  · next hclean =>
    obtain ⟨o, ho, he⟩ := Option.map_eq_some_iff.mp h
    refine .inr ⟨hclean, ?_⟩
    cases o with
    | done value store' =>
      subst he
      exact .inl ⟨value, rfl, ho⟩
    | fault cause store' =>
      subst he
      exact .inr ⟨cause, rfl, ho⟩
  · next hfaulty => exact .inl ⟨hfaulty, (Option.some.inj h).symm⟩

end Submission

namespace Session

theorem rerun_eq_some {s : Session} {budget i : Nat} {r : Report}
    (h : s.rerun budget i = some r) :
    ∃ m e, s.members[i]? = some m ∧ m.submission.evaluate budget s.store = some e ∧
      r = ⟨{ s with store := e.store }, m.submission, e.verdict⟩ := by
  simp only [rerun, Option.bind_eq_bind, Option.bind_eq_some_iff, Option.some.injEq] at h
  obtain ⟨m, hm, e, he, rfl⟩ := h
  exact ⟨m, e, hm, he, rfl⟩

variable [Xid]

/-- Whether a session comes about from the empty one. -/
inductive Reachable : Session → Prop
  | empty : Reachable ∅
  | submit {s : Session} {budget : Nat} {previous : Option Nat} {text : List Char} {r : Report} :
    Reachable s → s.submit budget previous text = some r → Reachable r.session
  | rerun {s : Session} {budget i : Nat} {r : Report} :
    Reachable s → s.rerun budget i = some r → Reachable r.session
  | clear {s : Session} : Reachable s → Reachable s.clear

/-- Whether a submission can be evaluated in a session: a new one or a member. -/
inductive Evaluates (s : Session) : Submission → Prop
  | new {previous : Option Nat} {chain : List Submission} (text : List Char) :
    s.chainFrom? previous = some chain →
      Evaluates s (Submission.compile chain s.fresh text).submission
  | again {i : Nat} {m : Member} : s.members[i]? = some m → Evaluates s m.submission

variable {s : Session} {budget : Nat} {previous : Option Nat} {text : List Char} {r : Report}

theorem submit_eq_some (h : s.submit budget previous text = some r) :
    ∃ chain e, s.chainFrom? previous = some chain ∧
      (Submission.compile chain s.fresh text).submission.evaluate budget s.store = some e ∧
      r = ⟨⟨s.members ++ [⟨(Submission.compile chain s.fresh text).submission, chain⟩],
          if e.verdict.succeeded then some s.members.length else s.head,
          (Submission.compile chain s.fresh text).fresh, e.store⟩,
        (Submission.compile chain s.fresh text).submission, e.verdict⟩ := by
  simp only [submit, Option.bind_eq_bind, Option.bind_eq_some_iff, Option.some.injEq] at h
  obtain ⟨chain, hchain, e, he, rfl⟩ := h
  exact ⟨chain, e, hchain, he, rfl⟩

end Session

end Lumen
