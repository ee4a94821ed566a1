import Lumen.Binding
import Lumen.Bound.Lower
import Lumen.Machine
import Lumen.Source

/-!
# Submissions

A submission is one text of a session: read, bound and lowered. It sees the variables that the
submissions before it have declared, the newest innermost. Variables of all submissions of a session
are numbered in one sequence, and they share one store.

A submission with complaints is not run, and leaves the store as it is.
-/

namespace Lumen

/-- One text of a session. -/
structure Submission where
  source : Source
  bound : Bound.Stmt
  scope : Scope
  faults : List Diagnostic

/-- A new submission, and the number of the next variable of the session. -/
structure Compiled where
  submission : Submission
  fresh : Nat

inductive Verdict
  | rejected
  | finished (value : Option Value)
  | faulted (cause : Fault)
  deriving DecidableEq

def Verdict.succeeded : Verdict → Bool
  | finished _ => true
  | _ => false

/-- How the evaluation of a submission ended, and the store it left. -/
structure Evaluated where
  verdict : Verdict
  store : Store

namespace Submission

/-- The scopes that submissions form for the next one, given newest first. -/
def scopes (chain : List Submission) : List Scope := chain.map (·.scope)

def ofSource (outer : List Scope) (fresh : Nat) (source : Source) : Compiled :=
  let b := Binding.stmt ⟨.inside outer, fresh⟩ source.program.statement
  ⟨⟨source, b.phrase, b.state.env.current, b.faults⟩, b.state.fresh⟩

/-- Reads and binds a text behind the submissions of a chain, given newest first. -/
def compile [Xid] (chain : List Submission) (fresh : Nat) (text : List Char) : Compiled :=
  ofSource (scopes chain) fresh (.parse text)

/-- The complaints about a submission: those of reading before those of binding. -/
def diagnostics (s : Submission) : List Diagnostic := s.source.diagnostics ++ s.faults

def program (s : Submission) : List Bound.Stmt := s.bound.lower

/-- Runs a submission on a store, if that ends within a number of steps. -/
def evaluate (budget : Nat) (s : Submission) (store : Store) : Option Evaluated :=
  if s.diagnostics = [] then
    (Machine.evaluate budget s.program store).map fun
      | .done value store => ⟨.finished value, store⟩
      | .fault cause store => ⟨.faulted cause, store⟩
  else some ⟨.rejected, store⟩

end Submission

end Lumen
