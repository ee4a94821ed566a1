import Lumen.Submission

/-!
# Sessions

A session keeps all submissions made in it, in order, each with the submissions that it sees. A new
one may continue from nothing or from any earlier one, whatever became of that. The head is the
last submission that ran to its end without a complaint; going on from the head gives the chain of
an interactive session. All submissions number their variables in one sequence and share one store,
so a submission that is run again writes the variables of its first run.
-/

namespace Lumen

/-- A submission and the submissions that it sees, newest first. -/
structure Member where
  submission : Submission
  chain : List Submission

/-- The submissions that one continuing from a member sees, newest first. -/
def Member.visible (m : Member) : List Submission := m.submission :: m.chain

/-- All submissions made so far, and what they share. -/
structure Session where
  members : List Member
  head : Option Nat
  fresh : Nat
  store : Store

namespace Session

def empty : Session := ⟨[], none, 0, ∅⟩

instance : EmptyCollection Session := ⟨empty⟩

structure Report where
  session : Session
  submission : Submission
  verdict : Verdict

/-- The chain of a submission that continues from nothing or from a member, if there is one. -/
def chainFrom? (s : Session) : Option Nat → Option (List Submission)
  | none => some []
  | some i => s.members[i]?.map Member.visible

/-- Makes a submission; it becomes the head if it runs to its end. -/
def submit [Xid] (budget : Nat) (s : Session) (previous : Option Nat) (text : List Char) :
    Option Report := do
  let chain ← s.chainFrom? previous
  let c := Submission.compile chain s.fresh text
  let e ← c.submission.evaluate budget s.store
  let head := if e.verdict.succeeded then some s.members.length else s.head
  some ⟨⟨s.members ++ [⟨c.submission, chain⟩], head, c.fresh, e.store⟩, c.submission, e.verdict⟩

/-- Runs a member again; the head stays. -/
def rerun (budget : Nat) (s : Session) (i : Nat) : Option Report := do
  let m ← s.members[i]?
  let e ← m.submission.evaluate budget s.store
  some ⟨{ s with store := e.store }, m.submission, e.verdict⟩

def clear (s : Session) : Session := { s with store := ∅ }

end Session

end Lumen
