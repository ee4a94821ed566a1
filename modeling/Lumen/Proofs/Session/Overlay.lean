import Lumen.Proofs.Machine.Overlay
import Lumen.Proofs.Session.Reachable
import Lumen.Text.Identifier.Table

/-!
# What other submissions leave in the store

The store of a session keeps the variables of inner scopes, of hidden declarations and of faulted
submissions. They are harmless: a program that runs on few entries runs alike on more of them. So a
submission that runs on the empty store has its value on every store, and running it again on the
store that it left changes nothing.
-/

namespace Lumen.Submission

/-- Whether a submission has a value on a store, and again on the store that it leaves, which it
leaves as it is. -/
def Repeats (c : Submission) (budget : Nat) (value : Option Value) (store : Store) : Prop :=
  ∃ left again, c.evaluate budget store = some ⟨.finished value, left⟩ ∧
    c.evaluate budget left = some ⟨.finished value, again⟩ ∧ ∀ v, again.get? v = left.get? v

variable {c : Submission} {budget : Nat} {value : Option Value} {σ : Store}

theorem evaluate_of_done (hclean : c.diagnostics = [])
    (h : Machine.evaluate budget c.program σ = some (.done value store)) :
    c.evaluate budget σ = some ⟨.finished value, store⟩ := by
  rw [evaluate, if_pos hclean, h]
  rfl

/-- A submission that runs to its end on the empty store does so on every store, over whose entries
it lays those that it has made. -/
theorem exists_laidOver (h : c.evaluate budget ∅ = some ⟨.finished value, σ⟩) (store : Store) :
    ∃ left, c.evaluate budget store = some ⟨.finished value, left⟩ ∧ σ.LaidOver store left := by
  rcases evaluate_cases h with ⟨-, hrejected⟩ | ⟨hclean, ⟨x, hverdict, hrun⟩ | ⟨f, hverdict, -⟩⟩
  · cases hrejected
  · cases hverdict
    have hdefined (n : Nat) (name : String) (τ : Store) :
        Machine.evaluate n c.program ∅ ≠ some (.fault (.undefinedVariable name) τ) := by
      intro hfault
      cases Machine.evaluate_unique hrun hfault
    have halike := Machine.runsAlike_of_within (Store.within_empty store) hdefined
    obtain ⟨o, ho, hsame⟩ := halike.ends hrun
    cases hsame with
    | done hleft => exact ⟨_, evaluate_of_done hclean ho, hleft⟩
  · cases hverdict

/-- Entries that a run does not need are harmless. A program that misses no variable on a store runs
alike on every store with more entries. A submission that runs to its end on the empty store has the
same value on every store, and the same value and store when it runs again. -/
theorem extra_entries_harmless :
    (∀ (program : List Bound.Stmt) (s t : Store), s.Within t →
      (∀ budget name σ,
        Machine.evaluate budget program s ≠ some (.fault (.undefinedVariable name) σ)) →
      Machine.RunsAlike program s t) ∧
    ∀ (c : Submission) (budget : Nat) (value : Option Value) (σ : Store),
      c.evaluate budget ∅ = some ⟨.finished value, σ⟩ → ∀ store, c.Repeats budget value store := by
  refine ⟨fun program s t => Machine.runsAlike_of_within, fun c budget value σ h store => ?_⟩
  obtain ⟨left, hleft, hover⟩ := exists_laidOver h store
  obtain ⟨again, hagain, hover'⟩ := exists_laidOver h left
  exact ⟨left, again, hleft, hagain, hover.again hover'⟩

open scoped Xid in
/-- A loop that ends in a division by zero, on a store that still has a variable of an earlier
submission; and a loop that is run behind it. -/
theorem extra_entries_harmless_behind_fault :
    let x : Variable := ⟨9, "x", .int, false⟩
    let first := (compile [] 0 "{ var i = 3 while i >= 0 { i = i - 1 6 / i } }".toList).submission
    let second := (compile [] 1 "{ var n = 0 for i = 1 to 3 n = n + i n }".toList).submission
    (Machine.evaluate 40 first.program ∅ = some (.fault .divisionByZero
        ⟨[⟨⟨0, "i", .int, false⟩, .int 0⟩]⟩) ∧
      Machine.RunsAlike first.program ∅ ⟨[⟨x, .int 7⟩]⟩) ∧
    (second.evaluate 60 ∅).map (·.verdict) = some (.finished (some (.int 6))) ∧
      second.Repeats 60 (some (.int 6)) ⟨[⟨x, .int 7⟩, ⟨⟨0, "i", .int, false⟩, .int 0⟩]⟩ := by
  intro x first second
  have hfault : Machine.evaluate 40 first.program ∅ = some (.fault .divisionByZero
      ⟨[⟨⟨0, "i", .int, false⟩, .int 0⟩]⟩) := by decide +kernel
  have hvalue : (second.evaluate 60 ∅).map (·.verdict) = some (.finished (some (.int 6))) := by
    decide +kernel
  obtain ⟨⟨verdict, σ⟩, hsecond, rfl⟩ := Option.map_eq_some_iff.mp hvalue
  refine ⟨⟨hfault, ?_⟩, hvalue, extra_entries_harmless.2 second 60 _ σ hsecond _⟩
  refine extra_entries_harmless.1 first.program ∅ _ (Store.within_empty _) fun n name τ h => ?_
  cases Machine.evaluate_unique hfault h

end Lumen.Submission
