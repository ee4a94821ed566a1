import Lumen.Proofs.Session.Chain
import Lumen.Proofs.Source.Values
import Lumen.Text.Identifier.Table

/-!
# Written values evaluate to themselves

A submission that is the written form of a value is bound to a literal or to the negation of one,
without complaint. The flat program is that one expression, so it ends after two steps. Negating a
word wraps, but for no word that a numeral writes, and so the value comes back. The least word is
the one exception: there is no word for its digits, so the submission is rejected.
-/

namespace Lumen

theorem Machine.evaluate_expression {e : Bound.Expr} {x : Value} {σ σ' : Store} {budget : Nat}
    (h : e.eval σ = .done x σ') (hbudget : 2 ≤ budget) :
    evaluate budget [.expression e] σ = some (.done (some x) σ') := by
  refine run_mono hbudget ?_
  simp [run, step, State.start, h]

namespace Value

variable {n : Int64} {m : Nat}

theorem ofNat_of_toInt (h : n.toInt = .ofNat m) : m < 0x8000000000000000 ∧ Int64.ofNat m = n := by
  have hlt := n.toInt_lt
  rw [h, Int.ofNat_eq_natCast] at hlt
  refine ⟨by omega, ?_⟩
  rw [← Int64.ofInt_toInt n, h]
  rfl

/-- Every negative word but the least one is the negation of the word that its digits write. -/
theorem neg_ofNat_of_toInt (h : n.toInt = .negSucc m) (hn : n ≠ Int64.minValue) :
    m + 1 < 0x8000000000000000 ∧ -Int64.ofNat (m + 1) = n := by
  have hle := n.le_toInt
  have hne : n.toInt ≠ Int64.minValue.toInt := mt Int64.toInt_inj.mp hn
  have hmin : Int64.minValue.toInt = -0x8000000000000000 := by decide
  refine ⟨by omega, ?_⟩
  rw [← Int64.ofInt_toInt n, h, ← Int64.ofInt_eq_ofNat, ← Int64.ofInt_neg]
  rfl

theorem unary_leadingMinus (k : Int64) : Binding.unary .leadingMinus (.literal (.int k)) =
    ⟨.unary (.on .int .minus .negation) (.literal (.int k)), []⟩ := rfl

/-- A written value, the least word excepted, is read and bound without complaint, and to an
expression with this value. -/
theorem eval_phrase {v : Value} (env : Environment) (σ : Store) (h : v ≠ .int Int64.minValue) :
    Token.faults v.phrase.leaves = [] ∧ (Binding.expr env v.phrase).faults = [] ∧
      (Binding.expr env v.phrase).phrase.eval σ = .done v σ := by
  cases v with
  | bool b => cases b <;> exact ⟨rfl, rfl, rfl⟩
  | int n =>
    have hn : n ≠ Int64.minValue := fun hmin => h (congrArg _ hmin)
    rw [phrase]
    cases hword : n.toInt with
    | ofNat m =>
      obtain ⟨hm, rfl⟩ := ofNat_of_toInt hword
      have hread : Token.faults [Token.numeral 0 m] = [] :=
        List.filterMap_cons_none (Token.fault?_numeral 0 hm)
      refine ⟨hread, rfl, ?_⟩
      rw [Binding.expr, Token.value_numeral 0 hm]
      rfl
    | negSucc m =>
      obtain ⟨hm, rfl⟩ := neg_ofNat_of_toInt hword hn
      have hread : Token.faults [Token.leadingMinus, Token.numeral 1 (m + 1)] = [] := by
        rw [Token.faults, List.filterMap_cons_none rfl]
        exact List.filterMap_cons_none (Token.fault?_numeral 1 hm)
      have hbound : Binding.expr env (.unary .leadingMinus (.literal (.numeral 1 (m + 1)))) =
          Binding.unary .leadingMinus (.literal (.int (Int64.ofNat (m + 1)))) := by
        rw [Binding.expr, Binding.expr, Token.value_numeral 1 hm]
        rfl
      rw [hbound, unary_leadingMinus]
      exact ⟨hread, rfl, rfl⟩

/-- The digits of the least word are complained about, and nothing else is. -/
theorem faults_minValue (env : Environment) :
    Token.faults (int Int64.minValue).phrase.leaves =
        [⟨⟨1, 19⟩, .invalidNumber "9223372036854775808" "Int"⟩] ∧
      (Binding.expr env (int Int64.minValue).phrase).faults = [] :=
  ⟨by decide +kernel, rfl⟩

end Value

namespace Submission

section

variable [Xid] (v : Value) (fresh : Nat)

theorem diagnostics_compile_text : (compile [] fresh v.text.toList).submission.diagnostics =
    Token.faults v.phrase.leaves ++ (Binding.expr (.inside []) v.phrase).faults := by
  rw [compile, ofSource, Value.parse_text]
  rfl

theorem program_compile_text : (compile [] fresh v.text.toList).submission.program =
    [.expression (Binding.expr (.inside []) v.phrase).phrase] := by
  rw [compile, ofSource, Value.parse_text]
  rfl

end

/-- Written values are read back. The written form of a value other than the least word, as a
submission behind no others, is not complained about and evaluates to that value on every store,
which stays as it is. The written form of the least word has one complaint, about its digits, and is
not evaluated. -/
theorem evaluate_text [Xid] (v : Value) (fresh : Nat) (store : Store) :
    let c := (compile [] fresh v.text.toList).submission
    (v ≠ .int Int64.minValue → c.diagnostics = [] ∧
      ∀ budget, 2 ≤ budget → c.evaluate budget store = some ⟨.finished (some v), store⟩) ∧
    (v = .int Int64.minValue →
      (∃ d, c.diagnostics = [d] ∧ d.code = 1001 ∧ d.span = ⟨1, 19⟩ ∧
        d.span.slice v.text.toList = "9223372036854775808".toList) ∧
      ∀ budget, c.evaluate budget store = some ⟨.rejected, store⟩) := by
  have hdiagnostics := diagnostics_compile_text v fresh
  have hprogram := program_compile_text v fresh
  generalize (compile [] fresh v.text.toList).submission = c at hdiagnostics hprogram
  refine ⟨fun hv => ?_, ?_⟩
  · obtain ⟨hread, hbound, heval⟩ := Value.eval_phrase (.inside []) store hv
    rw [hread, hbound, List.append_nil] at hdiagnostics
    refine ⟨hdiagnostics, fun budget hbudget => ?_⟩
    rw [evaluate_of_clean hdiagnostics, hprogram, Machine.evaluate_expression heval hbudget]
    rfl
  · rintro rfl
    obtain ⟨hread, hbound⟩ := Value.faults_minValue (.inside [])
    rw [hread, hbound, List.append_nil] at hdiagnostics
    refine ⟨⟨_, hdiagnostics, rfl, rfl, by decide +kernel⟩, fun budget => ?_⟩
    have hfaulty : c.diagnostics ≠ [] := by simp [hdiagnostics]
    exact if_neg hfaulty

open scoped Xid in
/-- The least word is not read back, and the next one is. -/
theorem evaluate_text_of_least :
    let least : Value := .int Int64.minValue
    let v : Value := .int (Int64.minValue + 1)
    let run (v : Value) := (compile [] 1 v.text.toList).submission.evaluate 2 ∅
    v ≠ least ∧ run v = some ⟨.finished (some v), ∅⟩ ∧ run least = some ⟨.rejected, ∅⟩ := by
  intro least v run
  have hv : v ≠ least := by decide
  obtain ⟨hread, -⟩ := evaluate_text v 1 ∅
  obtain ⟨-, hrejected⟩ := evaluate_text least 1 ∅
  exact ⟨hv, (hread hv).2 2 (Nat.le_refl 2), (hrejected rfl).2 2⟩

end Submission

end Lumen
