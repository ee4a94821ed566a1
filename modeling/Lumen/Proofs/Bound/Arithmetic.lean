import Lumen.Proofs.Machine.Guards
import Mathlib.Data.Int.ModEq

/-!
# Arithmetic modulo 2^64

Words wrap at every operator of an expression. Sums, differences, products, negations and
complements keep congruence modulo 2^64, so wrapping inside an expression is not seen from outside:
the value of an expression made of these operations is the one word that is congruent to the number
that the expression has over the unbounded integers.
-/

namespace Lumen

def Value.integer? : Value → Option Int
  | .int n => some n.toInt
  | .bool _ => none

namespace UnaryKind

def arithmetic : List UnaryKind := [identity, negation, onesComplement]

def onInteger? (z : Int) : UnaryKind → Option Int
  | identity => some z
  | negation => some (-z)
  | onesComplement => some (-z - 1)
  | logicalNegation => none

end UnaryKind

namespace BinaryKind

/-- The operations on two numbers that keep congruence. -/
def arithmetic : List BinaryKind := [addition, subtraction, multiplication]

/-- A binary operation over the unbounded integers. -/
def onIntegers? (y z : Int) : BinaryKind → Option Int
  | addition => some (y + z)
  | subtraction => some (y - z)
  | multiplication => some (y * z)
  | _ => none

end BinaryKind

/-- Whether a word and a number are congruent modulo 2^64. -/
def Congruent (n : Int64) (z : Int) : Prop := n.toInt ≡ z [ZMOD 2 ^ 64]

namespace Congruent

variable {m n : Int64} {y z : Int}

theorem of_bmod (h : n.toInt = z.bmod (2 ^ 64)) : Congruent n z := by
  have hmod : z.bmod (2 ^ 64) ≡ z [ZMOD (2 ^ 64 : Nat)] := Int.bmod_emod
  rw [Congruent, h]
  exact hmod

theorem self (n : Int64) : Congruent n n.toInt := Int.ModEq.refl _

theorem unique (hm : Congruent m z) (hn : Congruent n z) : m = n := by
  have hsame : m.toInt ≡ n.toInt [ZMOD 2 ^ 64] := Int.ModEq.trans hm (Int.ModEq.symm hn)
  have hm' := m.toInt_bmod
  have hn' := n.toInt_bmod
  -- a word is its own balanced remainder, and that depends on the remainder alone
  rw [Int.bmod_def] at hm' hn'
  refine Int64.toInt_inj.mp ?_
  rw [← hm', ← hn']
  have hrest : m.toInt % 18446744073709551616 = n.toInt % 18446744073709551616 := hsame
  simp only [Nat.cast_ofNat, hrest]

theorem add (hm : Congruent m y) (hn : Congruent n z) : Congruent (m + n) (y + z) :=
  Int.ModEq.trans (of_bmod (Int64.toInt_add m n)) (Int.ModEq.add hm hn)

theorem sub (hm : Congruent m y) (hn : Congruent n z) : Congruent (m - n) (y - z) :=
  Int.ModEq.trans (of_bmod (Int64.toInt_sub m n)) (Int.ModEq.sub hm hn)

theorem mul (hm : Congruent m y) (hn : Congruent n z) : Congruent (m * n) (y * z) :=
  Int.ModEq.trans (of_bmod (Int64.toInt_mul m n)) (Int.ModEq.mul hm hn)

theorem neg (h : Congruent n z) : Congruent (-n) (-z) :=
  Int.ModEq.trans (of_bmod (Int64.toInt_neg n)) (Int.ModEq.neg h)

theorem not (h : Congruent n z) : Congruent (~~~n) (-z - 1) :=
  Int.ModEq.trans (of_bmod (Int64.toInt_not n)) (Int.ModEq.sub_right 1 (Int.ModEq.neg h))

end Congruent

theorem UnaryKind.exists_apply {kind : UnaryKind} {n : Int64} {z : Int}
    (hkind : kind ∈ arithmetic) (h : Congruent n z) :
    ∃ w m, kind.onInteger? z = some w ∧ kind.apply (.int n) = .ok (.int m) ∧ Congruent m w := by
  simp only [arithmetic, List.mem_cons, List.not_mem_nil, or_false] at hkind
  rcases hkind with rfl | rfl | rfl
  · exact ⟨z, n, rfl, rfl, h⟩
  · exact ⟨-z, -n, rfl, rfl, h.neg⟩
  · exact ⟨-z - 1, ~~~n, rfl, rfl, h.not⟩

theorem BinaryKind.exists_apply {kind : BinaryKind} {m n : Int64} {y z : Int}
    (hkind : kind ∈ arithmetic) (hm : Congruent m y) (hn : Congruent n z) :
    ∃ w k, kind.onIntegers? y z = some w ∧ kind.apply (.int m) (.int n) = .ok (.int k) ∧
      Congruent k w := by
  simp only [arithmetic, List.mem_cons, List.not_mem_nil, or_false] at hkind
  rcases hkind with rfl | rfl | rfl
  · exact ⟨y + z, m + n, rfl, rfl, hm.add hn⟩
  · exact ⟨y - z, m - n, rfl, rfl, hm.sub hn⟩
  · exact ⟨y * z, m * n, rfl, rfl, hm.mul hn⟩

namespace Bound.Expr

def Arithmetic : Expr → Prop
  | literal x => x.type = .int
  | .variable _ => True
  | unary op e => op.kind ∈ UnaryKind.arithmetic ∧ e.Arithmetic
  | binary l op r => op.kind ∈ BinaryKind.arithmetic ∧ l.Arithmetic ∧ r.Arithmetic
  | assignment .. => False

/-- The number that an expression has over the unbounded integers, where its variables have the
numbers of the words that a store holds. -/
def integer? (s : Store) : Expr → Option Int
  | literal x => x.integer?
  | .variable v => (s.get? v).bind Value.integer?
  | unary op e => (e.integer? s).bind fun z => op.kind.onInteger? z
  | binary l op r =>
    (l.integer? s).bind fun y => (r.integer? s).bind fun z => op.kind.onIntegers? y z
  | assignment .. => none

/-- An arithmetic expression is evaluated to a word congruent to its number over the integers. -/
theorem exists_congruent {s : Store} : ∀ {e : Expr}, e.Arithmetic →
    (∀ v ∈ e.reads, ∃ n, s.get? v = some (.int n)) →
      ∃ z n, e.integer? s = some z ∧ e.eval s = .done (.int n) s ∧ Congruent n z
  | literal (.int n), _, _ => ⟨n.toInt, n, rfl, rfl, .self n⟩
  | .variable v, _, hs => by
    obtain ⟨n, hv⟩ := hs v (List.mem_singleton.mpr rfl)
    exact ⟨n.toInt, n, by simp [integer?, hv, Value.integer?], by simp [eval, hv], .self n⟩
  | unary op e, ⟨hop, he⟩, hs => by
    obtain ⟨z, n, hz, heval, hn⟩ := exists_congruent he hs
    obtain ⟨w, m, hw, happly, hm⟩ := UnaryKind.exists_apply hop hn
    refine ⟨w, m, ?_, ?_, hm⟩
    · rw [integer?, hz, Option.bind_some, hw]
    · simp only [eval, heval, happly, Outcome.ofExcept]
  | binary l op r, ⟨hop, hl, hr⟩, hs => by
    obtain ⟨hsl, hsr⟩ := List.forall_mem_append.mp hs
    obtain ⟨y, m, hy, hevall, hm⟩ := exists_congruent hl hsl
    obtain ⟨z, n, hz, hevalr, hn⟩ := exists_congruent hr hsr
    obtain ⟨w, k, hw, happly, hk⟩ := BinaryKind.exists_apply hop hm hn
    refine ⟨w, k, ?_, ?_, hk⟩
    · rw [integer?, hy, hz, Option.bind_some, Option.bind_some, hw]
    · simp only [eval, hevall, hevalr, happly, Outcome.ofExcept]

/-- Arithmetic is exact modulo 2^64: on a store with words for its variables an arithmetic
expression has a value, which is the one word congruent to its number over the unbounded integers,
and leaves the store as it is. -/
theorem eval_exact_modulo {e : Expr} {s : Store} (he : e.Arithmetic)
    (hs : ∀ v ∈ e.reads, ∃ n, s.get? v = some (.int n)) :
    ∃ z n, e.integer? s = some z ∧ e.eval s = .done (.int n) s ∧
      ∀ m : Int64, m.toInt ≡ z [ZMOD 2 ^ 64] ↔ m = n := by
  obtain ⟨z, n, hz, heval, hn⟩ := exists_congruent he hs
  refine ⟨z, n, hz, heval, fun m => ⟨fun hm => Congruent.unique hm hn, ?_⟩⟩
  rintro rfl
  exact hn

/-- A product and a sum that both leave the range of words: the number is far outside of it and the
value is the word congruent to it. -/
theorem eval_exact_modulo_of_overflow :
    let x : Variable := ⟨1, "x", .int, false⟩
    let s : Store := (∅ : Store).set x (.int Int64.maxValue)
    let square : Expr := .binary (.unary (.on .int .tilde .onesComplement) (.variable x))
      (.on .int .int .asterisk .multiplication) (.variable x)
    let e : Expr := .binary (.unary (.on .int .minus .negation) square) .intAddition (.variable x)
    e.Arithmetic ∧ (∀ v ∈ e.reads, ∃ n, s.get? v = some (.int n)) ∧
      e.integer? s = some (2 ^ 126 - 1) ∧ e.eval s = .done (.int (-1)) s ∧
        ∀ m : Int64, m.toInt ≡ 2 ^ 126 - 1 [ZMOD 2 ^ 64] ↔ m = -1 := by
  intro x s square e
  have he : e.Arithmetic := by
    simp [e, square, Arithmetic, UnaryOperator.on, BinaryOperator.on, BinaryOperator.intAddition,
      UnaryKind.arithmetic, BinaryKind.arithmetic]
  have hs : ∀ v ∈ e.reads, ∃ n, s.get? v = some (.int n) := by
    simp [e, square, reads, s]
  have hz : e.integer? s = some (2 ^ 126 - 1) := by decide +kernel
  have hn : e.eval s = .done (.int (-1)) s := by decide +kernel
  obtain ⟨z, n, hz', hn', hunique⟩ := eval_exact_modulo he hs
  cases hz.symm.trans hz'
  cases hn.symm.trans hn'
  exact ⟨he, hs, hz, hn, hunique⟩

end Bound.Expr

end Lumen
