import Lumen.Proofs.Bound.Meaning
import Lumen.Proofs.Bound.Recording
import Lumen.Proofs.Machine.Passes
import Lumen.Proofs.Machine.Writes
import Mathlib.Data.List.Forall2

/-!
# Loops over numbers count

The variable of a loop over numbers is a word, which wraps around, and the loop goes on as long as
the word is at most the upper bound. Below the greatest word that makes one round for each number
from the lower bound to the upper one, in order. But no word is above the greatest one: with that
as its upper bound a loop never ends, and behind the greatest word it counts on from the least one.
-/

namespace Lumen.Bound

open Machine (CodeAt Leads arrivals evaluate storesAt)

/-- Whether an expression has a value on every store and writes nothing. -/
def Expr.Constant (e : Expr) (x : Value) : Prop := ∀ σ, e.eval σ = .done x σ

theorem Expr.constant_literal (x : Value) : (literal x).Constant x := fun _ => rfl

namespace Stmt

/-- Whether a statement ends without fault on one store and leaves another one. -/
def Takes (s : Stmt) (σ σ' : Store) : Prop :=
  ∃ budget value, evaluate budget s.lower σ = some (.done value σ')

/-- Whether a statement without labels and jumps can be repeated on the stores with a property, all
stores for instance, whatever number a variable has: it ends there without fault, on a store with
the property again, and never writes the variable. -/
structure Steady (P : Store → Prop) (v : Variable) (s : Stmt) : Prop where
  structured : s.Structured
  ends : ∀ σ, P σ → ∃ σ', s.Takes σ σ' ∧ P σ'
  keeps : ∀ σ, P σ → ∀ budget,
    ∀ m ∈ Machine.moments s.lower.toArray budget (.start σ), m.access.Keeps v
  numbers : ∀ σ i, P σ → P (σ.set v (.int i))

def bodyEnd (body : Stmt) : Nat := 3 + (body.lowerFrom 3).length

/-- What it is for a run to execute the body of a loop a number of times within a budget: it comes
to the code of the body with that many values of the variable, from a first one on, and each time
it comes to the end of the code with a store that the body leaves. -/
structure Repeats (program : Array Stmt) (v : Variable) (body : Stmt) (first : Int) (n budget : Nat)
    (store : Store) : Prop where
  placed : CodeAt program 3 (body.lowerFrom 3)
  counts : (arrivals program 3 budget (.start store)).map (·.get? v) =
    (List.range n).map fun k => some (.int (.ofInt (first + k)))
  completes : List.Forall₂ body.Takes (arrivals program 3 budget (.start store))
    (arrivals program body.bodyEnd budget (.start store))

/-- What stands around the body of a loop over numbers. -/
structure Counter (program : Array Stmt) (v : Variable) (lower upper : Expr) (body : Stmt) :
    Prop where
  unique : (labels program.toList).Nodup
  declared : program[0]? = some (declaration v lower)
  started : program[1]? = some (jump (numbered 2))
  repeated : program[2]? = some (label (numbered 3))
  placed : CodeAt program 3 (body.lowerFrom 3)
  advanced : program[body.bodyEnd]? = some (increment v)
  continued : program[body.bodyEnd + 1]? = some (label (numbered 2))
  checked : program[body.bodyEnd + 2]? = some (jumpIf (numbered 3) (withinBound v upper) false)
  left : program[body.bodyEnd + 3]? = some (label (numbered 1))
  size : program.size = body.bodyEnd + 4

/-- Whether the states from one check of a loop to another one make a number of rounds: each time the
run comes to the body with the next number and leaves it with a store that the body leaves. -/
structure Rounds (program : Array Stmt) (P : Store → Prop) (v : Variable) (body : Stmt)
    (first : Int) (n : Nat) (s : Machine.State) (ss : List Machine.State) (t : Machine.State) :
    Prop where
  leads : Leads program s ss t
  holds : P t.store
  number : t.store.get? v = some (.int (.ofInt (first + n)))
  length_le : n ≤ ss.length
  counts : (storesAt 3 ss).map (·.get? v) =
    (List.range n).map fun k => some (.int (.ofInt (first + k)))
  takes : List.Forall₂ body.Takes (storesAt 3 ss) (storesAt body.bodyEnd ss)

variable {P : Store → Prop} {v : Variable} {lower upper : Expr} {body s : Stmt}
  {program : Array Stmt} {σ σ' store : Store} {i least most : Int64} {first : Int} {n : Nat}

theorem Steady.of_assignsOnly (hs : s.Structured) (hassigns : s.AssignsOnly (· ≠ v))
    (hfree : v ∉ s.introduced) (hends : ∀ σ, P σ → ∃ σ', s.Takes σ σ' ∧ P σ')
    (hnumbers : ∀ σ i, P σ → P (σ.set v (.int i))) : s.Steady P v where
  structured := hs
  ends := hends
  numbers := hnumbers
  keeps σ _ budget m hm := by
    obtain ⟨state, -, hstep⟩ := Machine.exists_visits_of_moment .start hm
    cases haccess : m.access with
    | read w => trivial
    | write w x =>
      rintro rfl
      have hwrite := Machine.write_of_step hstep haccess
      simp only [List.getElem?_toArray] at hwrite
      rcases hwrite with ⟨t, e, hnext, hoperand, hw⟩ | ⟨e, hnext, -⟩
      · have ht := lowerFrom_assignsOnly 0 hassigns t (List.mem_of_getElem? hnext)
        exact ht.operand hoperand w hw rfl
      · rw [← introduced_lowerFrom s 0] at hfree
        exact hfree (List.mem_flatMap.mpr ⟨_, List.mem_of_getElem? hnext, List.mem_cons_self⟩)

theorem Steady.get?_eq (h : s.Steady P v) (hσ : P σ) (hs : s.Takes σ σ') :
    σ'.get? v = σ.get? v := by
  obtain ⟨budget, value, heval⟩ := hs
  exact ((Machine.lead_moments heval).get?_eq (h.keeps σ hσ budget)).1

/-- What a statement takes a store to depends neither on the numbers of its labels nor on the value
recorded before it. -/
theorem Takes.run (h : s.Takes σ σ') (hs : s.Structured) (k : Nat) (last : Option Value) :
    ∃ n value, Machine.run (s.lowerFrom k).toArray n ⟨0, last, σ⟩ = some (.done value σ') := by
  obtain ⟨budget, value, heval⟩ := h
  obtain ⟨b, hexec⟩ := (exists_evaluate_lower_iff hs σ _).mp ⟨budget, heval⟩
  have hlast : s.exec b last σ = some (.done (value.or last) σ') := by
    rw [exec_records b s last σ, hexec]
    rfl
  have hperforms := performs_lowerFrom (k := k) (nodup_labels_lowerFrom k hs) hs
    (Machine.codeAt_of_append [] (s.lowerFrom k))
  obtain ⟨n, hrun⟩ := hperforms.forward (n := 1) hlast (Machine.run_end (by simp))
  exact ⟨n, _, hrun⟩

theorem counter_lower (v : Variable) (lower upper : Expr) (h : body.Structured) :
    Counter (forLoop v lower upper body).lower.toArray v lower upper body := by
  have hunique : (labels (forLoop v lower upper body).lower).Nodup :=
    nodup_labels_lowerFrom (s := forLoop v lower upper body) 0 h
  have hcode : CodeAt (forLoop v lower upper body).lower.toArray 0
      ((forLoop v lower upper body).lowerFrom 0) :=
    Machine.codeAt_of_append [] (forLoop v lower upper body).lower
  simp only [lowerFrom, loop, Machine.codeAt_cons, Machine.codeAt_append, Machine.codeAt_nil,
    List.length_append, List.length_cons, List.length_nil, Nat.zero_add, ← Nat.add_assoc,
    and_true] at hcode
  obtain ⟨hdeclared, hstarted, hrepeated, ⟨hbody, hadvanced⟩, hcontinued, hchecked, hleft⟩ := hcode
  refine ⟨hunique, hdeclared, hstarted, hrepeated, hbody, hadvanced, hcontinued, hchecked, hleft, ?_⟩
  simp only [Stmt.lower, lowerFrom, loop, bodyEnd, List.size_toArray, List.length_append,
    List.length_cons, List.length_nil, Nat.zero_add]
  omega

theorem eval_withinBound (hupper : upper.Constant (.int most)) (hv : σ.get? v = some (.int i)) :
    (withinBound v upper).eval σ = .done (.bool (i ≤ most)) σ := by
  simp only [withinBound, Expr.eval, hv, hupper σ]
  rfl

theorem get?_first (store : Store) :
    (store.set v (.int least)).get? v = some (.int (.ofInt least.toInt)) := by
  rw [Store.get?_set_self, Int64.ofInt_toInt]

theorem Rounds.append {m : Nat} {s t u : Machine.State} {ss ts : List Machine.State}
    (h : Rounds program P v body first n s ss t)
    (h' : Rounds program P v body (first + n) m t ts u) :
    Rounds program P v body first (n + m) s (ss ++ ts) u where
  leads := h.leads.append h'.leads
  holds := h'.holds
  number := by rw [h'.number, Int.natCast_add, Int.add_assoc]
  length_le := by
    rw [List.length_append]
    exact Nat.add_le_add h.length_le h'.length_le
  counts := by
    rw [Machine.storesAt_append, List.map_append, h.counts, h'.counts, List.range_add,
      List.map_append, List.map_map]
    simp [Function.comp_def, Int.add_assoc]
  takes := by
    rw [Machine.storesAt_append, Machine.storesAt_append]
    exact List.rel_append h.takes h'.takes

namespace Counter

variable (h : Counter program v lower upper body)
include h

theorem leads_check (hlower : lower.Constant (.int least)) (store : Store) : ∃ ss last,
    Leads program (.start store) ss ⟨body.bodyEnd + 2, last, store.set v (.int least)⟩ ∧
      ∀ s ∈ ss, s.next < 3 := by
  have hdeclare : Machine.step program (.start store) =
      .running ⟨1, some (.int least), store.set v (.int least)⟩ := by
    simp only [Machine.step, Machine.State.start, h.declared, hlower store, Nat.zero_add]
  have hjump : Machine.step program ⟨1, some (.int least), store.set v (.int least)⟩ =
      .running ⟨body.bodyEnd + 2, some (.int least), store.set v (.int least)⟩ := by
    simp only [Machine.step, h.started, Machine.jumpTo,
      Machine.target?_eq_some h.unique h.continued]
  exact ⟨_, _, .step hdeclare (.single hjump), by simp [Machine.State.start]⟩

/-- A check that holds leads through the body once and, with one added, to the next check. -/
theorem exists_round (last : Option Value) (hupper : upper.Constant (.int most))
    (hbody : body.Steady P v) (hσ : P σ) (hv : σ.get? v = some (.int (.ofInt first)))
    (hfirst : Int64.ofInt first ≤ most) : ∃ ss last' σ',
      Rounds program P v body first 1 ⟨body.bodyEnd + 2, last, σ⟩ ss
        ⟨body.bodyEnd + 2, last', σ'⟩ := by
  obtain ⟨τ, hτ, hP⟩ := hbody.ends σ hσ
  have hτv : τ.get? v = some (.int (.ofInt first)) := (hbody.get?_eq hσ hτ).trans hv
  obtain ⟨n, value, hrun⟩ := hτ.run hbody.structured 3 last
  have hembedded : Machine.Embedded program 3 (body.lowerFrom 3) := ⟨h.placed,
    aimed_lowerFrom 3 hbody.structured, nodup_labels_lowerFrom 3 hbody.structured, h.unique⟩
  obtain ⟨ss, hinside, hstart, hbehind⟩ := hembedded.exists_leads hrun
  rw [← bodyEnd] at hinside hstart hbehind
  let i := Int64.ofInt (first + 1)
  have hcheck : Machine.step program ⟨body.bodyEnd + 2, last, σ⟩ = .running ⟨3, last, σ⟩ := by
    simp only [Machine.step, h.checked, eval_withinBound hupper hv, hfirst, Value.truth?,
      Machine.jumpTo, Machine.target?_eq_some h.unique h.repeated]
    rfl
  have hadvance : Machine.step program ⟨body.bodyEnd, value, τ⟩ =
      .running ⟨body.bodyEnd + 1, some (.int i), τ.set v (.int i)⟩ := by
    simp only [Machine.step, h.advanced, increment, Expr.eval, hτv, i, Int64.ofInt_add]
    rfl
  have hcontinue : Machine.step program ⟨body.bodyEnd + 1, some (.int i), τ.set v (.int i)⟩ =
      .running ⟨body.bodyEnd + 2, some (.int i), τ.set v (.int i)⟩ := by
    simp only [Machine.step, h.continued]
  have haway (k : Nat) : body.bodyEnd + (k + 1) ≠ 3 := by
    rw [bodyEnd]
    omega
  have hbegun : storesAt 3 (⟨body.bodyEnd + 2, last, σ⟩ :: (ss ++ [⟨body.bodyEnd, value, τ⟩,
      ⟨body.bodyEnd + 1, some (.int i), τ.set v (.int i)⟩])) = [σ] := by
    simp only [Machine.storesAt_append, Machine.storesAt_cons, haway, if_false] at hstart ⊢
    exact hstart
  refine ⟨_, _, _, .step hcheck (hinside.append (.step hadvance (.single hcontinue))),
    hbody.numbers τ _ hP, Store.get?_set_self .., Nat.le_add_left .., ?_, ?_⟩
  · rw [hbegun, List.map_singleton, hv]
    simp
  · rw [hbegun]
    simpa [hbehind] using hτ

/-- As long as all checks hold, a loop makes one round after the other. -/
theorem exists_rounds (last : Option Value) (hupper : upper.Constant (.int most))
    (hbody : body.Steady P v) (hσ : P σ) (hv : σ.get? v = some (.int (.ofInt first))) (n : Nat)
    (hn : ∀ k < n, Int64.ofInt (first + k) ≤ most) : ∃ ss last' σ',
      Rounds program P v body first n ⟨body.bodyEnd + 2, last, σ⟩ ss
        ⟨body.bodyEnd + 2, last', σ'⟩ := by
  induction n with
  | zero => exact ⟨[], last, σ, .here, hσ, by simpa using hv, Nat.le_refl 0, rfl, .nil⟩
  | succ n ih =>
    obtain ⟨ss, last₁, σ₁, hrounds⟩ := ih fun k hk => hn k (Nat.lt_succ_of_lt hk)
    obtain ⟨ts, last₂, σ₂, hround⟩ := h.exists_round last₁ hupper hbody hrounds.holds
      hrounds.number (hn n (Nat.lt_succ_self n))
    exact ⟨ss ++ ts, last₂, σ₂, hrounds.append hround⟩

theorem leads_end (last : Option Value) (hupper : upper.Constant (.int most))
    (hv : σ.get? v = some (.int i)) (hi : ¬ i ≤ most) : ∃ ss,
      Leads program ⟨body.bodyEnd + 2, last, σ⟩ ss ⟨program.size, last, σ⟩ ∧
        ∀ s ∈ ss ++ [⟨program.size, last, σ⟩], body.bodyEnd < s.next := by
  have hcheck : Machine.step program ⟨body.bodyEnd + 2, last, σ⟩ =
      .running ⟨body.bodyEnd + 3, last, σ⟩ := by
    simp only [Machine.step, h.checked, eval_withinBound hupper hv, hi, Value.truth?]
    rfl
  have hleft : Machine.step program ⟨body.bodyEnd + 3, last, σ⟩ =
      .running ⟨program.size, last, σ⟩ := by
    simp only [Machine.step, h.left, h.size]
  exact ⟨_, .step hcheck (.single hleft), by simp [h.size]⟩

theorem repeats {s t : Machine.State} {front ss back : List Machine.State} {budget : Nat}
    (hpassed : Machine.passed program budget (.start store) = front ++ ss ++ back)
    (hfront : ∀ s ∈ front, s.next < 3) (hback : ∀ s ∈ back, body.bodyEnd < s.next)
    (hrounds : Rounds program P v body first n s ss t) :
    Repeats program v body first n budget store := by
  have harrivals (p : Nat) (hstart : 3 ≤ p) (hend : p ≤ body.bodyEnd) :
      arrivals program p budget (.start store) = storesAt p ss := by
    have hbefore : storesAt p front = [] :=
      Machine.storesAt_eq_nil fun s hs => Nat.ne_of_lt (Nat.lt_of_lt_of_le (hfront s hs) hstart)
    have hbehind : storesAt p back = [] :=
      Machine.storesAt_eq_nil fun s hs => Nat.ne_of_gt (Nat.lt_of_le_of_lt hend (hback s hs))
    rw [arrivals, hpassed, Machine.storesAt_append, Machine.storesAt_append, hbefore, hbehind,
      List.nil_append, List.append_nil]
  have hsize : 3 ≤ body.bodyEnd := Nat.le_add_right _ _
  refine ⟨h.placed, ?_, ?_⟩
  · rw [harrivals 3 (Nat.le_refl 3) hsize, hrounds.counts]
  · rw [harrivals 3 (Nat.le_refl 3) hsize, harrivals _ hsize (Nat.le_refl _)]
    exact hrounds.takes

end Counter

section

variable (hlower : lower.Constant (.int least)) (hbody : body.Steady P v)
  (hstore : P (store.set v (.int least)))
include hlower hbody hstore

/-- Below the greatest word, a loop ends behind its upper bound. -/
theorem forLoop_ends (hupper : upper.Constant (.int most)) (hmost : most < Int64.maxValue) :
    ∃ budget value left,
      evaluate budget (forLoop v lower upper body).lower store = some (.done value left) ∧
        Repeats (forLoop v lower upper body).lower.toArray v body least.toInt
          (most.toInt - least.toInt + 1).toNat budget store := by
  have h := counter_lower v lower upper hbody.structured
  have hleast : -2 ^ 63 ≤ least.toInt := least.le_toInt
  have hgreatest : most.toInt < 2 ^ 63 - 1 := by
    rw [← Int64.toInt_maxValue]
    exact Int64.lt_iff_toInt_lt.mp hmost
  have htop : least.toInt < 2 ^ 63 := least.toInt_lt
  obtain ⟨front, last₀, hstart, hfront⟩ := h.leads_check hlower store
  obtain ⟨ss, last, σ, hrounds⟩ := h.exists_rounds last₀ hupper hbody hstore (get?_first store)
    (most.toInt - least.toInt + 1).toNat fun k hk => by
      rw [Int64.le_iff_toInt_le, Int64.toInt_ofInt_of_le (by omega) (by omega)]
      omega
  obtain ⟨back, hend, hback⟩ := h.leads_end last hupper hrounds.number (by
    rw [Int64.le_iff_toInt_le, Int64.toInt_ofInt_of_le (by omega) (by omega)]
    omega)
  have hleads := (hstart.append hrounds.leads).append hend
  refine ⟨(front ++ ss ++ back).length + 1, last, σ, ?_, ?_⟩
  · rw [evaluate, hleads.run_eq, Machine.run_end (Nat.le_refl _)]
  · refine h.repeats ?_ hfront hback hrounds
    rw [hleads.passed_eq, Machine.passed_one, List.append_assoc]

/-- With the greatest word as its upper bound, a loop makes any number of rounds. -/
theorem forLoop_endless (hupper : upper.Constant (.int Int64.maxValue)) :
    (∀ budget, evaluate budget (forLoop v lower upper body).lower store = none) ∧
      ∀ n, ∃ budget, Repeats (forLoop v lower upper body).lower.toArray v body least.toInt n budget
        store := by
  have h := counter_lower v lower upper hbody.structured
  obtain ⟨front, last₀, hstart, hfront⟩ := h.leads_check hlower store
  have hrounds (n : Nat) := h.exists_rounds last₀ hupper hbody hstore (get?_first store) n
    fun k _ => Int64.le_maxValue _
  refine ⟨Machine.run_eq_none_of_leads fun n => ?_, fun n => ?_⟩
  · obtain ⟨ss, last, σ, hrounds⟩ := hrounds n
    refine ⟨front ++ ss, _, ?_, hstart.append hrounds.leads⟩
    rw [List.length_append]
    exact Nat.le_add_left_of_le hrounds.length_le
  · obtain ⟨ss, last, σ, hrounds⟩ := hrounds n
    refine ⟨(front ++ ss).length + 0, h.repeats ?_ hfront (List.forall_mem_nil _) hrounds⟩
    rw [(hstart.append hrounds.leads).passed_eq, Machine.passed, List.append_nil]

/-- A loop from one word to another, with a body that can be repeated: below the greatest word it
ends and executes the body once with each number from the lower bound to the upper one, in order.
With the greatest word as its upper bound it never ends, and counts on from the least word. -/
theorem forLoop_counts (hupper : upper.Constant (.int most)) :
    (most < Int64.maxValue → ∃ budget value left,
      evaluate budget (forLoop v lower upper body).lower store = some (.done value left) ∧
        Repeats (forLoop v lower upper body).lower.toArray v body least.toInt
          (most.toInt - least.toInt + 1).toNat budget store) ∧
    (most = Int64.maxValue →
      (∀ budget, evaluate budget (forLoop v lower upper body).lower store = none) ∧
        ∀ n, ∃ budget, Repeats (forLoop v lower upper body).lower.toArray v body least.toInt n
          budget store) := by
  refine ⟨forLoop_ends hlower hbody hstore hupper, ?_⟩
  rintro rfl
  exact forLoop_endless hlower hbody hstore hupper

end

/-- A loop from -1 to 1 adds three numbers to a sum, and one up to the greatest word adds numbers
forever. -/
theorem forLoop_counts_of_sum :
    let i : Variable := ⟨0, "i", .int, false⟩
    let sum : Variable := ⟨1, "sum", .int, false⟩
    let body := expression (.assignment sum (.binary (.variable sum) .intAddition (.variable i)))
    let first : Expr := .literal (.int (-1))
    let last : Expr := .literal (.int 1)
    let greatest : Expr := .literal (.int Int64.maxValue)
    let P (σ : Store) := ∃ x y, σ.get? i = some (.int x) ∧ σ.get? sum = some (.int y)
    let store : Store := ⟨[⟨sum, .int 5⟩]⟩
    body.Steady P i ∧
      (∃ budget value left,
        evaluate budget (forLoop i first last body).lower store = some (.done value left) ∧
          Repeats (forLoop i first last body).lower.toArray i body (-1) 3 budget store) ∧
      ∀ budget, evaluate budget (forLoop i first greatest body).lower store = none := by
  intro i sum body first last greatest P store
  have hapart : sum ≠ i := by decide
  have hbody : body.Steady P i := by
    refine .of_assignsOnly trivial (by simp [body, AssignsOnly, Expr.targets, hapart])
      List.not_mem_nil ?_ ?_
    · rintro σ ⟨x, y, hx, hy⟩
      refine ⟨σ.set sum (.int (y + x)), ⟨2, some (.int (y + x)), ?_⟩, x, y + x, ?_,
        Store.get?_set_self ..⟩
      · simp only [Machine.evaluate, Machine.run, Machine.step, Machine.State.start, body, lower,
          lowerFrom, List.getElem?_toArray, List.getElem?_cons_zero, Expr.eval, hx, hy]
        rfl
      · rw [Store.get?_set_of_ne _ _ hapart, hx]
    · rintro σ x ⟨-, y, -, hy⟩
      exact ⟨x, y, Store.get?_set_self .., (Store.get?_set_of_ne _ _ hapart.symm).trans hy⟩
  have hfirst : first.Constant (.int (-1)) := Expr.constant_literal _
  have hlast : last.Constant (.int 1) := Expr.constant_literal _
  have hgreatest : greatest.Constant (.int Int64.maxValue) := Expr.constant_literal _
  have hstore : P (store.set i (.int (-1))) := ⟨-1, 5, by decide, by decide⟩
  exact ⟨hbody, (forLoop_counts hfirst hbody hstore hlast).1 (by decide),
    ((forLoop_counts hfirst hbody hstore hgreatest).2 rfl).1⟩

/-- A loop over the greatest word alone, with an empty body, executes the body a second time and
does not end. -/
theorem forLoop_over_greatest :
    let i : Variable := ⟨0, "i", .int, false⟩
    let greatest : Expr := .literal (.int Int64.maxValue)
    let program := (forLoop i greatest greatest (block [])).lower
    (block []).Steady (fun _ => True) i ∧ (∀ budget, evaluate budget program ∅ = none) ∧
      ∃ budget, Repeats program.toArray i (block []) Int64.maxValue.toInt 2 budget ∅ := by
  intro i greatest program
  have hbody : (block []).Steady (fun _ => True) i :=
    .of_assignsOnly trivial trivial List.not_mem_nil
      (fun σ _ => ⟨σ, ⟨1, none, rfl⟩, trivial⟩) fun _ _ _ => trivial
  have hgreatest : greatest.Constant (.int Int64.maxValue) := Expr.constant_literal _
  have hstore : (fun _ => True) ((∅ : Store).set i (.int Int64.maxValue)) := trivial
  obtain ⟨hnone, hrepeats⟩ := forLoop_endless hgreatest hbody hstore hgreatest
  exact ⟨hbody, hnone, hrepeats 2⟩

end Stmt

end Lumen.Bound
