import Lumen.Proofs.Bound.Labels
import Lumen.Proofs.Machine.Moments
import Mathlib.Data.List.Pairwise

/-!
# The variables that a statement writes

A statement writes the variables that it declares and the ones that it assigns; a loop over numbers
assigns its variable, too. Lowering adds no other assignment, and it keeps the declarations in their
order. So if all declared variables are different, then each has one declaration in the flat program.
-/

namespace Lumen.Bound

namespace Expr

def targets : Expr → List Variable
  | literal _ => []
  | .variable _ => []
  | assignment v e => e.targets ++ [v]
  | unary _ e => e.targets
  | binary l _ r => l.targets ++ r.targets

theorem mem_targets_of_write : ∀ {e : Expr} {s : Store} {m : Moment} {v : Variable} {x : Value},
    m ∈ e.moments s → m.access = .write v x → v ∈ e.targets
  | .literal _, _, _, _, _, hm, _ => nomatch hm
  | .variable _, _, _, _, _, hm, hwrite => by
    cases List.mem_singleton.mp hm
    cases hwrite
  | .assignment w e, s, m, v, x, hm, hwrite => by
    rcases List.mem_append.mp hm with hm | hm
    · exact List.mem_append_left _ (mem_targets_of_write hm hwrite)
    · cases heval : e.eval s with
      | fault f s' =>
        rw [heval] at hm
        cases hm
      | done y s' =>
        rw [heval] at hm
        cases List.mem_singleton.mp hm
        cases hwrite
        exact List.mem_append_right _ List.mem_cons_self
  | .unary _ e, _, _, _, _, hm, hwrite => mem_targets_of_write (e := e) hm hwrite
  | .binary l op r, s, m, v, x, hm, hwrite => by
    rcases List.mem_append.mp hm with hm | hm
    · exact List.mem_append_left _ (mem_targets_of_write hm hwrite)
    · cases heval : l.eval s with
      | fault f s' =>
        rw [heval] at hm
        cases hm
      | done y s' =>
        rw [heval] at hm
        exact List.mem_append_right _ (mem_targets_of_write hm hwrite)

end Expr

namespace Stmt

mutual

/-- The variables that a statement declares, those inside it included. -/
def introduced : Stmt → List Variable
  | block body => introducedOfList body
  | declaration v _ => [v]
  | ifThen _ s => s.introduced
  | ifElse _ s t => s.introduced ++ t.introduced
  | whileLoop _ s => s.introduced
  | forLoop v _ _ s => v :: s.introduced
  | _ => []

def introducedOfList : List Stmt → List Variable
  | [] => []
  | s :: ss => s.introduced ++ introducedOfList ss

end

@[simp] theorem introducedOfList_eq_flatMap (ss : List Stmt) :
    introducedOfList ss = ss.flatMap introduced := by
  induction ss with
  | nil => rfl
  | cons s ss ih => rw [introducedOfList, ih, List.flatMap_cons]

mutual

def AssignsOnly (P : Variable → Prop) : Stmt → Prop
  | block body => AssignsOnlyList P body
  | declaration _ e => ∀ v ∈ e.targets, P v
  | expression e => ∀ v ∈ e.targets, P v
  | ifThen c s => (∀ v ∈ c.targets, P v) ∧ s.AssignsOnly P
  | ifElse c s t => (∀ v ∈ c.targets, P v) ∧ s.AssignsOnly P ∧ t.AssignsOnly P
  | whileLoop c s => (∀ v ∈ c.targets, P v) ∧ s.AssignsOnly P
  | forLoop v lower upper s =>
    P v ∧ (∀ w ∈ lower.targets, P w) ∧ (∀ w ∈ upper.targets, P w) ∧ s.AssignsOnly P
  | jump _ => True
  | jumpIf _ c _ => ∀ v ∈ c.targets, P v
  | label _ => True

def AssignsOnlyList (P : Variable → Prop) : List Stmt → Prop
  | [] => True
  | s :: ss => s.AssignsOnly P ∧ AssignsOnlyList P ss

end

def Flat : Stmt → Prop
  | declaration .. | expression _ | jump _ | jumpIf .. | label _ => True
  | _ => False

variable {P : Variable → Prop}

theorem AssignsOnly.operand {t : Stmt} {e : Expr} (ht : t.AssignsOnly P)
    (he : t.operand? = some e) : ∀ v ∈ e.targets, P v := by
  cases t <;> cases he <;> exact ht

theorem eq_declaration_of_flat {t : Stmt} {v : Variable} (ht : t.Flat) (hv : v ∈ t.introduced) :
    ∃ e, t = declaration v e := by
  cases t with
  | declaration w e =>
    cases List.mem_singleton.mp hv
    exact ⟨e, rfl⟩
  | expression e => cases hv
  | jump l => cases hv
  | jumpIf l c onFalse => cases hv
  | label l => cases hv
  | _ => exact ht.elim

theorem loop_assignsOnly {c : Expr} {body : List Stmt} (k : Nat) (hc : ∀ v ∈ c.targets, P v)
    (hbody : ∀ t ∈ body, t.AssignsOnly P) : ∀ t ∈ loop k c body, t.AssignsOnly P := by
  simp only [loop, List.forall_mem_cons, List.forall_mem_append]
  exact ⟨trivial, trivial, hbody, trivial, hc, trivial, List.forall_mem_nil _⟩

mutual

theorem lowerFrom_assignsOnly : ∀ {s : Stmt} (k : Nat), s.AssignsOnly P →
    ∀ t ∈ s.lowerFrom k, t.AssignsOnly P
  | block body, k, h => lowerList_assignsOnly k h
  | declaration v e, k, h => List.forall_mem_singleton.mpr h
  | expression e, k, h => List.forall_mem_singleton.mpr h
  | ifThen c s, k, ⟨hc, hs⟩ => by
    simp only [lowerFrom, List.forall_mem_cons, List.forall_mem_append]
    exact ⟨hc, lowerFrom_assignsOnly (k + 1) hs, trivial, List.forall_mem_nil _⟩
  | ifElse c s t, k, ⟨hc, hs, ht⟩ => by
    simp only [lowerFrom, List.forall_mem_cons, List.forall_mem_append]
    exact ⟨hc, lowerFrom_assignsOnly (k + 2) hs, trivial, trivial,
      lowerFrom_assignsOnly (k + 2 + s.labelCount) ht, trivial, List.forall_mem_nil _⟩
  | whileLoop c s, k, ⟨hc, hs⟩ => loop_assignsOnly k hc (lowerFrom_assignsOnly (k + 3) hs)
  | forLoop v lower upper s, k, ⟨hv, hlower, hupper, hs⟩ => by
    have hstep : (increment v).AssignsOnly P := List.forall_mem_singleton.mpr hv
    refine List.forall_mem_cons.mpr ⟨hlower, loop_assignsOnly k hupper ?_⟩
    exact List.forall_mem_append.mpr
      ⟨lowerFrom_assignsOnly (k + 3) hs, List.forall_mem_singleton.mpr hstep⟩
  | jump l, k, h => List.forall_mem_singleton.mpr h
  | jumpIf l c onFalse, k, h => List.forall_mem_singleton.mpr h
  | label l, k, h => List.forall_mem_singleton.mpr h

theorem lowerList_assignsOnly : ∀ {ss : List Stmt} (k : Nat), AssignsOnlyList P ss →
    ∀ t ∈ lowerList k ss, t.AssignsOnly P
  | [], _, _ => List.forall_mem_nil _
  | s :: _, k, ⟨hs, hss⟩ =>
    List.forall_mem_append.mpr
      ⟨lowerFrom_assignsOnly k hs, lowerList_assignsOnly (k + s.labelCount) hss⟩

end

theorem flat_loop {body : List Stmt} (k : Nat) (c : Expr) (hbody : ∀ t ∈ body, t.Flat) :
    ∀ t ∈ loop k c body, t.Flat := by
  simp only [loop, List.forall_mem_cons, List.forall_mem_append]
  exact ⟨trivial, trivial, hbody, trivial, trivial, trivial, List.forall_mem_nil _⟩

mutual

theorem flat_lowerFrom : ∀ (s : Stmt) (k : Nat), ∀ t ∈ s.lowerFrom k, t.Flat
  | block body, k => flat_lowerList body k
  | declaration .., _ => List.forall_mem_singleton.mpr trivial
  | expression _, _ => List.forall_mem_singleton.mpr trivial
  | ifThen c s, k => by
    simp only [lowerFrom, List.forall_mem_cons, List.forall_mem_append]
    exact ⟨trivial, flat_lowerFrom s (k + 1), trivial, List.forall_mem_nil _⟩
  | ifElse c s t, k => by
    simp only [lowerFrom, List.forall_mem_cons, List.forall_mem_append]
    exact ⟨trivial, flat_lowerFrom s (k + 2), trivial, trivial,
      flat_lowerFrom t (k + 2 + s.labelCount), trivial, List.forall_mem_nil _⟩
  | whileLoop c s, k => flat_loop k c (flat_lowerFrom s (k + 3))
  | forLoop v lower upper s, k => by
    refine List.forall_mem_cons.mpr ⟨trivial, flat_loop k (withinBound v upper) ?_⟩
    exact List.forall_mem_append.mpr
      ⟨flat_lowerFrom s (k + 3), List.forall_mem_singleton.mpr trivial⟩
  | jump _, _ => List.forall_mem_singleton.mpr trivial
  | jumpIf .., _ => List.forall_mem_singleton.mpr trivial
  | label _, _ => List.forall_mem_singleton.mpr trivial

theorem flat_lowerList : ∀ (ss : List Stmt) (k : Nat), ∀ t ∈ lowerList k ss, t.Flat
  | [], _ => List.forall_mem_nil _
  | s :: ss, k =>
    List.forall_mem_append.mpr ⟨flat_lowerFrom s k, flat_lowerList ss (k + s.labelCount)⟩

end

theorem introduced_loop (k : Nat) (c : Expr) (body : List Stmt) :
    (loop k c body).flatMap introduced = body.flatMap introduced := by
  simp [loop, introduced]

mutual

theorem introduced_lowerFrom : ∀ (s : Stmt) (k : Nat),
    (s.lowerFrom k).flatMap introduced = s.introduced
  | block body, k => by
    rw [lowerFrom, introduced, introduced_lowerList body k]
  | declaration .., _ => rfl
  | expression _, _ => rfl
  | ifThen c s, k => by
    simp [lowerFrom, introduced, introduced_lowerFrom s (k + 1)]
  | ifElse c s t, k => by
    simp [lowerFrom, introduced, introduced_lowerFrom s (k + 2),
      introduced_lowerFrom t (k + 2 + s.labelCount)]
  | whileLoop c s, k => by
    rw [lowerFrom, introduced_loop, introduced, introduced_lowerFrom s (k + 3)]
  | forLoop v lower upper s, k => by
    simp [lowerFrom, introduced, introduced_loop, introduced_lowerFrom s (k + 3), increment]
  | jump _, _ => rfl
  | jumpIf .., _ => rfl
  | label _, _ => rfl

theorem introduced_lowerList : ∀ (ss : List Stmt) (k : Nat),
    (lowerList k ss).flatMap introduced = introducedOfList ss
  | [], _ => rfl
  | s :: ss, k => by
    rw [lowerList, List.flatMap_append, introduced_lowerFrom s k,
      introduced_lowerList ss (k + s.labelCount), introducedOfList]

end

/-- If all variables that statements declare are different, one of them alone declares a given
one. -/
theorem index_unique {ss : List Stmt} {t u : Stmt} {i j : Nat} {v : Variable}
    (hss : (ss.flatMap introduced).Nodup) (hi : ss[i]? = some t) (hj : ss[j]? = some u)
    (ht : v ∈ t.introduced) (hu : v ∈ u.introduced) : i = j := by
  obtain ⟨-, hdisjoint⟩ := List.nodup_flatMap.mp hss
  have hpairs := List.pairwise_iff_getElem.mp hdisjoint
  obtain ⟨hilt, rfl⟩ := List.getElem?_eq_some_iff.mp hi
  obtain ⟨hjlt, rfl⟩ := List.getElem?_eq_some_iff.mp hj
  rcases Nat.lt_trichotomy i j with hlt | heq | hlt
  · exact absurd hu (hpairs i j hilt hjlt hlt ht)
  · exact heq
  · exact absurd ht (hpairs j i hjlt hilt hlt hu)

/-- A variable that a statement declares has one declaration in the flat form of the statement, if
all its variables are different. -/
theorem existsUnique_declaration {s : Stmt} {v : Variable} (hs : s.introduced.Nodup)
    (hv : v ∈ s.introduced) : ∃! i : Nat, ∃ e, s.lower[i]? = some (declaration v e) := by
  rw [← introduced_lowerFrom s 0] at hs hv
  obtain ⟨t, ht, hvt⟩ := List.mem_flatMap.mp hv
  obtain ⟨i, hi⟩ := List.mem_iff_getElem?.mp ht
  obtain ⟨e, rfl⟩ := eq_declaration_of_flat (flat_lowerFrom s 0 t ht) hvt
  refine ⟨i, ⟨e, hi⟩, ?_⟩
  rintro j ⟨e', hj⟩
  exact index_unique hs hj hi List.mem_cons_self hvt

end Stmt

end Lumen.Bound
