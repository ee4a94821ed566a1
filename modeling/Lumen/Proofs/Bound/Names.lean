import Lumen.Bound.Node
import Lumen.Proofs.Bound.Assignment
import Lumen.Proofs.Rose.Rows

/-!
# The names in bound trees

The names of a bound tree are those of its variables and labels. Lowering adds no name but those of
numbered labels.
-/

namespace Lumen.Bound

variable {N : String → Prop}

/-- Whether something holds of the name of the variable or label that a node holds, if any. -/
@[simp] def Node.Named (N : String → Prop) : Node → Prop
  | .expr (.variable v) => N v.name
  | .expr (.assignment v _) => N v.name
  | .stmt (.declaration v _) => N v.name
  | .stmt (.forLoop v _ _ _) => N v.name
  | .stmt (.jump l) => N l.name
  | .stmt (.jumpIf l _ _) => N l.name
  | .stmt (.label l) => N l.name
  | _ => True

namespace Stmt

theorem named_of_declared : ∀ {s : Stmt} {v : Variable}, s.rose.All (Node.Named N) →
    v ∈ s.declared → N v.name
  | declaration w e, v, h, hv => by
    simp only [rose, Rose.all_node, Node.Named] at h
    cases List.mem_singleton.mp hv
    exact h.1
  | ifThen c t, v, h, hv => by
    simp only [rose, Rose.all_node, List.forall_mem_cons] at h
    exact named_of_declared h.2.2.1 hv
  | ifElse c t u, v, h, hv => by
    simp only [rose, Rose.all_node, List.forall_mem_cons] at h
    rcases List.mem_append.mp hv with hv | hv
    · exact named_of_declared h.2.2.1 hv
    · exact named_of_declared h.2.2.2.1 hv
  | whileLoop c t, v, h, hv => by
    simp only [rose, Rose.all_node, List.forall_mem_cons] at h
    exact named_of_declared h.2.2.1 hv
  | block _, _, _, hv => nomatch hv
  | expression _, _, _, hv => nomatch hv
  | forLoop .., _, _, hv => nomatch hv
  | jump _, _, _, hv => nomatch hv
  | jumpIf .., _, _, hv => nomatch hv
  | label _, _, _, hv => nomatch hv

theorem loop_named (hlabels : ∀ n, N (numbered n).name) {c : Expr} {body : List Stmt} (k : Nat)
    (hc : c.rose.All (Node.Named N)) (hbody : ∀ t ∈ body, t.rose.All (Node.Named N)) :
    ∀ t ∈ loop k c body, t.rose.All (Node.Named N) := by
  simp only [loop, List.forall_mem_cons, List.forall_mem_append]
  simp [rose, hlabels, hc]
  exact hbody

mutual

theorem lowerFrom_named (hlabels : ∀ n, N (numbered n).name) : ∀ {s : Stmt} (k : Nat),
    s.rose.All (Node.Named N) → ∀ t ∈ s.lowerFrom k, t.rose.All (Node.Named N)
  | block body, k, h => by
    simp only [rose, Rose.all_node, roseOfList_eq_map, List.forall_mem_map] at h
    exact lowerList_named hlabels k h.2
  | declaration v e, k, h => List.forall_mem_singleton.mpr h
  | expression e, k, h => List.forall_mem_singleton.mpr h
  | ifThen c s, k, h => by
    simp only [rose, Rose.all_node, List.forall_mem_cons] at h
    obtain ⟨-, hc, hs, -⟩ := h
    simp only [lowerFrom, List.forall_mem_cons, List.forall_mem_append]
    exact ⟨by simp [rose, hlabels, hc], lowerFrom_named hlabels _ hs, by simp [rose, hlabels],
      List.forall_mem_nil _⟩
  | ifElse c s t, k, h => by
    simp only [rose, Rose.all_node, List.forall_mem_cons] at h
    obtain ⟨-, hc, hs, ht, -⟩ := h
    simp only [lowerFrom, List.forall_mem_cons, List.forall_mem_append]
    exact ⟨by simp [rose, hlabels, hc], lowerFrom_named hlabels _ hs, by simp [rose, hlabels],
      by simp [rose, hlabels], lowerFrom_named hlabels _ ht, by simp [rose, hlabels],
      List.forall_mem_nil _⟩
  | whileLoop c s, k, h => by
    simp only [rose, Rose.all_node, List.forall_mem_cons] at h
    obtain ⟨-, hc, hs, -⟩ := h
    exact loop_named hlabels k hc (lowerFrom_named hlabels _ hs)
  | forLoop v lower upper s, k, h => by
    simp only [rose, Rose.all_node, List.forall_mem_cons, Node.Named] at h
    obtain ⟨hv, hlower, hupper, hs, -⟩ := h
    have hcondition : (withinBound v upper).rose.All (Node.Named N) := by
      simp [withinBound, Expr.rose, hv, hupper]
    have hstep : (increment v).rose.All (Node.Named N) := by
      simp [increment, rose, Expr.rose, hv]
    refine List.forall_mem_cons.mpr ⟨by simp [rose, hv, hlower], loop_named hlabels k hcondition ?_⟩
    exact List.forall_mem_append.mpr
      ⟨lowerFrom_named hlabels _ hs, List.forall_mem_singleton.mpr hstep⟩
  | jump l, k, h => List.forall_mem_singleton.mpr h
  | jumpIf l c onFalse, k, h => List.forall_mem_singleton.mpr h
  | label l, k, h => List.forall_mem_singleton.mpr h

theorem lowerList_named (hlabels : ∀ n, N (numbered n).name) : ∀ {ss : List Stmt} (k : Nat),
    (∀ s ∈ ss, s.rose.All (Node.Named N)) → ∀ t ∈ lowerList k ss, t.rose.All (Node.Named N)
  | [], _, _ => List.forall_mem_nil _
  | s :: ss, k, h => by
    obtain ⟨hs, hss⟩ := List.forall_mem_cons.mp h
    exact List.forall_mem_append.mpr
      ⟨lowerFrom_named hlabels k hs, lowerList_named hlabels _ hss⟩

end

end Stmt

end Lumen.Bound
