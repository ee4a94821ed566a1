import Lumen.Proofs.Tree.Placement
import Lumen.Tree.Node

/-!
# The spans of nodes nest

The span of a phrase is made of those of its first and its last part only. Its leaves are those of
all its parts, one behind the other. So where the leaves of a tree stand in order, every node runs
from its first leaf to its last one, whatever stands between them; it holds the spans of all nodes
below it, and the parts of a phrase stand one behind the other.
-/

namespace Lumen

namespace Rose

variable {α : Type}

@[simp] theorem value_node (a : α) (ts : List (Rose α)) : (node a ts).value = a := rfl

mutual

def leaves : Rose α → List α
  | node a [] => [a]
  | node _ (t :: ts) => t.leaves ++ leavesOfForest ts

def leavesOfForest : List (Rose α) → List α
  | [] => []
  | t :: ts => t.leaves ++ leavesOfForest ts

end

@[simp] theorem leavesOfForest_eq_flatMap (ts : List (Rose α)) :
    leavesOfForest ts = ts.flatMap leaves := by
  induction ts with
  | nil => rfl
  | cons t ts ih => rw [leavesOfForest, ih, List.flatMap_cons]

theorem leaves_node {a : α} {ts : List (Rose α)} (h : ts ≠ []) :
    (node a ts).leaves = ts.flatMap leaves := by
  cases ts with
  | nil => exact absurd rfl h
  | cons t ts => rw [leaves, leavesOfForest_eq_flatMap, List.flatMap_cons]

end Rose

@[simp] theorem Span.union_self (s : Span) : s.union s = s := by
  obtain ⟨start, length⟩ := s
  simp [Span.union, Span.between, Span.stop]

namespace Span.Covers

variable {a b : Span} {ts us : List Token}

theorem stop_le_start (ha : a.Covers ts) (hb : b.Covers us)
    (h : ∀ t ∈ ts, ∀ u ∈ us, t.stop ≤ u.start) : a.stop ≤ b.start := by
  obtain ⟨-, t, -, ht, -, hstop⟩ := ha
  obtain ⟨u, -, hu, -, hstart, -⟩ := hb
  rw [hstop, hstart]
  exact h t (List.mem_of_mem_getLast? ht) u (List.mem_of_mem_head? hu)

theorem within (hb : b.Covers us) (ha : a.Covers ts) (hsub : us ⊆ ts)
    (hordered : ts.Pairwise (·.stop ≤ ·.start)) : a.start ≤ b.start ∧ b.stop ≤ a.stop := by
  obtain ⟨first, last, hfirst, hlast, hstart, hstop⟩ := hb
  rw [hstart, hstop]
  exact ⟨(ha.mem hordered first (hsub (List.mem_of_mem_head? hfirst))).1,
    (ha.mem hordered last (hsub (List.mem_of_mem_getLast? hlast))).2⟩

end Span.Covers

namespace Tree

/-- Whether the phrases of a tree are made of their parts: they have parts, their leaves are those
of the parts, and their spans are those of the first and the last part together. -/
inductive Composed : Rose Node → Prop
  | token (t : Token) : Composed (leafOf t)
  | phrase {n : Node} {first last : Rose Node} {parts : List (Rose Node)} :
    parts.head? = some first → parts.getLast? = some last →
      n.span = first.value.span.union last.value.span →
        n.leaves = parts.flatMap (·.value.leaves) → (∀ t ∈ parts, Composed t) →
          Composed (.node n parts)

@[simp] theorem value_leafOf (t : Token) : (leafOf t).value = .token t := rfl

@[simp] theorem Expr.value_rose (e : Expr) : e.rose.value = .expr e := by
  cases e <;> rfl

@[simp] theorem Stmt.value_rose (s : Stmt) : s.rose.value = .stmt s := by
  cases s <;> rfl

attribute [local simp] Composed.token Node.span Node.leaves

theorem Expr.composed : ∀ e : Expr, Composed e.rose
  | .literal t => .phrase rfl rfl t.span.union_self.symm rfl (by simp)
  | .name t => .phrase rfl rfl t.span.union_self.symm rfl (by simp)
  | .unary op e => .phrase rfl rfl (by simp [span]) (by simp [leaves]) (by simp [e.composed])
  | .binary l op r =>
    .phrase rfl rfl (by simp [span]) (by simp [leaves]) (by simp [l.composed, r.composed])
  | .parenthesized o e c =>
    .phrase rfl rfl (by simp [span]) (by simp [leaves]) (by simp [e.composed])
  | .assignment x eq e =>
    .phrase rfl rfl (by simp [span]) (by simp [leaves]) (by simp [e.composed])

namespace Stmt

mutual

theorem composed : ∀ s : Stmt, Composed s.rose
  | block o body c => by
    have hlast : (leafOf o :: (roseOfList body ++ [leafOf c])).getLast? = some (leafOf c) := by
      rw [← List.cons_append, List.getLast?_concat]
    refine .phrase rfl hlast (by simp [span]) ?_ ?_
    · simp [leaves, List.flatMap_map]
    · have hbody := composed_of_mem body
      simpa [or_imp, forall_and] using hbody
  | declaration k x eq e =>
    .phrase rfl rfl (by simp [span]) (by simp [leaves]) (by simp [e.composed])
  | ifThen k e s =>
    .phrase rfl rfl (by simp [span]) (by simp [leaves]) (by simp [e.composed, composed s])
  | ifElse k e s el t => by
    have helse : Composed (.node (.elseClause el t) [leafOf el, t.rose]) :=
      .phrase rfl rfl (by simp) (by simp) (by simp [composed t])
    refine .phrase rfl rfl (by simp [span]) (by simp [leaves]) ?_
    simp [e.composed, composed s, helse]
  | whileLoop k e s =>
    .phrase rfl rfl (by simp [span]) (by simp [leaves]) (by simp [e.composed, composed s])
  | forLoop k x eq lo toKw hi s => by
    refine .phrase rfl rfl (by simp [span]) (by simp [leaves]) ?_
    simp [lo.composed, hi.composed, composed s]
  | expression e => .phrase rfl rfl (by simp [span]) (by simp [leaves]) (by simp [e.composed])

theorem composed_of_mem : ∀ body : List Stmt, ∀ s ∈ body, Composed s.rose
  | [] => List.forall_mem_nil _
  | s :: body => List.forall_mem_cons.mpr ⟨composed s, composed_of_mem body⟩

end

end Stmt

theorem Program.composed (p : Program) : Composed p.rose :=
  .phrase rfl rfl (by simp [span]) (by simp [leaves]) (by simp [p.statement.composed])

namespace Composed

variable {t u : Rose Node} {path : List Nat}

theorem leaves_eq (h : Composed t) : t.leaves = t.value.leaves.map Node.token := by
  induction h with
  | token t => rfl
  | @phrase n first last parts hfirst _ _ hleaves _ ih =>
    have hne : parts ≠ [] := by
      rintro rfl
      cases hfirst
    rw [Rose.leaves_node hne, Rose.value_node, hleaves, List.map_flatMap]
    exact List.flatMap_congr ih

theorem union_eq (h : Composed t) : t.children = [] ∨ ∃ first last,
    t.children.head? = some first ∧ t.children.getLast? = some last ∧
      t.value.span = first.value.span.union last.value.span := by
  cases h with
  | token t => exact .inl rfl
  | phrase hfirst hlast hspan _ _ => exact .inr ⟨_, _, hfirst, hlast, hspan⟩

theorem infix_flatMap_leaves {parts : List (Rose Node)} (h : t ∈ parts) :
    t.value.leaves <:+: parts.flatMap (·.value.leaves) := by
  rw [List.flatMap_def]
  exact List.infix_of_mem_flatten (List.mem_map_of_mem h)

/-- The trees below a tree are composed, too, and their leaves are some of its leaves. -/
theorem at_path (h : Composed t) (hu : t.follow? path = some u) :
    Composed u ∧ u.value.leaves <:+: t.value.leaves := by
  induction path generalizing t with
  | nil =>
    cases hu
    exact ⟨h, List.infix_rfl⟩
  | cons i path ih =>
    obtain ⟨v, hv, hbelow⟩ := Option.bind_eq_some_iff.mp hu
    have hmem := List.mem_of_getElem? hv
    cases h with
    | token t => cases hmem
    | phrase _ _ _ hleaves hparts =>
      obtain ⟨hu, hinfix⟩ := ih (hparts v hmem) hbelow
      refine ⟨hu, hinfix.trans ?_⟩
      rw [Rose.value_node, hleaves]
      exact infix_flatMap_leaves hmem

theorem covers (h : Composed t) (hordered : t.value.leaves.Pairwise (·.stop ≤ ·.start)) :
    t.value.span.Covers t.value.leaves := by
  induction h with
  | token t => exact .leaf t
  | @phrase _ first last parts hfirst hlast hspan hleaves _ ih =>
    rw [Rose.value_node] at hordered ⊢
    rw [hspan]
    rw [hleaves] at hordered ⊢
    have hparts (p : Rose Node) (hp : p ∈ parts) : p.value.span.Covers p.value.leaves :=
      ih p hp (hordered.sublist (infix_flatMap_leaves hp).sublist)
    -- the part at the one end is also the one at the other end if there is no other part
    obtain ⟨before, rfl⟩ := List.getLast?_eq_some_iff.mp hlast
    cases before with
    | nil =>
      cases hfirst
      simpa using hparts first
    | cons p mid =>
      cases hfirst
      have hleft := hparts first List.mem_cons_self
      have hright := hparts last (List.mem_append_right _ (List.mem_singleton.mpr rfl))
      rw [List.flatMap_append, List.flatMap_cons, List.flatMap_singleton] at hordered ⊢
      exact hleft.union _ hordered hright

theorem parts_ordered (h : Composed t) (hordered : t.value.leaves.Pairwise (·.stop ≤ ·.start)) :
    t.children.Pairwise (·.value.span.stop ≤ ·.value.span.start) := by
  cases h with
  | token t => exact .nil
  | @phrase n first last parts _ _ _ hleaves hparts =>
    rw [Rose.value_node, hleaves, List.pairwise_flatMap] at hordered
    obtain ⟨hinside, hacross⟩ := hordered
    refine List.Pairwise.imp_of_mem (fun {a b} ha hb hbefore => ?_) hacross
    exact ((hparts a ha).covers (hinside a ha)).stop_le_start
      ((hparts b hb).covers (hinside b hb)) hbefore

/-- Where the leaves stand in order, a node holds those below it. -/
theorem span_within (h : Composed t) (hordered : t.value.leaves.Pairwise (·.stop ≤ ·.start))
    (hu : t.follow? path = some u) :
    t.value.span.start ≤ u.value.span.start ∧ u.value.span.stop ≤ t.value.span.stop := by
  obtain ⟨hcomposed, hinfix⟩ := h.at_path hu
  have hbelow := hcomposed.covers (hordered.sublist hinfix.sublist)
  exact hbelow.within (h.covers hordered) hinfix.subset hordered

end Composed

end Tree

end Lumen
