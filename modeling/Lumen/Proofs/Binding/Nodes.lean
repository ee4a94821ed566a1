import Lumen.Bound.Node
import Lumen.Proofs.Binding.Typing
import Lumen.Proofs.Rose.Rows
import Lumen.Source
import Lumen.Text.Identifier.Table

/-!
# Recovered trees are well typed inside

A statement is well typed exactly if every node of its tree is, so typing can be read off node by
node. Whatever is wrong with a syntax tree, every operator, assignment and declaration of its bound
tree fits its operands; without complaints conditions and bounds have their types as well, and the
nodes of the flat program too, among them the comparisons and sums that loops are lowered to.
-/

namespace Lumen

namespace Bound

/-- Whether a node fits its parts: its operator is in the tables and is for operands of their types,
and its variable is of the type of what is stored in it. -/
@[simp] def Node.Fits : Node → Prop
  | .expr (.unary op e) => op ∈ UnaryOperator.table ∧ e.type = op.operand
  | .expr (.binary l op r) => op ∈ BinaryOperator.table ∧ l.type = op.left ∧ r.type = op.right
  | .expr (.assignment v e) => e.type = v.type
  | .stmt (.declaration v e) => e.type = v.type
  | .stmt (.forLoop v _ _ _) => v.type = .int
  | _ => True

/-- Whether the conditions and bounds of a node are of the types that they are to have. -/
@[simp] def Node.Decides : Node → Prop
  | .stmt (.ifThen c _) => c.type = .bool
  | .stmt (.ifElse c _ _) => c.type = .bool
  | .stmt (.whileLoop c _) => c.type = .bool
  | .stmt (.forLoop _ lower upper _) => lower.type = .int ∧ upper.type = .int
  | .stmt (.jumpIf _ c _) => c.type = .bool
  | _ => True

@[simp] def Node.WellTyped (checked : Prop) (n : Node) : Prop := n.Fits ∧ (checked → n.Decides)

theorem Expr.wellTyped_iff (checked : Prop) :
    ∀ e : Expr, e.WellTyped ↔ e.rose.All (Node.WellTyped checked)
  | .literal _ => by simp [rose, WellTyped]
  | .variable _ => by simp [rose, WellTyped]
  | .assignment v e => by simp [rose, WellTyped, wellTyped_iff checked e]
  | .unary op e => by simp [rose, WellTyped, wellTyped_iff checked e, and_assoc]
  | .binary l op r => by
    simp [rose, WellTyped, wellTyped_iff checked l, wellTyped_iff checked r, and_assoc]

namespace Stmt

variable {checked : Prop}

mutual

theorem wellTyped_iff : ∀ s : Stmt, s.WellTyped checked ↔ s.rose.All (Node.WellTyped checked)
  | block body => by simp [rose, WellTyped, wellTypedList_iff body]
  | declaration v e => by simp [rose, WellTyped, Expr.wellTyped_iff checked e, and_comm]
  | expression e => by simp [rose, WellTyped, Expr.wellTyped_iff checked e]
  | ifThen c t => by
    simp [rose, WellTyped, Expr.wellTyped_iff checked c, wellTyped_iff t, and_left_comm]
  | ifElse c t u => by
    simp [rose, WellTyped, Expr.wellTyped_iff checked c, wellTyped_iff t, wellTyped_iff u,
      and_left_comm]
  | whileLoop c t => by
    simp [rose, WellTyped, Expr.wellTyped_iff checked c, wellTyped_iff t, and_left_comm]
  | forLoop v lower upper t => by
    rw [WellTyped, Expr.wellTyped_iff checked lower, Expr.wellTyped_iff checked upper,
      wellTyped_iff t, rose]
    simp only [Rose.all_node, Node.WellTyped, Node.Fits, Node.Decides, List.forall_mem_cons]
    constructor
    · rintro ⟨hv, hlower, hloInt, hupper, hhiInt, ht⟩
      exact ⟨⟨hv, fun h => ⟨hloInt h, hhiInt h⟩⟩, hlower, hupper, ht, List.forall_mem_nil _⟩
    · rintro ⟨⟨hv, hbounds⟩, hlower, hupper, ht, -⟩
      exact ⟨hv, hlower, fun h => (hbounds h).1, hupper, fun h => (hbounds h).2, ht⟩
  | jump _ => by simp [rose, WellTyped]
  | jumpIf l c onFalse => by simp [rose, WellTyped, Expr.wellTyped_iff checked c, and_comm]
  | label _ => by simp [rose, WellTyped]

theorem wellTypedList_iff : ∀ ss : List Stmt,
    WellTypedList checked ss ↔ ∀ s ∈ ss, s.rose.All (Node.WellTyped checked)
  | [] => by simp [WellTypedList]
  | s :: ss => by simp [WellTypedList, wellTyped_iff s, wellTypedList_iff ss]

end

end Stmt

end Bound

namespace Binding

open Lumen.Bound (Node)

/-- Whatever is wrong with a statement, every node of its bound tree fits; without complaints the
nodes decide as well, and so do those of the flat program. -/
theorem nodes_fit (s : State) (t : Tree.Stmt) :
    (stmt s t).phrase.rose.All Node.Fits ∧
      ((stmt s t).faults = [] → (stmt s t).phrase.rose.All Node.Decides ∧
        ∀ u ∈ (stmt s t).phrase.lower, u.rose.All Node.Fits ∧ u.rose.All Node.Decides) := by
  have hnodes : ∀ n : Node, n.WellTyped True → n.Fits ∧ n.Decides :=
    fun n hn => ⟨hn.1, hn.2 trivial⟩
  have hfits := Bound.Stmt.wellTyped_iff _ |>.mp (stmt_wellTyped s t False.elim)
  refine ⟨hfits.imp fun n hn => hn.1, fun hclean => ?_⟩
  have htyped := stmt_wellTyped s t fun _ : True => hclean
  have hall := (Bound.Stmt.wellTyped_iff _).mp htyped
  refine ⟨hall.imp fun n hn => (hnodes n hn).2, fun u hu => ?_⟩
  have hu := (Bound.Stmt.wellTyped_iff u).mp (Bound.Stmt.lowerFrom_wellTyped 0 htyped u hu)
  exact ⟨hu.imp fun n hn => (hnodes n hn).1, hu.imp fun n hn => (hnodes n hn).2⟩

open scoped Xid in
/-- A loop up to a variable of an earlier submission, which a branch in the loop assigns to. -/
theorem nodes_fit_of_branch_in_loop :
    let s : State := ⟨.inside [[⟨0, "n", .int, false⟩]], 1⟩
    let t := (Source.parse "for i = 1 to n if i < 2 n = i".toList).program.statement
    (stmt s t).faults = [] ∧ (stmt s t).phrase.lower.length = 10 ∧
      (stmt s t).phrase.rose.All Node.Fits ∧ (stmt s t).phrase.rose.All Node.Decides ∧
        ∀ u ∈ (stmt s t).phrase.lower, u.rose.All Node.Fits ∧ u.rose.All Node.Decides := by
  intro s t
  have hclean : (stmt s t).faults = [] := by decide +kernel
  obtain ⟨hfits, hdecides⟩ := nodes_fit s t
  exact ⟨hclean, by decide +kernel, hfits, hdecides hclean⟩

end Binding

end Lumen
