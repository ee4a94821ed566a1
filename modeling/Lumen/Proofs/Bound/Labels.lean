import Lumen.Bound.Lower
import Mathlib.Data.List.Nodup

/-!
# Labels of lowered code

A structured statement has neither labels nor jumps of its own. Its flat form behind `k` labels has
the labels numbered from `k + 1` on, as many as the statement is given, and each of them once.
-/

namespace Lumen.Bound

theorem numbered_injective : Function.Injective numbered := by
  intro m n h
  have htext : "Label" ++ toString m = "Label" ++ toString n := by simpa [numbered] using h
  have hrepr : m.repr = n.repr := (String.append_right_inj _).mp htext
  have hdigits : Nat.toDigits 10 m = Nat.toDigits 10 n := by
    rw [← Nat.toList_repr, ← Nat.toList_repr, hrepr]
  rw [← Nat.ofDigitChars_ten_toDigits (n := m), hdigits, Nat.ofDigitChars_ten_toDigits]

namespace Stmt

mutual

/-- Whether a statement has no labels and jumps, also inside. -/
def Structured : Stmt → Prop
  | block body => StructuredList body
  | ifThen _ s => s.Structured
  | ifElse _ s t => s.Structured ∧ t.Structured
  | whileLoop _ s => s.Structured
  | forLoop _ _ _ s => s.Structured
  | declaration .. => True
  | expression _ => True
  | jump _ => False
  | jumpIf .. => False
  | label _ => False

def StructuredList : List Stmt → Prop
  | [] => True
  | s :: ss => s.Structured ∧ StructuredList ss

end

def label? : Stmt → Option Label
  | label l => some l
  | _ => none

def labels (program : List Stmt) : List Label := program.filterMap label?

@[simp] theorem labels_nil : labels [] = [] := rfl

@[simp] theorem labels_append (a b : List Stmt) : labels (a ++ b) = labels a ++ labels b :=
  List.filterMap_append

@[simp] theorem labels_cons_label (l : Label) (ss : List Stmt) :
    labels (label l :: ss) = l :: labels ss := rfl

@[simp] theorem labels_cons_jump (l : Label) (ss : List Stmt) :
    labels (jump l :: ss) = labels ss := rfl

@[simp] theorem labels_cons_jumpIf (l : Label) (c : Expr) (onFalse : Bool) (ss : List Stmt) :
    labels (jumpIf l c onFalse :: ss) = labels ss := rfl

@[simp] theorem labels_cons_declaration (v : Variable) (e : Expr) (ss : List Stmt) :
    labels (declaration v e :: ss) = labels ss := rfl

@[simp] theorem labels_cons_expression (e : Expr) (ss : List Stmt) :
    labels (expression e :: ss) = labels ss := rfl

/-- The labels with the numbers behind `k`, `n` of them. -/
def labelsBehind (k n : Nat) : List Label := (List.range' (k + 1) n).map numbered

theorem labelsBehind_add (k m n : Nat) :
    labelsBehind k (m + n) = labelsBehind k m ++ labelsBehind (k + m) n := by
  rw [labelsBehind, labelsBehind, labelsBehind, ← List.map_append, Nat.add_right_comm,
    List.range'_append_1]

@[simp] theorem labelsBehind_one (k : Nat) : labelsBehind k 1 = [numbered (k + 1)] := rfl

@[simp] theorem labelsBehind_two (k : Nat) :
    labelsBehind k 2 = [numbered (k + 1), numbered (k + 2)] := rfl

@[simp] theorem labelsBehind_three (k : Nat) :
    labelsBehind k 3 = [numbered (k + 1), numbered (k + 2), numbered (k + 3)] := rfl

theorem nodup_labelsBehind (k n : Nat) : (labelsBehind k n).Nodup :=
  List.Nodup.map numbered_injective List.nodup_range'

theorem labels_loop_perm {k n : Nat} {body : List Stmt} (c : Expr)
    (h : (labels body).Perm (labelsBehind (k + 3) n)) :
    (labels (loop k c body)).Perm (labelsBehind k (3 + n)) := by
  rw [labelsBehind_add, List.perm_iff_count]
  intro l
  simp only [loop, labels_cons_jump, labels_cons_label, labels_append, labels_cons_jumpIf,
    labels_nil, labelsBehind_three, List.count_append, List.count_cons, List.count_nil,
    h.count_eq l]
  omega

mutual

/-- Lowering sets exactly the labels that a statement is given, each once. -/
theorem labels_lowerFrom_perm : ∀ {s : Stmt} (k : Nat), s.Structured →
    (labels (s.lowerFrom k)).Perm (labelsBehind k s.labelCount)
  | block body, k, h => labels_lowerList_perm k h
  | declaration .., _, _ => .refl _
  | expression _, _, _ => .refl _
  | ifThen _ s, k, h => by
    simp only [lowerFrom, labelCount, labels_cons_jumpIf, labels_append, labels_cons_label,
      labels_nil, labelsBehind_add, labelsBehind_one]
    exact List.perm_append_comm.trans ((labels_lowerFrom_perm (s := s) (k + 1) h).append_left _)
  | ifElse _ s t, k, h => by
    have hs := labels_lowerFrom_perm (k + 2) h.1
    have ht := labels_lowerFrom_perm (k + 2 + s.labelCount) h.2
    simp only [lowerFrom, labelCount, labels_cons_jumpIf, labels_cons_jump, labels_append,
      labels_cons_label, labels_nil, labelsBehind_add, labelsBehind_two, ← Nat.add_assoc]
    rw [List.perm_iff_count]
    intro l
    simp only [List.count_append, List.count_cons, List.count_nil, hs.count_eq l, ht.count_eq l]
    omega
  | whileLoop c s, k, h => labels_loop_perm c (labels_lowerFrom_perm (s := s) (k + 3) h)
  | forLoop v _ hi s, k, h => by
    refine labels_loop_perm (withinBound v hi) ?_
    simpa [increment] using labels_lowerFrom_perm (s := s) (k + 3) h
  | jump _, _, h => h.elim
  | jumpIf .., _, h => h.elim
  | label _, _, h => h.elim

theorem labels_lowerList_perm : ∀ {ss : List Stmt} (k : Nat), StructuredList ss →
    (labels (lowerList k ss)).Perm (labelsBehind k (labelCountOfList ss))
  | [], _, _ => .refl _
  | s :: ss, k, h => by
    simp only [lowerList, labelCountOfList, labels_append, labelsBehind_add]
    exact (labels_lowerFrom_perm k h.1).append (labels_lowerList_perm (k + s.labelCount) h.2)

end

theorem nodup_labels_lowerFrom {s : Stmt} (k : Nat) (h : s.Structured) :
    (labels (s.lowerFrom k)).Nodup :=
  (labels_lowerFrom_perm k h).nodup_iff.mpr (nodup_labelsBehind k _)

end Stmt

end Lumen.Bound
