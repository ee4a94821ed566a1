import Lumen.Proofs.Bound.Writes
import Lumen.Proofs.Tree.Scoping

/-!
# Places in bound trees

A path leads to a statement of a bound tree as it does in a syntax tree. Each declared variable has
its place, and if all variables of a tree are different, a variable has one place only.
-/

namespace Lumen.Bound.Stmt

def inner : Stmt → List Stmt
  | block body => body
  | ifThen _ s => [s]
  | ifElse _ s t => [s, t]
  | whileLoop _ s => [s]
  | forLoop _ _ _ s => [s]
  | _ => []

def at? : Path → Stmt → Option Stmt
  | [], t => some t
  | i :: p, t => t.inner[i]?.bind (at? p)

/-- The expressions of a statement that are not inside statements of it, in order. -/
def operands : Stmt → List Expr
  | declaration _ e => [e]
  | expression e => [e]
  | ifThen c _ => [c]
  | ifElse c _ _ => [c]
  | whileLoop c _ => [c]
  | forLoop _ lower upper _ => [lower, upper]
  | jumpIf _ c _ => [c]
  | _ => []

def own? : Stmt → Option Variable
  | declaration v _ => some v
  | forLoop v _ _ _ => some v
  | _ => none

def Declares (t : Stmt) (d : Path) (v : Variable) : Prop :=
  ∃ s, t.at? d = some s ∧ s.own? = some v

variable {t : Stmt} {i : Nat} {d d' : Path} {v w : Variable}

@[simp] theorem declares_nil : t.Declares [] v ↔ t.own? = some v := by
  simp [Declares, at?]

theorem declares_cons : t.Declares (i :: d) v ↔ ∃ c, t.inner[i]? = some c ∧ c.Declares d v := by
  constructor
  · rintro ⟨s, hs, hv⟩
    obtain ⟨c, hc, hs⟩ := Option.bind_eq_some_iff.mp hs
    exact ⟨c, hc, s, hs, hv⟩
  · rintro ⟨c, hc, s, hs, hv⟩
    exact ⟨s, Option.bind_eq_some_iff.mpr ⟨c, hc, hs⟩, hv⟩

theorem Declares.unique (hv : t.Declares d v) (hw : t.Declares d w) : v = w := by
  obtain ⟨s, hs, hv⟩ := hv
  obtain ⟨s', hs', hw⟩ := hw
  cases hs.symm.trans hs'
  exact Option.some.inj (hv.symm.trans hw)

theorem introduced_eq (t : Stmt) :
    t.introduced = t.own?.toList ++ t.inner.flatMap introduced := by
  cases t <;> simp [introduced, own?, inner]

theorem Declares.mem_introduced (h : t.Declares d v) : v ∈ t.introduced := by
  induction d generalizing t with
  | nil =>
    rw [introduced_eq, declares_nil.mp h]
    exact List.mem_append_left _ List.mem_cons_self
  | cons i d ih =>
    obtain ⟨c, hc, h⟩ := declares_cons.mp h
    rw [introduced_eq]
    exact List.mem_append_right _ (List.mem_flatMap.mpr ⟨c, List.mem_of_getElem? hc, ih h⟩)

/-- If all variables of a statement are different, a variable is declared at one place only. -/
theorem Declares.path_unique (hnodup : t.introduced.Nodup) (h : t.Declares d v)
    (h' : t.Declares d' v) : d = d' := by
  induction d generalizing t d' with
  | nil =>
    cases d' with
    | nil => rfl
    | cons j d' =>
      obtain ⟨c, hc, h'⟩ := declares_cons.mp h'
      rw [introduced_eq, declares_nil.mp h] at hnodup
      refine absurd ?_ (List.nodup_cons.mp hnodup).1
      exact List.mem_flatMap.mpr ⟨c, List.mem_of_getElem? hc, h'.mem_introduced⟩
  | cons i d ih =>
    obtain ⟨c, hc, h⟩ := declares_cons.mp h
    rw [introduced_eq] at hnodup
    obtain ⟨-, hinner, hapart⟩ := List.nodup_append.mp hnodup
    cases d' with
    | nil =>
      refine absurd rfl (hapart v ?_ v ?_)
      · rw [declares_nil.mp h']
        exact List.mem_cons_self
      · exact List.mem_flatMap.mpr ⟨c, List.mem_of_getElem? hc, h.mem_introduced⟩
    | cons j d' =>
      obtain ⟨c', hc', h'⟩ := declares_cons.mp h'
      obtain rfl : i = j := index_unique hinner hc hc' h.mem_introduced h'.mem_introduced
      cases hc.symm.trans hc'
      have hpart : c.introduced.Nodup := (List.nodup_flatMap.mp hinner).1 c (List.mem_of_getElem? hc)
      rw [ih hpart h h']

end Lumen.Bound.Stmt
