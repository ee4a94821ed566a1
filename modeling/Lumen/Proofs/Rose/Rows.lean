import Lumen.Rose

/-!
# Rows of ordered trees

The values of a tree, each before those below it, do not depend on the depth from which rows are
counted. The values with their depths determine the tree: the rows below a node are the ones behind
it that are deeper, up to the first one that is not.
-/

namespace Lumen.Rose

variable {α : Type} {P : α → Prop}

mutual

theorem map_value_rows (m n : Nat) : ∀ t : Rose α,
    (t.rows m).map Row.value = (t.rows n).map Row.value
  | node a ts => by
    rw [rows, rows, List.map_cons, List.map_cons, map_value_forestRows (m + 1) (n + 1) ts]

theorem map_value_forestRows (m n : Nat) : ∀ ts : List (Rose α),
    (forestRows m ts).map Row.value = (forestRows n ts).map Row.value
  | [] => rfl
  | t :: ts => by
    rw [forestRows, forestRows, List.map_append, List.map_append, map_value_rows m n t,
      map_value_forestRows m n ts]

end

def All (P : α → Prop) (t : Rose α) : Prop := ∀ row ∈ t.rows 0, P row.value

theorem all_iff_rows (n : Nat) (t : Rose α) : t.All P ↔ ∀ row ∈ t.rows n, P row.value := by
  have hmap (m : Nat) : (∀ row ∈ t.rows m, P row.value) ↔ ∀ a ∈ (t.rows m).map Row.value, P a :=
    List.forall_mem_map.symm
  rw [All, hmap 0, hmap n, map_value_rows 0 n]

@[simp] theorem all_node {a : α} {ts : List (Rose α)} :
    (node a ts).All P ↔ P a ∧ ∀ t ∈ ts, t.All P := by
  rw [All, rows, forestRows_eq_flatMap, List.forall_mem_cons, List.forall_mem_flatMap]
  exact and_congr_right fun _ => forall₂_congr fun t _ => (all_iff_rows 1 t).symm

@[simp] theorem all_leaf {a : α} : (leaf a).All P ↔ P a := by
  simp [leaf]

theorem All.imp {Q : α → Prop} {t : Rose α} (h : ∀ a, P a → Q a) (ht : t.All P) : t.All Q :=
  fun row hrow => h _ (ht row hrow)

mutual

theorem all_map {β : Type} {f : β → α} : ∀ {t : Rose β}, (t.map f).All P ↔ t.All fun b => P (f b)
  | node b ts => by
    rw [map, mapForest_eq_map, all_node, all_node, forall_mem_map_all]

theorem forall_mem_map_all {β : Type} {f : β → α} : ∀ {ts : List (Rose β)},
    (∀ t ∈ List.map (Rose.map f) ts, t.All P) ↔ ∀ t ∈ ts, t.All fun b => P (f b)
  | [] => by simp
  | t :: ts => by
    rw [List.map_cons, List.forall_mem_cons, List.forall_mem_cons, all_map, forall_mem_map_all]

end

theorem All.follow {t u : Rose α} {path : List Nat} (h : t.All P) (hu : t.follow? path = some u) :
    u.All P := by
  induction path generalizing t with
  | nil =>
    cases hu
    exact h
  | cons i path ih =>
    cases t with
    | node a ts =>
      obtain ⟨child, hchild, hbelow⟩ := Option.bind_eq_some_iff.mp hu
      exact ih ((all_node.mp h).2 child (List.mem_of_getElem? hchild)) hbelow

/-! ### Trees are determined by their rows -/

mutual

theorem le_depth_of_mem_rows {d : Nat} : ∀ {t : Rose α}, ∀ row ∈ t.rows d, d ≤ row.depth
  | node a ts, row, hrow => by
    rw [rows, List.mem_cons] at hrow
    rcases hrow with rfl | hbelow
    · exact Nat.le_refl d
    · exact Nat.le_of_succ_le (le_depth_of_mem_forestRows row hbelow)

theorem le_depth_of_mem_forestRows {d : Nat} : ∀ {ts : List (Rose α)},
    ∀ row ∈ forestRows d ts, d ≤ row.depth
  | [], row, hrow => by cases hrow
  | t :: ts, row, hrow => by
    rw [forestRows, List.mem_append] at hrow
    rcases hrow with hfirst | hothers
    · exact le_depth_of_mem_rows row hfirst
    · exact le_depth_of_mem_forestRows row hothers

end

/-- The rows of the children of a node end where the rows are no deeper than the node. -/
theorem append_cancel_of_deeper {d : Nat} {below below' behind behind' : List (Row α)}
    (hbelow : ∀ row ∈ below, d < row.depth) (hbelow' : ∀ row ∈ below', d < row.depth)
    (hbehind : ∀ row ∈ behind.head?, row.depth ≤ d)
    (hbehind' : ∀ row ∈ behind'.head?, row.depth ≤ d)
    (h : below ++ behind = below' ++ behind') : below = below' ∧ behind = behind' := by
  induction below generalizing below' with
  | nil =>
    cases below' with
    | nil => exact ⟨rfl, h⟩
    | cons row below' =>
      have hdeep : d < row.depth := hbelow' row List.mem_cons_self
      have hflat : row.depth ≤ d := hbehind row (by rw [List.nil_append] at h; rw [h]; rfl)
      omega
  | cons row below ih =>
    have hdeep : d < row.depth := hbelow row List.mem_cons_self
    cases below' with
    | nil =>
      have hflat : row.depth ≤ d := hbehind' row (by rw [List.nil_append] at h; rw [← h]; rfl)
      omega
    | cons row' below' =>
      obtain ⟨rfl, htail⟩ := List.cons.inj h
      obtain ⟨rfl, rfl⟩ := ih (fun r hr => hbelow r (List.mem_cons_of_mem _ hr))
        (fun r hr => hbelow' r (List.mem_cons_of_mem _ hr)) htail
      exact ⟨rfl, rfl⟩

theorem depth_head?_forestRows {d : Nat} {ts : List (Rose α)} :
    ∀ row ∈ (forestRows d ts).head?, row.depth ≤ d := by
  cases ts with
  | nil => intro row hrow; cases hrow
  | cons t ts =>
    cases t with
    | node a us =>
      intro row hrow
      cases hrow
      exact Nat.le_refl d

mutual

theorem rows_injective {d : Nat} : ∀ {t u : Rose α}, t.rows d = u.rows d → t = u
  | node a ts, node b us, h => by
    rw [rows, rows, List.cons.injEq, Row.mk.injEq] at h
    obtain ⟨⟨-, rfl⟩, hbelow⟩ := h
    rw [forestRows_injective hbelow]

theorem forestRows_injective {d : Nat} : ∀ {ts us : List (Rose α)},
    forestRows d ts = forestRows d us → ts = us
  | [], [], _ => rfl
  | [], node b vs :: us, h => by cases h
  | node a vs :: ts, [], h => by cases h
  | node a vs :: ts, node b ws :: us, h => by
    rw [forestRows, forestRows, rows, rows, List.cons_append, List.cons_append, List.cons.injEq,
      Row.mk.injEq] at h
    obtain ⟨⟨-, rfl⟩, hrest⟩ := h
    obtain ⟨hbelow, hbehind⟩ := append_cancel_of_deeper le_depth_of_mem_forestRows
      le_depth_of_mem_forestRows depth_head?_forestRows depth_head?_forestRows hrest
    rw [forestRows_injective hbelow, forestRows_injective hbehind]

end

end Lumen.Rose
