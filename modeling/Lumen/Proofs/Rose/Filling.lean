import Lumen.Proofs.Rose.Rows

/-!
# Filling the holes of a tree

Some leaves of a tree are holes. Filling puts a tree in the place of each hole, in the order in which
the holes stand, and keeps everything else; so what a tree is filled with determines the result.
Filling holes with their own leaves changes nothing, and filling holes with holes and filling those
again is one filling.
-/

namespace Lumen.Rose

variable {α β : Type} {hole? : α → Option β}

def holes (hole? : α → Option β) (t : Rose α) : List β := ((t.rows 0).map Row.value).filterMap hole?

@[simp] theorem holes_node (a : α) (ts : List (Rose α)) :
    (node a ts).holes hole? = (hole? a).toList ++ ts.flatMap (holes hole?) := by
  have hbelow : (forestRows 1 ts).map Row.value = ts.flatMap fun t => (t.rows 0).map Row.value := by
    rw [map_value_forestRows 1 0, forestRows_eq_flatMap, List.map_flatMap]
  rw [holes, rows, List.map_cons, List.filterMap_cons, hbelow, List.filterMap_flatMap]
  cases hole? a with
  | none => rfl
  | some b => rfl

@[simp] theorem holes_leaf (a : α) : (leaf a).holes hole? = (hole? a).toList := by
  rw [leaf, holes_node, List.flatMap_nil, List.append_nil]

mutual

/-- Whether a tree becomes another one when its holes are filled with given trees. -/
inductive Filled (hole? : α → Option β) : Rose α → List (Rose α) → Rose α → Prop
  | hole {a : α} {b : β} (t : Rose α) : hole? a = some b → Filled hole? (leaf a) [t] t
  | node {a : α} {ts fill ts' : List (Rose α)} : hole? a = none → FilledForest hole? ts fill ts' →
    Filled hole? (node a ts) fill (node a ts')

inductive FilledForest (hole? : α → Option β) : List (Rose α) → List (Rose α) → List (Rose α) → Prop
  | nil : FilledForest hole? [] [] []
  | cons {t t' : Rose α} {ts ts' fill fills : List (Rose α)} : Filled hole? t fill t' →
    FilledForest hole? ts fills ts' → FilledForest hole? (t :: ts) (fill ++ fills) (t' :: ts')

end

mutual

theorem Filled.length_eq {t t' : Rose α} {fill : List (Rose α)} :
    Filled hole? t fill t' → fill.length = (t.holes hole?).length
  | .hole _ hhole => by rw [holes_leaf, hhole]; rfl
  | .node hnone hts => by
    rw [holes_node, hnone, Option.toList_none, List.nil_append, hts.length_eq]

theorem FilledForest.length_eq {ts ts' fill : List (Rose α)} :
    FilledForest hole? ts fill ts' → fill.length = (ts.flatMap (holes hole?)).length
  | .nil => rfl
  | .cons ht hts => by
    rw [List.flatMap_cons, List.length_append, List.length_append, ht.length_eq, hts.length_eq]

end

mutual

theorem Filled.unique {t t' t'' : Rose α} {fill : List (Rose α)} :
    Filled hole? t fill t' → Filled hole? t fill t'' → t' = t''
  | .hole _ _, .hole _ _ => rfl
  | .hole _ hhole, .node hnone _ => by rw [hnone] at hhole; cases hhole
  | .node hnone _, .hole _ hhole => by rw [hnone] at hhole; cases hhole
  | .node _ hts, .node _ hts' => by rw [hts.unique hts' rfl]

theorem FilledForest.unique {ts ts' ts'' fill fill' : List (Rose α)} :
    FilledForest hole? ts fill ts' → FilledForest hole? ts fill' ts'' → fill = fill' → ts' = ts''
  | .nil, .nil, _ => rfl
  | .cons ht hts, .cons ht' hts', h => by
    obtain ⟨rfl, rfl⟩ := List.append_inj h (ht.length_eq.trans ht'.length_eq.symm)
    rw [ht.unique ht', hts.unique hts' rfl]

end

mutual

theorem Filled.holes_eq {t t' : Rose α} {fill : List (Rose α)} :
    Filled hole? t fill t' → t'.holes hole? = fill.flatMap (holes hole?)
  | .hole _ _ => by rw [List.flatMap_singleton]
  | .node hnone hts => by
    rw [holes_node, hnone, Option.toList_none, List.nil_append, hts.holes_eq]

theorem FilledForest.holes_eq {ts ts' fill : List (Rose α)} :
    FilledForest hole? ts fill ts' → ts'.flatMap (holes hole?) = fill.flatMap (holes hole?)
  | .nil => rfl
  | .cons ht hts => by rw [List.flatMap_cons, List.flatMap_append, ht.holes_eq, hts.holes_eq]

end

section

variable {back : β → α}

mutual

/-- A tree that is filled with the leaves that its holes are stays as it is. -/
theorem Filled.self (hback : ∀ {a : α} {b : β}, hole? a = some b → back b = a) {t t' : Rose α}
    {fill : List (Rose α)} :
    Filled hole? t fill t' → Filled hole? t ((t.holes hole?).map fun b => leaf (back b)) t
  | .hole _ hhole => by
    rw [holes_leaf, hhole, Option.toList_some, List.map_singleton, hback hhole]
    exact .hole _ hhole
  | .node hnone hts => by
    rw [holes_node, hnone, Option.toList_none, List.nil_append]
    exact .node hnone (hts.self hback)

theorem FilledForest.self (hback : ∀ {a : α} {b : β}, hole? a = some b → back b = a)
    {ts ts' fill : List (Rose α)} : FilledForest hole? ts fill ts' →
      FilledForest hole? ts ((ts.flatMap (holes hole?)).map fun b => leaf (back b)) ts
  | .nil => .nil
  | .cons ht hts => by
    rw [List.flatMap_cons, List.map_append]
    exact .cons (ht.self hback) (hts.self hback)

end

end

mutual

/-- Filling holes with holes and filling those again is one filling. -/
theorem Filled.trans {t t' t'' : Rose α} {fill fill' : List (Rose α)}
    (hfill : ∀ u ∈ fill, ∃ a b, u = leaf a ∧ hole? a = some b) :
    Filled hole? t fill t' → Filled hole? t' fill' t'' → Filled hole? t fill' t''
  | .hole u hhole, h => by
    obtain ⟨a, b, rfl, hb⟩ := hfill u (List.mem_singleton.mpr rfl)
    cases h with
    | hole _ _ => exact .hole t'' hhole
    | node hnone _ => rw [hnone] at hb; cases hb
  | .node hnone hts, h => by
    cases h with
    | hole _ hhole => rw [hnone] at hhole; cases hhole
    | node _ hts' => exact .node hnone (hts.trans hfill hts')

theorem FilledForest.trans {ts ts' ts'' fill fill' : List (Rose α)}
    (hfill : ∀ u ∈ fill, ∃ a b, u = leaf a ∧ hole? a = some b) :
    FilledForest hole? ts fill ts' → FilledForest hole? ts' fill' ts'' →
      FilledForest hole? ts fill' ts''
  | .nil, h => h
  | .cons ht hts, h => by
    obtain ⟨hfirst, hothers⟩ := List.forall_mem_append.mp hfill
    cases h with
    | cons ht' hts' => exact .cons (ht.trans hfirst ht') (hts.trans hothers hts')

end

end Lumen.Rose
