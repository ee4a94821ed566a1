/-!
# Ordered trees

A tree with values at its nodes, where each node has a list of children. Syntax trees and bound
trees of several sorts of phrases are seen as such trees when only their shape matters: for dumps,
for walking down along child numbers, for listing all nodes.
-/

namespace Lumen

inductive Rose (α : Type)
  | node (value : α) (children : List (Rose α))

namespace Rose

variable {α β : Type}

def value : Rose α → α
  | node a _ => a

def children : Rose α → List (Rose α)
  | node _ ts => ts

def leaf (a : α) : Rose α := node a []

mutual

def map (f : α → β) : Rose α → Rose β
  | node a ts => node (f a) (mapForest f ts)

def mapForest (f : α → β) : List (Rose α) → List (Rose β)
  | [] => []
  | t :: ts => t.map f :: mapForest f ts

end

/-- A value of a tree, and how far below the top it stands. -/
structure Row (α : Type) where
  depth : Nat
  value : α

mutual

/-- The values of a tree, each before those below it, where the top has a given depth. -/
def rows (depth : Nat) : Rose α → List (Row α)
  | node a ts => ⟨depth, a⟩ :: forestRows (depth + 1) ts

def forestRows (depth : Nat) : List (Rose α) → List (Row α)
  | [] => []
  | t :: ts => t.rows depth ++ forestRows depth ts

end

/-- The tree reached by going down to the child with each number in turn. -/
def follow? (t : Rose α) : List Nat → Option (Rose α)
  | [] => some t
  | i :: path => t.children[i]?.bind (·.follow? path)

@[simp] theorem mapForest_eq_map (f : α → β) (ts : List (Rose α)) :
    mapForest f ts = List.map (Rose.map f) ts := by
  induction ts with
  | nil => simp [mapForest]
  | cons t ts ih => simp [mapForest, ih]

@[simp] theorem forestRows_eq_flatMap (depth : Nat) (ts : List (Rose α)) :
    forestRows depth ts = ts.flatMap (rows depth) := by
  induction ts with
  | nil => simp [forestRows]
  | cons t ts ih => simp [forestRows, ih]

end Rose

end Lumen
