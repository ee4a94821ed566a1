import Lumen.Variable

/-!
# Stores

A store holds the values of variables. It is a list of entries, at most one for each variable, in
the order in which the variables were first written; writing a variable again changes its entry in
place.
-/

namespace Lumen

structure Entry where
  key : Variable
  value : Value
  deriving DecidableEq

structure Store where
  entries : List Entry
  deriving DecidableEq

namespace Store

def empty : Store := ⟨[]⟩

instance : EmptyCollection Store := ⟨empty⟩

instance : Inhabited Store := ⟨∅⟩

def find (v : Variable) : List Entry → Option Value
  | [] => none
  | e :: es => if e.key = v then some e.value else find v es

def write (v : Variable) (x : Value) : List Entry → List Entry
  | [] => [⟨v, x⟩]
  | e :: es => if e.key = v then ⟨v, x⟩ :: es else e :: write v x es

def get? (s : Store) (v : Variable) : Option Value := find v s.entries

def set (s : Store) (v : Variable) (x : Value) : Store := ⟨write v x s.entries⟩

theorem find_write (v w : Variable) (x : Value) (es : List Entry) :
    find w (write v x es) = if v = w then some x else find w es := by
  induction es with
  | nil => simp [write, find]
  | cons e es ih =>
    by_cases hv : e.key = v
    · subst hv
      by_cases hw : e.key = w <;> simp [write, find, hw]
    · by_cases hw : e.key = w
      · subst hw
        simp [write, find, hv, Ne.symm hv]
      · simp [write, find, hv, hw, ih]

@[simp] theorem get?_empty (v : Variable) : (∅ : Store).get? v = none := rfl

theorem get?_set (s : Store) (v w : Variable) (x : Value) :
    (s.set v x).get? w = if v = w then some x else s.get? w := find_write v w x s.entries

@[simp] theorem get?_set_self (s : Store) (v : Variable) (x : Value) :
    (s.set v x).get? v = some x := by
  simp [get?_set]

theorem get?_set_of_ne (s : Store) {v w : Variable} (x : Value) (h : v ≠ w) :
    (s.set v x).get? w = s.get? w := by
  simp [get?_set, h]

end Store

end Lumen
