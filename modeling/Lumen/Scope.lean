import Lumen.Variable

/-!
# Scopes

A scope lists the variables declared in one stretch of a program, in the order of declaration; it
never holds two variables of one name. An environment is the scope at a place together with the
scopes around it, innermost first. A name means the variable of the innermost scope that has it, so
an inner declaration hides an outer one.
-/

namespace Lumen

/-- The variables declared in one stretch of a program. -/
abbrev Scope := List Variable

namespace Scope

def find? (s : Scope) (name : String) : Option Variable := List.find? (·.name = name) s

/-- The scope with one more variable, unless its name is taken. -/
def declare? (s : Scope) (v : Variable) : Option Scope :=
  if (s.find? v.name).isSome then none else some (s ++ [v])

def takenMessage (name : String) : String := s!"variable '{name}' is already declared in this scope"

theorem declare?_eq_some {s t : Scope} {v : Variable} (h : s.declare? v = some t) :
    s.find? v.name = none ∧ t = s ++ [v] := by
  unfold declare? at h
  split at h
  · cases h
  · next hn => exact ⟨by simpa using hn, (Option.some.inj h).symm⟩

end Scope

/-- The scope at a place and the scopes around it. -/
structure Environment where
  current : Scope
  outer : List Scope

namespace Environment

def inside (outer : List Scope) : Environment := ⟨[], outer⟩

def lookup? (e : Environment) (name : String) : Option Variable :=
  (e.current :: e.outer).findSome? (·.find? name)

def declare? (e : Environment) (v : Variable) : Option Environment :=
  (e.current.declare? v).map ({ e with current := · })

def push (e : Environment) : Environment := inside (e.current :: e.outer)

def pop? (e : Environment) : Option Environment :=
  match e.outer with
  | [] => none
  | s :: ss => some ⟨s, ss⟩

/-- The number of scopes around the current one. -/
def depth (e : Environment) : Nat := e.outer.length

theorem pop?_push (e : Environment) : e.push.pop? = some e := rfl

theorem lookup?_push (e : Environment) (name : String) : e.push.lookup? name = e.lookup? name := by
  simp only [lookup?, push, inside, List.findSome?_cons, Scope.find?, List.find?_nil]

end Environment

end Lumen
