import Lumen.Tree

/-!
# Lexical scoping

A place in a tree is the path that leads to it. A declaration is in force at a place if it stands
before the place and all scopes around it are around the place, too; a block is a scope, and so is a
loop over numbers for its variable and its body. A name means the declaration in force whose scope
is innermost, and of several in that scope the first one.
-/

namespace Lumen

/-- The way to a part of a tree: which part of the root, which part of that one, and so on. -/
abbrev Path := List Nat

namespace Tree.Stmt

def inner : Stmt → List Stmt
  | block _ body _ => body
  | declaration .. => []
  | ifThen _ _ s => [s]
  | ifElse _ _ s _ t => [s, t]
  | whileLoop _ _ s => [s]
  | forLoop _ _ _ _ _ _ s => [s]
  | expression _ => []

def at? : Path → Stmt → Option Stmt
  | [], t => some t
  | i :: p, t => t.inner[i]?.bind (at? p)

/-- The expressions of a statement that are not inside statements of it, in order. -/
def operands : Stmt → List Expr
  | block .. => []
  | declaration _ _ _ e => [e]
  | ifThen _ c _ => [c]
  | ifElse _ c _ _ _ => [c]
  | whileLoop _ c _ => [c]
  | forLoop _ _ _ lower _ upper _ => [lower, upper]
  | expression e => [e]

/-- The name that a statement declares. A name that was made up declares nothing. -/
def declared? : Stmt → Option String
  | declaration _ x _ _ => if x.isMissing then none else some x.text
  | forLoop _ x _ _ _ _ _ => if x.isMissing then none else some x.text
  | _ => none

def declaredToken? : Stmt → Option Token
  | declaration _ x _ _ => some x
  | forLoop _ x _ _ _ _ _ => some x
  | _ => none

def isScope : Stmt → Bool
  | block .. => true
  | forLoop .. => true
  | _ => false

def Declares (t : Stmt) (d : Path) (name : String) : Prop :=
  ∃ s, t.at? d = some s ∧ s.declared? = some name

/-- Whether a path leads to a scope around a place. The variable of a loop over numbers is inside
the scope of the loop. -/
def Encloses (t : Stmt) (q d : Path) : Prop := q <+: d ∧ ∃ s, t.at? q = some s ∧ s.isScope = true

structure InForce (t : Stmt) (p : Path) (name : String) (d : Path) : Prop where
  declares : t.Declares d name
  before : d < p
  inside : ∀ q, t.Encloses q d → q <+: p

/-- Whether a name means a declaration at a place: the first one in the innermost scope that has
one. -/
structure Means (t : Stmt) (p : Path) (name : String) (d : Path) : Prop where
  inForce : t.InForce p name d
  innermost : ∀ d', t.InForce p name d' → ∀ q, t.Encloses q d' → t.Encloses q d
  first : ∀ d', t.InForce p name d' → (∀ q, t.Encloses q d → t.Encloses q d') → ¬ d' < d

/-- Whether a declaration of a name is in no scope inside the tree. -/
structure Global (t : Stmt) (name : String) (d : Path) : Prop where
  declares : t.Declares d name
  free : ∀ q, ¬ t.Encloses q d

/-- Whether a name is declared at a place although there is an earlier declaration of it in the same
scope. -/
def Redeclares (t : Stmt) (d : Path) : Prop :=
  ∃ name d', t.Declares d name ∧ t.Declares d' name ∧ d' < d ∧
    ∀ q, t.Encloses q d' ↔ t.Encloses q d

section

variable {t c : Stmt} {i j : Nat} {p q d : Path} {name : String}

@[simp] theorem declares_nil : t.Declares [] name ↔ t.declared? = some name := by
  simp [Declares, at?]

theorem declares_cons :
    t.Declares (i :: d) name ↔ ∃ c, t.inner[i]? = some c ∧ c.Declares d name := by
  constructor
  · rintro ⟨s, hs, hname⟩
    obtain ⟨c, hc, hs⟩ := Option.bind_eq_some_iff.mp hs
    exact ⟨c, hc, s, hs, hname⟩
  · rintro ⟨c, hc, s, hs, hname⟩
    exact ⟨s, Option.bind_eq_some_iff.mpr ⟨c, hc, hs⟩, hname⟩

theorem encloses_cons (hc : t.inner[i]? = some c) :
    t.Encloses q (i :: d) ↔ (q = [] ∧ t.isScope = true) ∨ ∃ q', q = i :: q' ∧ c.Encloses q' d := by
  cases q with
  | nil => simp [Encloses, at?]
  | cons j q =>
    simp only [Encloses, List.cons_prefix_cons, at?, List.cons.injEq, reduceCtorEq, false_and,
      false_or]
    constructor
    · rintro ⟨⟨rfl, hq⟩, s, hs, hscope⟩
      rw [hc, Option.bind_some] at hs
      exact ⟨q, ⟨rfl, rfl⟩, hq, s, hs, hscope⟩
    · rintro ⟨q', ⟨rfl, rfl⟩, hq, s, hs, hscope⟩
      exact ⟨⟨rfl, hq⟩, s, by rw [hc, Option.bind_some, hs], hscope⟩

@[simp] theorem encloses_nil : t.Encloses q [] ↔ q = [] ∧ t.isScope = true := by
  simp only [Encloses, List.prefix_nil]
  constructor
  · rintro ⟨rfl, s, hs, hscope⟩
    cases hs
    exact ⟨rfl, hscope⟩
  · rintro ⟨rfl, hscope⟩
    exact ⟨rfl, t, rfl, hscope⟩

theorem global_nil : t.Global name [] ↔ t.declared? = some name ∧ t.isScope = false := by
  constructor
  · rintro ⟨hdeclares, hfree⟩
    refine ⟨declares_nil.mp hdeclares, Bool.eq_false_iff.mpr fun hscope => ?_⟩
    exact hfree [] (encloses_nil.mpr ⟨rfl, hscope⟩)
  · rintro ⟨hdeclared, hscope⟩
    refine ⟨declares_nil.mpr hdeclared, fun q hq => ?_⟩
    exact Bool.eq_false_iff.mp hscope (encloses_nil.mp hq).2

theorem global_cons : t.Global name (i :: d) ↔
    t.isScope = false ∧ ∃ c, t.inner[i]? = some c ∧ c.Global name d := by
  constructor
  · rintro ⟨hdeclares, hfree⟩
    obtain ⟨c, hc, hdeclares⟩ := declares_cons.mp hdeclares
    refine ⟨Bool.eq_false_iff.mpr fun hscope => ?_, c, hc, hdeclares, fun q hq => ?_⟩
    · exact hfree [] ((encloses_cons hc).mpr (.inl ⟨rfl, hscope⟩))
    · exact hfree (i :: q) ((encloses_cons hc).mpr (.inr ⟨q, rfl, hq⟩))
  · rintro ⟨hscope, c, hc, hglobal⟩
    refine ⟨declares_cons.mpr ⟨c, hc, hglobal.declares⟩, fun q hq => ?_⟩
    rcases (encloses_cons hc).mp hq with ⟨-, hroot⟩ | ⟨q', -, hq'⟩
    · exact Bool.eq_false_iff.mp hscope hroot
    · exact hglobal.free q' hq'

theorem Declares.unique {other : String} (h : t.Declares d name) (h' : t.Declares d other) :
    name = other := by
  obtain ⟨s, hs, hname⟩ := h
  obtain ⟨s', hs', hother⟩ := h'
  cases hs.symm.trans hs'
  exact Option.some.inj (hname.symm.trans hother)

theorem Means.not_redeclares (h : t.Means p name d) : ¬ t.Redeclares d := by
  rintro ⟨other, d', hd, hd', hlt, hscopes⟩
  cases hd.unique h.inForce.declares
  have hforce : t.InForce p name d' :=
    ⟨hd', List.lt_trans hlt h.inForce.before, fun q hq => h.inForce.inside q ((hscopes q).mp hq)⟩
  exact h.first d' hforce (fun q hq => (hscopes q).mpr hq) hlt

theorem not_redeclares_of_first (h : t.Global name d)
    (hfirst : ∀ d', t.Global name d' → ¬ d' < d) : ¬ t.Redeclares d := by
  rintro ⟨other, d', hd, hd', hlt, hscopes⟩
  cases hd.unique h.declares
  exact hfirst d' ⟨hd', fun q hq => h.free q ((hscopes q).mp hq)⟩ hlt

end

end Tree.Stmt

end Lumen
