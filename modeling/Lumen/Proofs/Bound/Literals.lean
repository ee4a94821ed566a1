import Lumen.Bound.Literals
import Lumen.Bound.Node
import Lumen.Proofs.Rose.Filling

/-!
# Literals are replaced once, in the order of evaluation

What a node of a bound tree holds besides the nodes below it is its head, and a bound tree is
determined by the ordered tree of its heads. Replacing literals asks for an answer for each literal
exactly once, from the first one evaluated to the last one, and the result is the tree whose literals
are filled with the answers; all other heads stay where they are.
-/

namespace Lumen.Bound

/-- What a node holds besides the nodes below it. -/
inductive Head
  | block
  | declaration (v : Variable)
  | expression
  | conditional
  | whileLoop
  | forLoop (v : Variable)
  | jump (l : Label)
  | jumpIf (l : Label) (onFalse : Bool)
  | label (l : Label)
  | literal (value : Value)
  | variable (v : Variable)
  | assignment (v : Variable)
  | unary (operator : UnaryOperator)
  | binary (operator : BinaryOperator)

@[simp] def Head.literal? : Head → Option Value
  | literal v => some v
  | _ => none

theorem Head.literal_of_literal? {h : Head} {v : Value} (hv : h.literal? = some v) :
    literal v = h := by
  cases h <;> simp_all

@[simp] def Expr.head : Expr → Head
  | .literal v => .literal v
  | .variable v => .variable v
  | .assignment v _ => .assignment v
  | .unary op _ => .unary op
  | .binary _ op _ => .binary op

@[simp] def Stmt.head : Stmt → Head
  | block _ => .block
  | declaration v _ => .declaration v
  | expression _ => .expression
  | ifThen .. => .conditional
  | ifElse .. => .conditional
  | whileLoop .. => .whileLoop
  | forLoop v _ _ _ => .forLoop v
  | jump l => .jump l
  | jumpIf l _ onFalse => .jumpIf l onFalse
  | label l => .label l

@[simp] def Node.head : Node → Head
  | expr e => e.head
  | stmt s => s.head

/-- The ordered tree of the heads of an expression. -/
def Expr.heads (e : Expr) : Rose Head := e.rose.map Node.head

def Stmt.heads (s : Stmt) : Rose Head := s.rose.map Node.head

def Stmt.literals (s : Stmt) : List Value := s.heads.holes Head.literal?

section

variable {v : Variable} {value : Value} {l : Label} {onFalse : Bool} {e f g : Expr} {s t : Stmt}
  {body : List Stmt}

@[simp] theorem Expr.heads_literal : (Expr.literal value).heads = .leaf (.literal value) := rfl

@[simp] theorem Expr.heads_variable : (Expr.variable v).heads = .leaf (.variable v) := rfl

@[simp] theorem Expr.heads_assignment :
    (Expr.assignment v e).heads = .node (.assignment v) [e.heads] := rfl

@[simp] theorem Expr.heads_unary {op : UnaryOperator} :
    (Expr.unary op e).heads = .node (.unary op) [e.heads] := rfl

@[simp] theorem Expr.heads_binary {op : BinaryOperator} :
    (Expr.binary e op f).heads = .node (.binary op) [e.heads, f.heads] := rfl

namespace Stmt

@[simp] theorem heads_block : (block body).heads = .node .block (body.map heads) := by
  simp only [heads, rose, roseOfList_eq_map, Rose.map, Rose.mapForest_eq_map, List.map_map]
  rfl

@[simp] theorem heads_declaration :
    (declaration v e).heads = .node (.declaration v) [e.heads] := rfl

@[simp] theorem heads_expression : (expression e).heads = .node .expression [e.heads] := rfl

@[simp] theorem heads_ifThen : (ifThen e s).heads = .node .conditional [e.heads, s.heads] := rfl

@[simp] theorem heads_ifElse :
    (ifElse e s t).heads = .node .conditional [e.heads, s.heads, t.heads] := rfl

@[simp] theorem heads_whileLoop : (whileLoop e s).heads = .node .whileLoop [e.heads, s.heads] := rfl

@[simp] theorem heads_forLoop :
    (forLoop v e f s).heads = .node (.forLoop v) [e.heads, f.heads, s.heads] := rfl

@[simp] theorem heads_jump : (jump l).heads = .leaf (.jump l) := rfl

@[simp] theorem heads_jumpIf :
    (jumpIf l e onFalse).heads = .node (.jumpIf l onFalse) [e.heads] := rfl

@[simp] theorem heads_label : (label l).heads = .leaf (.label l) := rfl

end Stmt

end

/-! ### Heads determine the tree -/

theorem Expr.heads_injective : ∀ {e f : Expr}, e.heads = f.heads → e = f
  | .literal _, f, h => by cases f <;> simp_all [Rose.leaf]
  | .variable _, f, h => by cases f <;> simp_all [Rose.leaf]
  | .assignment _ e, f, h => by
    cases f <;> simp [Rose.leaf] at h
    rw [h.1, heads_injective h.2]
  | .unary _ e, f, h => by
    cases f <;> simp [Rose.leaf] at h
    rw [h.1, heads_injective h.2]
  | .binary l _ r, f, h => by
    cases f <;> simp [Rose.leaf] at h
    rw [h.1, heads_injective h.2.1, heads_injective h.2.2]

namespace Stmt

mutual

theorem heads_injective : ∀ {s t : Stmt}, s.heads = t.heads → s = t
  | block a, t, h => by
    cases t <;> simp [Rose.leaf] at h
    rw [map_heads_injective h]
  | declaration _ e, t, h => by
    cases t <;> simp [Rose.leaf] at h
    rw [h.1, Expr.heads_injective h.2]
  | expression e, t, h => by
    cases t <;> simp [Rose.leaf] at h
    rw [Expr.heads_injective h]
  | ifThen c s, t, h => by
    cases t <;> simp [Rose.leaf] at h
    rw [Expr.heads_injective h.1, heads_injective h.2]
  | ifElse c s u, t, h => by
    cases t <;> simp [Rose.leaf] at h
    rw [Expr.heads_injective h.1, heads_injective h.2.1, heads_injective h.2.2]
  | whileLoop c s, t, h => by
    cases t <;> simp [Rose.leaf] at h
    rw [Expr.heads_injective h.1, heads_injective h.2]
  | forLoop _ lo hi s, t, h => by
    cases t <;> simp [Rose.leaf] at h
    rw [h.1, Expr.heads_injective h.2.1, Expr.heads_injective h.2.2.1, heads_injective h.2.2.2]
  | jump _, t, h => by cases t <;> simp_all [Rose.leaf]
  | jumpIf _ c _, t, h => by
    cases t <;> simp [Rose.leaf] at h
    rw [h.1.1, h.1.2, Expr.heads_injective h.2]
  | label _, t, h => by cases t <;> simp_all [Rose.leaf]

theorem map_heads_injective : ∀ {a b : List Stmt}, a.map heads = b.map heads → a = b
  | [], b, h => by cases b <;> simp_all
  | s :: ss, b, h => by
    cases b <;> simp at h
    rw [heads_injective h.1, map_heads_injective h.2]

end

end Stmt

/-! ### Answers in order -/

variable {σ : Type} {answer : Value → StateM σ Expr}

/-- Whether a tree of heads becomes another one by asking for an answer for each literal in turn and
filling the literals with the answers, and which state that leaves. -/
def Answered (answer : Value → StateM σ Expr) (state : σ) (t t' : Rose Head) (after : σ) : Prop :=
  ∃ answers, (t.holes Head.literal?).mapM answer state = (answers, after) ∧
    t.Filled Head.literal? (answers.map Expr.heads) t'

def AnsweredAll (answer : Value → StateM σ Expr) (state : σ) (ts ts' : List (Rose Head))
    (after : σ) : Prop :=
  ∃ answers, (ts.flatMap (Rose.holes Head.literal?)).mapM answer state = (answers, after) ∧
    Rose.FilledForest Head.literal? ts (answers.map Expr.heads) ts'

theorem answered_literal (value : Value) (state : σ) :
    Answered answer state (.leaf (.literal value)) (answer value state).1.heads
      (answer value state).2 := by
  refine ⟨[(answer value state).1], ?_, .hole _ rfl⟩
  rw [Rose.holes_leaf]
  simp only [Head.literal?, Option.toList_some, List.mapM_cons, List.mapM_nil]
  rfl

theorem answeredAll_nil (state : σ) : AnsweredAll answer state [] [] state := ⟨[], rfl, .nil⟩

theorem Answered.cons {t t' : Rose Head} {ts ts' : List (Rose Head)} {state between after : σ}
    (ht : Answered answer state t t' between) (hts : AnsweredAll answer between ts ts' after) :
    AnsweredAll answer state (t :: ts) (t' :: ts') after := by
  obtain ⟨first, hfirst, hfill⟩ := ht
  obtain ⟨others, hothers, hfills⟩ := hts
  refine ⟨first ++ others, ?_, ?_⟩
  · rw [List.flatMap_cons, List.mapM_append]
    simp only [bind, StateT.bind, hfirst, hothers]
    rfl
  · rw [List.map_append]
    exact .cons hfill hfills

theorem AnsweredAll.node {h : Head} {ts ts' : List (Rose Head)} {state after : σ}
    (hnone : h.literal? = none) (hts : AnsweredAll answer state ts ts' after) :
    Answered answer state (.node h ts) (.node h ts') after := by
  obtain ⟨answers, hanswers, hfill⟩ := hts
  refine ⟨answers, ?_, .node hnone hfill⟩
  rw [Rose.holes_node, hnone, Option.toList_none, List.nil_append, hanswers]

variable (answer)

theorem Expr.answered : ∀ (e : Expr) (state : σ),
    Answered answer state e.heads (e.replaceLiterals answer state).1.heads
      (e.replaceLiterals answer state).2
  | .literal value, state => answered_literal value state
  | .variable _, state => (answeredAll_nil state).node rfl
  | .assignment _ e, state => ((answered e state).cons (answeredAll_nil _)).node rfl
  | .unary _ e, state => ((answered e state).cons (answeredAll_nil _)).node rfl
  | .binary l _ r, state =>
    ((answered l state).cons ((answered r _).cons (answeredAll_nil _))).node rfl

namespace Stmt

mutual

theorem answered : ∀ (s : Stmt) (state : σ),
    Answered answer state s.heads (s.replaceLiterals answer state).1.heads
      (s.replaceLiterals answer state).2
  | block body, state => by
    have hbody := (answeredList body state).node (h := .block) rfl
    rw [← heads_block, ← heads_block] at hbody
    exact hbody
  | declaration _ e, state => ((e.answered answer state).cons (answeredAll_nil _)).node rfl
  | expression e, state => ((e.answered answer state).cons (answeredAll_nil _)).node rfl
  | ifThen c s, state =>
    ((c.answered answer state).cons ((answered s _).cons (answeredAll_nil _))).node rfl
  | ifElse c s t, state =>
    ((c.answered answer state).cons ((answered s _).cons ((answered t _).cons
      (answeredAll_nil _)))).node rfl
  | whileLoop c s, state =>
    ((c.answered answer state).cons ((answered s _).cons (answeredAll_nil _))).node rfl
  | forLoop _ lo hi s, state =>
    ((lo.answered answer state).cons ((hi.answered answer _).cons ((answered s _).cons
      (answeredAll_nil _)))).node rfl
  | jump _, state => (answeredAll_nil state).node rfl
  | jumpIf _ c _, state => ((c.answered answer state).cons (answeredAll_nil _)).node rfl
  | label _, state => (answeredAll_nil state).node rfl

theorem answeredList : ∀ (ss : List Stmt) (state : σ),
    AnsweredAll answer state (ss.map heads) ((replaceLiteralsOfList answer ss state).1.map heads)
      (replaceLiteralsOfList answer ss state).2
  | [], state => answeredAll_nil state
  | s :: ss, state => (answered s state).cons (answeredList ss _)

end

/-- Of a statement that is filled with given trees there is one result only. -/
theorem eq_of_filled {s t u : Stmt} {fill : List (Rose Head)}
    (ht : s.heads.Filled Head.literal? fill t.heads)
    (hu : s.heads.Filled Head.literal? fill u.heads) : t = u :=
  heads_injective (ht.unique hu)

theorem filled_self (s : Stmt) :
    s.heads.Filled Head.literal? ((s.literals.map Expr.literal).map Expr.heads) s.heads := by
  obtain ⟨_, -, hfilled⟩ := answered (fun v => pure (.literal v)) s ()
  rw [List.map_map]
  exact hfilled.self Head.literal_of_literal?

/-- Answers that depend on nothing but the literal leave the state as it is. -/
theorem mapM_pure (answer : Value → Expr) (values : List Value) (state : σ) :
    values.mapM (m := StateM σ) (fun v => pure (answer v)) state = (values.map answer, state) := by
  rw [List.mapM_pure]
  rfl

theorem filled_mapLiterals (answer : Value → Expr) (s : Stmt) :
    s.heads.Filled Head.literal? ((s.literals.map answer).map Expr.heads)
      (s.mapLiterals answer).heads := by
  obtain ⟨answers, hanswers, hfilled⟩ := answered (fun v => pure (answer v)) s ()
  obtain ⟨rfl, -⟩ := Prod.mk.inj ((mapM_pure answer _ ()).symm.trans hanswers)
  exact hfilled

theorem literals_mapLiterals (f : Value → Value) (s : Stmt) :
    (s.mapLiterals (.literal ∘ f)).literals = s.literals.map f := by
  rw [literals, (filled_mapLiterals _ s).holes_eq, List.flatMap_map, List.flatMap_map]
  exact List.map_eq_flatMap.symm

/-- Literals are replaced once, in the order of evaluation, and nothing else is. The answer is asked
for once for each literal, each node before those below it, with the state handed on from one to the
next; and the result is the one statement that differs from the given one in that its literals are
filled with the answers in this order. So answering each literal with itself changes nothing, and
mapping literals to literals twice is mapping them once. -/
theorem replaceLiterals_in_order :
    (∀ {σ : Type} (answer : Value → StateM σ Expr) (s : Stmt) (state : σ),
      ∃ answers, s.literals.mapM answer state = (answers, (s.replaceLiterals answer state).2) ∧
        ∀ t, s.heads.Filled Head.literal? (answers.map Expr.heads) t.heads ↔
          t = (s.replaceLiterals answer state).1) ∧
      (∀ {σ : Type} (s : Stmt) (state : σ),
        s.replaceLiterals (fun v => pure (.literal v)) state = (s, state)) ∧
      ∀ (f g : Value → Value) (s : Stmt),
        (s.mapLiterals (.literal ∘ f)).mapLiterals (.literal ∘ g) =
          s.mapLiterals (.literal ∘ g ∘ f) := by
  refine ⟨?_, ?_, ?_⟩
  · intro σ answer s state
    obtain ⟨answers, hanswers, hfilled⟩ := answered answer s state
    refine ⟨answers, hanswers, fun t => ⟨fun ht => eq_of_filled ht hfilled, ?_⟩⟩
    rintro rfl
    exact hfilled
  · intro σ s state
    obtain ⟨answers, hanswers, hfilled⟩ :=
      answered (fun v => pure (.literal v)) s state
    obtain ⟨rfl, hstate⟩ := Prod.mk.inj ((mapM_pure Expr.literal _ state).symm.trans hanswers)
    exact Prod.ext (eq_of_filled hfilled s.filled_self) hstate.symm
  · intro f g s
    have hfirst := filled_mapLiterals (.literal ∘ f) s
    have hsecond := filled_mapLiterals (.literal ∘ g) (s.mapLiterals (.literal ∘ f))
    rw [literals_mapLiterals, List.map_map (g := Expr.literal ∘ g)] at hsecond
    -- all that the first mapping puts in are literals, so the second one fills these again
    refine eq_of_filled (hfirst.trans ?_ hsecond) (filled_mapLiterals (.literal ∘ g ∘ f) s)
    intro u hu
    simp only [List.mem_map] at hu
    obtain ⟨_, ⟨v, -, rfl⟩, rfl⟩ := hu
    exact ⟨.literal (f v), f v, rfl, rfl⟩

/-- Numbering the literals of a loop: its bounds come first, and an alternative comes last. -/
example (i : Variable) (a b c d e : Value) :
    (forLoop i (.literal a) (.literal b)
      (ifElse (.literal c) (expression (.literal d)) (expression (.literal e)))).replaceLiterals
        (fun _ n => (.literal (.int n), n + 1)) 1 =
      (forLoop i (.literal (.int 1)) (.literal (.int 2))
        (ifElse (.literal (.int 3)) (expression (.literal (.int 4)))
          (expression (.literal (.int 5)))), 6) := rfl

end Stmt

end Lumen.Bound
