import Lumen.Proofs.Binding.Joining
import Lumen.Proofs.Bound.Paths
import Lumen.Proofs.Tree.Visible

/-!
# Binding follows lexical scoping

The scopes of binding at a place hold the variables of the declarations in force there, in the order
in which names are looked up. So a name is bound to the variable of the declaration that it means;
and if it means none, to what the scopes around the statement give for it.
-/

namespace Lumen.Binding

open Lumen.Tree (Expr Stmt)

/-- Whether an expression is resolved by what names denote: names and targets of assignments are
replaced by variables that they denote. A name without a variable becomes zero; an assignment whose
target has no variable of its type becomes its source, and an operation whose operator has no
meaning becomes its first operand. -/
inductive Resolves (denotes : String → Variable → Prop) : Expr → Bound.Expr → Prop
  | literal {t : Token} : Resolves denotes (.literal t) (.literal (t.value.getD (.int 0)))
  | name {t : Token} {v : Variable} : t.isMissing = false → denotes t.text v →
    Resolves denotes (.name t) (.variable v)
  | unknown {t : Token} : t.isMissing = true ∨ (∀ v, ¬ denotes t.text v) →
    Resolves denotes (.name t) zero
  | assignment {x eq : Token} {source : Expr} {v : Variable} {e : Bound.Expr} :
    denotes x.text v → v.type = e.type → Resolves denotes source e →
      Resolves denotes (.assignment x eq source) (.assignment v e)
  | unassigned {x eq : Token} {source : Expr} {e : Bound.Expr} :
    (∀ v, denotes x.text v → v.type ≠ e.type) → Resolves denotes source e →
      Resolves denotes (.assignment x eq source) e
  | unary {op : Token} {source : Expr} {o : UnaryOperator} {e : Bound.Expr} :
    UnaryOperator.resolve? op.kind e.type = some o → Resolves denotes source e →
      Resolves denotes (.unary op source) (.unary o e)
  | operand {op : Token} {source : Expr} {e : Bound.Expr} :
    UnaryOperator.resolve? op.kind e.type = none → Resolves denotes source e →
      Resolves denotes (.unary op source) e
  | binary {left right : Expr} {op : Token} {o : BinaryOperator} {l r : Bound.Expr} :
    BinaryOperator.resolve? op.kind l.type r.type = some o → Resolves denotes left l →
      Resolves denotes right r → Resolves denotes (.binary left op right) (.binary l o r)
  | left {left right : Expr} {op : Token} {l r : Bound.Expr} :
    BinaryOperator.resolve? op.kind l.type r.type = none → Resolves denotes left l →
      Resolves denotes right r → Resolves denotes (.binary left op right) l
  | parenthesized {o c : Token} {inner : Expr} {e : Bound.Expr} :
    Resolves denotes inner e → Resolves denotes (.parenthesized o inner c) e

variable {denotes : String → Variable → Prop} {env : Environment} {v : Variable}

theorem resolves_expr (h : ∀ name v, env.lookup? name = some v ↔ denotes name v) :
    ∀ t : Expr, Resolves denotes t (expr env t).phrase
  | .literal _ => .literal
  | .name t => by
    rw [expr, name]
    split
    · next hmissing => exact .unknown (.inl hmissing)
    · next hmissing =>
      cases hlookup : env.lookup? t.text with
      | none =>
        refine .unknown (.inr fun v hv => ?_)
        cases hlookup.symm.trans ((h t.text v).mpr hv)
      | some v => exact .name (Bool.eq_false_iff.mpr hmissing) ((h t.text v).mp hlookup)
  | .assignment x eq source => by
    have hsource := resolves_expr h source
    rw [expr, assignment]
    dsimp only
    cases hlookup : env.lookup? x.text with
    | none =>
      refine .unassigned (fun v hv => ?_) hsource
      cases hlookup.symm.trans ((h x.text v).mpr hv)
    | some v =>
      dsimp only
      split
      · next htype => exact .assignment ((h x.text v).mp hlookup) htype.symm hsource
      · next htype =>
        refine .unassigned (fun w hw => ?_) hsource
        cases hlookup.symm.trans ((h x.text w).mpr hw)
        exact fun heq => htype heq.symm
  | .unary op source => by
    have hsource := resolves_expr h source
    rw [expr, unary]
    dsimp only
    split
    · next o ho => exact .unary ho hsource
    · next ho => exact .operand ho hsource
  | .binary left op right => by
    have hleft := resolves_expr h left
    have hright := resolves_expr h right
    rw [expr, binary]
    dsimp only
    split
    · next o ho => exact .binary ho hleft hright
    · next ho => exact .left ho hleft hright
  | .parenthesized _ inner _ => .parenthesized (resolves_expr h inner)

theorem Resolves.denoted {t : Expr} {e : Bound.Expr} (h : Resolves denotes t e)
    (hv : v ∈ e.reads ∨ v ∈ e.targets) : ∃ name, denotes name v := by
  induction h with
  | literal => rcases hv with hv | hv <;> cases hv
  | name _ hdenotes =>
    rcases hv with hv | hv
    · cases List.mem_singleton.mp hv
      exact ⟨_, hdenotes⟩
    · cases hv
  | unknown _ => rcases hv with hv | hv <;> cases hv
  | assignment hdenotes _ _ ih =>
    rcases hv with hv | hv
    · exact ih (.inl hv)
    · rcases List.mem_append.mp hv with hv | hv
      · exact ih (.inr hv)
      · cases List.mem_singleton.mp hv
        exact ⟨_, hdenotes⟩
  | unassigned _ _ ih => exact ih hv
  | unary _ _ ih => exact ih hv
  | operand _ _ ih => exact ih hv
  | binary _ _ _ ihl ihr =>
    rcases hv with hv | hv
    · rcases List.mem_append.mp hv with hv | hv
      · exact ihl (.inl hv)
      · exact ihr (.inl hv)
    · rcases List.mem_append.mp hv with hv | hv
      · exact ihl (.inr hv)
      · exact ihr (.inr hv)
  | left _ _ _ ihl _ => exact ihl hv
  | parenthesized _ ih => exact ih hv

def enter (s : State) : Stmt → State
  | .block .. => ⟨s.env.push, s.fresh⟩
  | .forLoop _ x _ _ _ _ _ => (declare ⟨s.env.push, s.fresh⟩ x .int false).state
  | _ => s

def stateAt : Path → State → Stmt → State
  | [], s, _ => s
  | i :: p, s, t =>
    match t.inner[i]? with
    | none => s
    | some c => stateAt p (stmts (enter s t) (t.inner.take i)).state c

variable {s : State} {t c : Stmt} {i : Nat} {p d : Path} {name : String}

theorem inner_stmt (s : State) (t : Stmt) :
    (stmt s t).phrase.inner = (stmts (enter s t) t.inner).phrase := by
  cases t <;> rfl

theorem getElem?_stmts {ts : List Stmt} (h : ts[i]? = some c) :
    (stmts s ts).phrase[i]? = some (stmt (stmts s (ts.take i)).state c).phrase := by
  induction ts generalizing s i with
  | nil => cases h
  | cons t ts ih =>
    cases i with
    | zero =>
      cases h
      rfl
    | succ i => exact ih h

theorem stmts_take (s : State) (ts : List Stmt) (i : Nat) :
    (stmts s (ts.take i)).phrase = (stmts s ts).phrase.take i := by
  induction ts generalizing s i with
  | nil => simp [stmts]
  | cons t ts ih =>
    cases i with
    | zero => rfl
    | succ i => exact congrArg ((stmt s t).phrase :: ·) (ih _ i)

theorem length_stmts (s : State) (ts : List Stmt) : (stmts s ts).phrase.length = ts.length := by
  induction ts generalizing s with
  | nil => rfl
  | cons t ts ih => exact congrArg (· + 1) (ih _)

theorem getElem?_inner (hc : t.inner[i]? = some c) : (stmt s t).phrase.inner[i]? =
    some (stmt (stmts (enter s t) (t.inner.take i)).state c).phrase := by
  rw [inner_stmt]
  exact getElem?_stmts hc

theorem at?_stmt : (stmt s t).phrase.at? p =
    (t.at? p).map fun u => (stmt (stateAt p s t) u).phrase := by
  induction p generalizing s t with
  | nil => rfl
  | cons i p ih =>
    rw [Bound.Stmt.at?, Stmt.at?, stateAt]
    cases hc : t.inner[i]? with
    | none =>
      have hnone : (stmt s t).phrase.inner[i]? = none := by
        rw [inner_stmt, List.getElem?_eq_none_iff, length_stmts]
        exact List.getElem?_eq_none_iff.mp hc
      rw [hnone]
      rfl
    | some c =>
      rw [getElem?_inner hc]
      exact ih

theorem operands_stmt (s : State) (t : Stmt) :
    (stmt s t).phrase.operands = t.operands.map fun e => (expr s.env e).phrase := by
  cases t <;> simp [stmt, Stmt.operands, Bound.Stmt.operands]

theorem own?_of_declared (h : t.declared? = some name) :
    ∃ v, (stmt s t).phrase.own? = some v ∧ v.name = name := by
  cases t with
  | declaration k x eq e =>
    rw [Stmt.declared?] at h
    split at h
    · cases h
    · cases h
      exact ⟨_, rfl, by rw [phrase_declare]⟩
  | forLoop k x eq lower toKw upper body =>
    rw [Stmt.declared?] at h
    split at h
    · cases h
    · cases h
      exact ⟨_, rfl, by rw [phrase_declare]⟩
  | _ => cases h

def variableAt (b : Bound.Stmt) (d : Path) : Variable :=
  ((b.at? d).bind Bound.Stmt.own?).getD default

/-- The variable of the first of some declarations that is one of a name. -/
def pick (b : Bound.Stmt) (sites : List Site) (name : String) : Option Variable :=
  (sites.find? (·.name = name)).map fun a => variableAt b a.path

section

variable {b c : Bound.Stmt} {l l' : List Site}

@[simp] theorem pick_nil : pick b [] name = none := rfl

@[simp] theorem pick_append : pick b (l ++ l') name = (pick b l name).or (pick b l' name) := by
  rw [pick, List.find?_append, Option.map_or, pick, pick]

theorem pick_under (hc : b.inner[i]? = some c) :
    pick b (l.map (Site.under i)) name = pick c l name := by
  have hat (d : Path) : variableAt b (i :: d) = variableAt c d := by
    rw [variableAt, variableAt, Bound.Stmt.at?, hc, Option.bind_some]
  have hname : (fun a : Site => decide (a.name = name)) ∘ Site.under i =
      fun a => decide (a.name = name) := rfl
  rw [pick, List.find?_map, hname, Option.map_map, pick]
  exact congrArg (Option.map · _) (funext fun a => hat a.path)

end

theorem current_declare (s : State) (x : Token) (type : Ty) (readOnly : Bool) :
    (declare s x type readOnly).state.env.current.find? name =
      (s.env.current.find? name).or
        (if x.isMissing = false ∧ x.text = name then some (declare s x type readOnly).phrase
        else none) := by
  rw [phrase_declare]
  cases hx : x.isMissing with
  | true =>
    rw [declare_of_missing hx]
    simp
  | false =>
    by_cases hfree : s.env.current.find? x.text = none
    · rw [declare_of_free hx hfree, Scope.find?_append]
      by_cases hname : x.text = name <;> simp [Scope.find?, hname]
    · rw [declare_of_taken hx hfree]
      by_cases hname : x.text = name
      · subst hname
        obtain ⟨v, hv⟩ := Option.ne_none_iff_exists'.mp hfree
        simp [hv]
      · simp [hname]

/-- What a declaration adds to the current scope is what it declares itself. -/
theorem pick_own (b : Bound.Stmt) {x : Token}
    (ht : t.declared? = if x.isMissing then none else some x.text) (hb : b.own? = some v) :
    pick b t.own name = if x.isMissing = false ∧ x.text = name then some v else none := by
  have hat : variableAt b [] = v := by rw [variableAt, Bound.Stmt.at?, Option.bind_some, hb]; rfl
  rw [Stmt.own, ht]
  cases x.isMissing with
  | true => simp
  | false =>
    by_cases hname : x.text = name <;> simp [pick, hname, hat]

/-- The current scope behind a statement has what it had before, and what the statement exports. -/
theorem current_stmt : ∀ (t : Stmt) (s : State),
    (stmt s t).state.env.current.find? name =
      (s.env.current.find? name).or (pick (stmt s t).phrase t.exports name)
  | .block .., s => by simp [stmt, Stmt.exports]
  | .declaration k x eq e, s => by
    rw [Stmt.exports, pick_own _ rfl rfl]
    exact current_declare ..
  | .ifThen k c t, s => by
    rw [Stmt.exports, pick_under rfl]
    exact current_stmt t s
  | .ifElse k c t el u, s => by
    have ht := current_stmt t s
    have hu := current_stmt u (stmt s t).state
    rw [Stmt.exports, pick_append, pick_under (i := 0) rfl, pick_under (i := 1) rfl,
      ← Option.or_assoc]
    exact hu.trans (congrArg (Option.or · _) ht)
  | .whileLoop k c t, s => by
    rw [Stmt.exports, pick_under rfl]
    exact current_stmt t s
  | .forLoop .., s => by simp [stmt, Stmt.exports]
  | .expression _, s => by simp [stmt, Stmt.exports]

theorem current_stmts {ts : List Stmt} {b : Bound.Stmt} {k : Nat}
    (hb : ∀ j u, (stmts s ts).phrase[j]? = some u → b.inner[k + j]? = some u) :
    (stmts s ts).state.env.current.find? name =
      (s.env.current.find? name).or (pick b (Stmt.exportsFrom k ts) name) := by
  induction ts generalizing s k with
  | nil => simp [stmts, Stmt.exportsFrom]
  | cons t ts ih =>
    have hrest : ∀ j u, (stmts (stmt s t).state ts).phrase[j]? = some u →
        b.inner[k + 1 + j]? = some u := by
      intro j u hu
      rw [Nat.add_assoc, Nat.add_comm 1 j]
      exact hb (j + 1) u hu
    have hfirst : b.inner[k]? = some (stmt s t).phrase := hb 0 _ rfl
    rw [Stmt.exportsFrom, pick_append, pick_under hfirst, ← Option.or_assoc, ← current_stmt]
    exact ih hrest

theorem outer_declare (s : State) (x : Token) (type : Ty) (readOnly : Bool) :
    (declare s x type readOnly).state.env.outer = s.env.outer := by
  rcases env_declare s x type readOnly with h | h
  · rw [h]
  · rw [h]

theorem outer_stmts (s : State) (ts : List Stmt) :
    (stmts s ts).state.env.outer = s.env.outer := by
  induction ts generalizing s with
  | nil => rfl
  | cons t ts ih => exact (ih _).trans (outer_stmt s t)

theorem enter_of_not_isScope (h : t.isScope = false) : enter s t = s := by
  cases t with
  | block => cases h
  | forLoop => cases h
  | _ => rfl

theorem own_of_inner (hc : t.inner[i]? = some c) (h : t.isScope = false) : t.own = [] := by
  cases t with
  | declaration => cases hc
  | forLoop => cases h
  | _ => rfl

theorem outer_enter (h : t.isScope = true) :
    (enter s t).env.outer = s.env.current :: s.env.outer := by
  cases t with
  | block => rfl
  | forLoop => exact outer_declare ..
  | _ => cases h

theorem current_enter (h : t.isScope = true) :
    (enter s t).env.current.find? name = pick (stmt s t).phrase t.own name := by
  cases t with
  | block => rfl
  | forLoop =>
    rw [pick_own _ rfl rfl, enter, current_declare]
    rfl
  | _ => cases h

theorem global?_cons (scope : Scope) (outer : List Scope) (name : String) :
    Scope.global? (scope :: outer) name = (scope.find? name).or (Scope.global? outer name) :=
  Environment.lookup?_mk ..

/-- The current scope at a part of a statement has what stands before the part; in a statement that
is no scope, that comes behind what it had before. -/
theorem current_part (hc : t.inner[i]? = some c) :
    (stmts (enter s t) (t.inner.take i)).state.env.current.find? name =
      (if t.isScope then none else s.env.current.find? name).or
        (pick (stmt s t).phrase (t.ahead i) name) := by
  have hparts : (stmts (enter s t) (t.inner.take i)).state.env.current.find? name =
      ((enter s t).env.current.find? name).or
        (pick (stmt s t).phrase (Stmt.exportsFrom 0 (t.inner.take i)) name) := by
    refine current_stmts fun j u hu => ?_
    rw [stmts_take, List.getElem?_take] at hu
    rw [inner_stmt, Nat.zero_add]
    split at hu
    · exact hu
    · cases hu
  rw [hparts, Stmt.ahead, pick_append]
  cases hscope : t.isScope with
  | true =>
    rw [current_enter hscope]
    rfl
  | false =>
    rw [enter_of_not_isScope hscope, own_of_inner hc hscope]
    rfl

/-- What a name means at a place: of the declarations in force there, those in scopes inside the
statement come before the current scope, and the others behind it. -/
theorem lookup?_stateAt {u : Stmt} (hp : t.at? p = some u) :
    (stateAt p s t).env.lookup? name =
      (pick (stmt s t).phrase (Stmt.inside p t) name).or ((s.env.current.find? name).or
        ((pick (stmt s t).phrase (Stmt.beside p t) name).or (Scope.global? s.env.outer name))) := by
  induction p generalizing s t with
  | nil => exact Environment.lookup?_mk ..
  | cons i p ih =>
    obtain ⟨c, hc, hp⟩ := Option.bind_eq_some_iff.mp hp
    have hpart := getElem?_inner (s := s) hc
    rw [stateAt, Stmt.inside, Stmt.beside, hc]
    dsimp only
    rw [ih hp, ← pick_under hpart, ← pick_under hpart, outer_stmts, current_part hc]
    cases hscope : t.isScope with
    | true =>
      have houter : (enter s t).env.outer = s.env.current :: s.env.outer := outer_enter hscope
      rw [houter, global?_cons]
      simp [Option.or_assoc]
    | false =>
      rw [enter_of_not_isScope hscope]
      simp [Option.or_assoc]

theorem declares_stmt (h : t.Declares d name) :
    ∃ v, (stmt s t).phrase.Declares d v ∧ v.name = name := by
  obtain ⟨u, hu, hname⟩ := h
  obtain ⟨v, hv, hvname⟩ := own?_of_declared (s := stateAt d s t) hname
  refine ⟨v, ⟨_, ?_, hv⟩, hvname⟩
  rw [at?_stmt, hu, Option.map_some]

theorem pick_eq_none_iff {b : Bound.Stmt} {sites : List Site} :
    pick b sites name = none ↔ ∀ d, ⟨d, name⟩ ∉ sites := by
  rw [pick, Option.map_eq_none_iff, List.find?_eq_none]
  constructor
  · intro h d hd
    exact h _ hd (decide_eq_true rfl)
  · intro h a ha hname
    refine h a.path ?_
    rwa [← of_decide_eq_true hname]

theorem pick_eq_some_iff {sites : List Site} (hsites : ∀ a ∈ sites, t.Declares a.path a.name) :
    pick (stmt s t).phrase sites name = some v ↔
      ∃ d, sites.find? (·.name = name) = some ⟨d, name⟩ ∧ (stmt s t).phrase.Declares d v := by
  have hat {d : Path} {w : Variable} (h : (stmt s t).phrase.Declares d w) :
      variableAt (stmt s t).phrase d = w := by
    obtain ⟨u, hu, hw⟩ := h
    rw [variableAt, hu, Option.bind_some, hw, Option.getD_some]
  rw [pick, Option.map_eq_some_iff]
  constructor
  · rintro ⟨⟨d, other⟩, hfind, hv⟩
    have hname : other = name := by simpa using List.find?_some hfind
    subst hname
    obtain ⟨w, hw, -⟩ := declares_stmt (s := s) (hsites _ (List.mem_of_find?_eq_some hfind))
    rw [hat hw] at hv
    exact ⟨d, hfind, hv ▸ hw⟩
  · rintro ⟨d, hfind, hdeclares⟩
    exact ⟨⟨d, name⟩, hfind, hat hdeclares⟩

variable {outer : List Scope} {fresh : Nat}

/-- Inside given scopes, a name is bound to the variable of the declaration that it means; and if it
means none, to what the scopes give for it. -/
theorem lookup?_iff {u : Stmt} (hp : t.at? p = some u) :
    (stateAt p ⟨.inside outer, fresh⟩ t).env.lookup? name = some v ↔
      (∃ d, t.Means p name d ∧ (stmt ⟨.inside outer, fresh⟩ t).phrase.Declares d v) ∨
        (∀ d, ¬ t.InForce p name d) ∧ Scope.global? outer name = some v := by
  have hvisible : ∀ a ∈ Stmt.visible p t, t.Declares a.path a.name :=
    fun a ha => ((Stmt.mem_visible hp).mp ha).declares
  have hlookup : (stateAt p ⟨.inside outer, fresh⟩ t).env.lookup? name =
      (pick (stmt ⟨.inside outer, fresh⟩ t).phrase (Stmt.visible p t) name).or
        (Scope.global? outer name) := by
    rw [lookup?_stateAt hp, Stmt.visible, pick_append, Option.or_assoc]
    rfl
  rw [hlookup, Option.or_eq_some_iff, pick_eq_some_iff hvisible, pick_eq_none_iff]
  simp only [Stmt.means_iff hp, Stmt.mem_visible hp]

theorem find?_scope_iff :
    (stmt ⟨.inside outer, fresh⟩ t).state.env.current.find? name = some v ↔
      ∃ d, t.Global name d ∧ (∀ d', t.Global name d' → ¬ d' < d) ∧
        (stmt ⟨.inside outer, fresh⟩ t).phrase.Declares d v := by
  have hexports : ∀ a ∈ t.exports, t.Declares a.path a.name :=
    fun a ha => (Stmt.mem_exports.mp ha).declares
  rw [current_stmt]
  refine (pick_eq_some_iff hexports).trans (exists_congr fun d => ?_)
  rw [Stmt.find?_exports_iff, and_assoc]

theorem find?_scope_eq_none_iff :
    (stmt ⟨.inside outer, fresh⟩ t).state.env.current.find? name = none ↔
      ∀ d, ¬ t.Global name d := by
  rw [current_stmt]
  refine pick_eq_none_iff.trans (forall_congr' fun d => ?_)
  rw [Stmt.mem_exports]

end Lumen.Binding
