import Lumen.Proofs.Binding.Assignment
import Lumen.Proofs.Bound.Writes

/-!
# Binding confines assignments

Where binding has no complaint, an assignment is to a variable that its name means and that is
declared with `var`. So it was declared by the statement itself, or it is what the scopes around the
statement give for the name. The variables of a statement are numbered one after the other.
-/

namespace Lumen

/-- What given scopes mean by a name, the innermost scope first. -/
def Scope.global? (outer : List Scope) (name : String) : Option Variable :=
  outer.findSome? (·.find? name)

namespace Binding

open Lumen.Tree (Expr Stmt)

/-- An assignment without complaint is to a variable that its name means and that is not fixed. -/
theorem assignment_of_clean {env : Environment} {x eq : Token} {source : Expr} {e : Bound.Expr}
    (h : (assignment env x eq source e).faults = []) :
    ∃ v, env.lookup? v.name = some v ∧ v.readOnly = false ∧
      (assignment env x eq source e).phrase = .assignment v e := by
  rw [assignment] at h ⊢
  cases hlookup : env.lookup? x.text with
  | none =>
    rw [hlookup] at h
    cases h
  | some v =>
    obtain ⟨scope, -, hfind⟩ := List.exists_of_findSome?_eq_some hlookup
    have hname : v.name = x.text := by simpa using List.find?_some hfind
    simp only [hlookup] at h ⊢
    split at h
    · next htype =>
      refine ⟨v, hname ▸ hlookup, ?_, if_pos htype ▸ rfl⟩
      cases hfixed : v.readOnly with
      | false => rfl
      | true => simp [hfixed] at h
    · next htype => simp at h

/-- What an expression without complaint assigns is what its name means, and is not fixed. -/
theorem mem_targets_expr {env : Environment} {v : Variable} : ∀ {t : Expr},
    (expr env t).faults = [] → v ∈ (expr env t).phrase.targets →
      env.lookup? v.name = some v ∧ v.readOnly = false
  | .literal _, _, h => nomatch h
  | .name t, _, h => by
    rw [expr, name] at h
    split at h
    · cases h
    · split at h <;> cases h
  | .assignment x eq source, hclean, h => by
    rw [expr] at hclean h
    obtain ⟨hsource, hassigned⟩ := List.append_eq_nil_iff.mp hclean
    obtain ⟨w, hw, hfree, hphrase⟩ := assignment_of_clean hassigned
    dsimp only at h
    rw [hphrase] at h
    rcases List.mem_append.mp h with h | h
    · exact mem_targets_expr hsource h
    · cases List.mem_singleton.mp h
      exact ⟨hw, hfree⟩
  | .unary op source, hclean, h => by
    rw [expr, unary] at hclean h
    refine mem_targets_expr (t := source) (List.append_eq_nil_iff.mp hclean).1 ?_
    dsimp only at h
    split at h <;> exact h
  | .binary left op right, hclean, h => by
    rw [expr, binary] at hclean h
    obtain ⟨hclean, -⟩ := List.append_eq_nil_iff.mp hclean
    obtain ⟨hleft, hright⟩ := List.append_eq_nil_iff.mp hclean
    dsimp only at h
    split at h
    · rcases List.mem_append.mp h with h | h
      · exact mem_targets_expr hleft h
      · exact mem_targets_expr hright h
    · exact mem_targets_expr hleft h
  | .parenthesized _ inner _, hclean, h => mem_targets_expr (t := inner) hclean h

/-- Whether the scopes of an environment hold variables of a list only, down to given scopes. -/
structure Inside (outer : List Scope) (own : List Variable) (env : Environment) : Prop where
  current : ∀ v ∈ env.current, v ∈ own
  exists_inner : ∃ inner, env.outer = inner ++ outer ∧ ∀ scope ∈ inner, ∀ v ∈ scope, v ∈ own

/-- What may be assigned inside given scopes: what is not fixed and is declared there or is what the
scopes give for its name. -/
def Assignable (outer : List Scope) (own : List Variable) (v : Variable) : Prop :=
  v.readOnly = false ∧ (v ∈ own ∨ Scope.global? outer v.name = some v)

variable {outer : List Scope} {own : List Variable}

namespace Inside

theorem start (outer : List Scope) (own : List Variable) : Inside outer own (.inside outer) :=
  ⟨List.forall_mem_nil _, [], rfl, List.forall_mem_nil _⟩

theorem push {env : Environment} (h : Inside outer own env) : Inside outer own env.push := by
  obtain ⟨inner, houter, hinner⟩ := h.exists_inner
  refine ⟨List.forall_mem_nil _, env.current :: inner, ?_, ?_⟩
  · exact congrArg (env.current :: ·) houter
  · exact List.forall_mem_cons.mpr ⟨h.current, hinner⟩

theorem of_current {env env' : Environment} (h : Inside outer own env)
    (houter : env'.outer = env.outer) (hcurrent : ∀ v ∈ env'.current, v ∈ own) :
    Inside outer own env' :=
  ⟨hcurrent, houter ▸ h.exists_inner⟩

theorem declare {s : State} {x : Token} {type : Ty} {readOnly : Bool}
    (h : Inside outer own s.env) (hv : (declare s x type readOnly).phrase ∈ own) :
    Inside outer own (declare s x type readOnly).state.env := by
  rcases env_declare s x type readOnly with henv | henv
  · exact henv ▸ h
  · rw [henv]
    refine h.of_current rfl ?_
    exact List.forall_mem_append.mpr ⟨h.current, List.forall_mem_singleton.mpr hv⟩

theorem mem_or_global {env : Environment} {v : Variable} (h : Inside outer own env)
    (hv : env.lookup? v.name = some v) : v ∈ own ∨ Scope.global? outer v.name = some v := by
  obtain ⟨inner, houter, hinner⟩ := h.exists_inner
  rw [Environment.lookup?, houter, ← List.cons_append, List.findSome?_append] at hv
  cases hfound : (env.current :: inner).findSome? (·.find? v.name) with
  | none =>
    rw [hfound] at hv
    exact .inr hv
  | some w =>
    rw [hfound] at hv
    cases hv
    obtain ⟨scope, hscope, hfind⟩ := List.exists_of_findSome?_eq_some hfound
    have hmem := List.mem_of_find?_eq_some hfind
    exact .inl ((List.forall_mem_cons.mpr ⟨h.current, hinner⟩) scope hscope v hmem)

theorem expr {env : Environment} {t : Expr} (h : Inside outer own env)
    (hclean : (Binding.expr env t).faults = []) :
    ∀ v ∈ (Binding.expr env t).phrase.targets, Assignable outer own v := by
  intro v hv
  obtain ⟨hlookup, hfree⟩ := mem_targets_expr hclean hv
  exact ⟨hfree, h.mem_or_global hlookup⟩

theorem exprOfType {env : Environment} {t : Expr} {type : Ty} (h : Inside outer own env)
    (hclean : (exprOfType env t type).faults = []) :
    ∀ v ∈ (Binding.exprOfType env t type).phrase.targets, Assignable outer own v := by
  rw [phrase_exprOfType]
  refine h.expr ?_
  rw [Binding.exprOfType] at hclean
  split at hclean
  · exact hclean
  · exact (List.append_eq_nil_iff.mp hclean).1

end Inside

theorem declared_subset_introduced : ∀ {t : Bound.Stmt} {v : Variable},
    v ∈ t.declared → v ∈ t.introduced
  | .block _, _, h => nomatch h
  | .declaration .., _, h => h
  | .expression _, _, h => nomatch h
  | .ifThen _ t, _, h => declared_subset_introduced (t := t) h
  | .ifElse _ t u, _, h => by
    rcases List.mem_append.mp h with h | h
    · exact List.mem_append_left _ (declared_subset_introduced h)
    · exact List.mem_append_right _ (declared_subset_introduced h)
  | .whileLoop _ t, _, h => declared_subset_introduced (t := t) h
  | .forLoop .., _, h => nomatch h
  | .jump _, _, h => nomatch h
  | .jumpIf .., _, h => nomatch h
  | .label _, _, h => nomatch h

theorem Inside.stmt {s : State} {t : Stmt} (h : Inside outer own s.env)
    (hown : ∀ v ∈ (stmt s t).phrase.introduced, v ∈ own) :
    Inside outer own (stmt s t).state.env := by
  refine h.of_current (outer_stmt s t) fun v hv => ?_
  rcases mem_current_stmt hv with hv | hv
  · exact h.current v hv
  · exact hown v (declared_subset_introduced hv)

mutual

theorem stmt_assignsOnly : ∀ {s : State} {t : Stmt}, Inside outer own s.env →
    (∀ v ∈ (stmt s t).phrase.introduced, v ∈ own) → (stmt s t).faults = [] →
      (stmt s t).phrase.AssignsOnly (Assignable outer own)
  | s, .block _ body _, h, hown, hclean =>
    stmts_assignsOnly (s := ⟨s.env.push, s.fresh⟩) h.push hown hclean
  | s, .declaration k x _ source, h, _, hclean =>
    h.expr (List.append_eq_nil_iff.mp hclean).1
  | s, .ifThen _ condition consequence, h, hown, hclean => by
    obtain ⟨hcondition, hthen⟩ := List.append_eq_nil_iff.mp hclean
    exact ⟨h.exprOfType hcondition, stmt_assignsOnly h hown hthen⟩
  | s, .ifElse _ condition consequence _ alternative, h, hown, hclean => by
    obtain ⟨hclean, helse⟩ := List.append_eq_nil_iff.mp hclean
    obtain ⟨hcondition, hthen⟩ := List.append_eq_nil_iff.mp hclean
    obtain ⟨hownThen, hownElse⟩ := List.forall_mem_append.mp hown
    exact ⟨h.exprOfType hcondition, stmt_assignsOnly h hownThen hthen,
      stmt_assignsOnly (h.stmt hownThen) hownElse helse⟩
  | s, .whileLoop _ condition body, h, hown, hclean => by
    obtain ⟨hcondition, hbody⟩ := List.append_eq_nil_iff.mp hclean
    exact ⟨h.exprOfType hcondition, stmt_assignsOnly h hown hbody⟩
  | s, .forLoop _ x _ lower _ upper body, h, hown, hclean => by
    obtain ⟨hclean, hbody⟩ := List.append_eq_nil_iff.mp hclean
    obtain ⟨hclean, -⟩ := List.append_eq_nil_iff.mp hclean
    obtain ⟨hlower, hupper⟩ := List.append_eq_nil_iff.mp hclean
    obtain ⟨hv, hown⟩ := List.forall_mem_cons.mp hown
    have hfree : (declare ⟨s.env.push, s.fresh⟩ x .int false).phrase.readOnly = false := by
      rw [phrase_declare]
    exact ⟨⟨hfree, .inl hv⟩, h.exprOfType hlower, h.exprOfType hupper,
      stmt_assignsOnly (h.push.declare hv) hown hbody⟩
  | s, .expression source, h, _, hclean => h.expr hclean

theorem stmts_assignsOnly : ∀ {s : State} {ts : List Stmt}, Inside outer own s.env →
    (∀ v ∈ Bound.Stmt.introducedOfList (stmts s ts).phrase, v ∈ own) → (stmts s ts).faults = [] →
      Bound.Stmt.AssignsOnlyList (Assignable outer own) (stmts s ts).phrase
  | _, [], _, _, _ => trivial
  | s, t :: ts, h, hown, hclean => by
    obtain ⟨hfirst, hrest⟩ := List.append_eq_nil_iff.mp hclean
    obtain ⟨hownFirst, hownRest⟩ := List.forall_mem_append.mp hown
    exact ⟨stmt_assignsOnly h hownFirst hfirst,
      stmts_assignsOnly (h.stmt hownFirst) hownRest hrest⟩

end

/-- Whether variables are numbered one after the other, from a number on and up to another one. -/
def NumberedFrom (fresh : Nat) (vs : List Variable) (fresh' : Nat) : Prop :=
  vs.map (·.id) = List.range' fresh vs.length ∧ fresh' = fresh + vs.length

theorem NumberedFrom.append {m n k : Nat} {a b : List Variable} (ha : NumberedFrom m a n)
    (hb : NumberedFrom n b k) : NumberedFrom m (a ++ b) k := by
  obtain ⟨hida, rfl⟩ := ha
  obtain ⟨hidb, rfl⟩ := hb
  refine ⟨?_, by rw [List.length_append, Nat.add_assoc]⟩
  rw [List.map_append, hida, hidb, List.length_append, List.range'_append_1]

theorem NumberedFrom.nodup_ids {m n : Nat} {vs : List Variable} (h : NumberedFrom m vs n) :
    (vs.map (·.id)).Nodup := by
  rw [h.1]
  exact List.nodup_range'

theorem NumberedFrom.nodup {m n : Nat} {vs : List Variable} (h : NumberedFrom m vs n) :
    vs.Nodup :=
  List.Nodup.of_map (·.id) h.nodup_ids

theorem NumberedFrom.bounds {m n : Nat} {vs : List Variable} (h : NumberedFrom m vs n) :
    ∀ v ∈ vs, m ≤ v.id ∧ v.id < n := by
  obtain ⟨hids, rfl⟩ := h
  intro v hv
  have hid : v.id ∈ vs.map (·.id) := List.mem_map_of_mem hv
  rw [hids] at hid
  exact List.mem_range'_1.mp hid

theorem fresh_declare (s : State) (x : Token) (type : Ty) (readOnly : Bool) :
    (declare s x type readOnly).state.fresh = s.fresh + 1 := by
  rw [declare]
  split
  · rfl
  · split <;> rfl

theorem declare_numberedFrom (s : State) (x : Token) (type : Ty) (readOnly : Bool) :
    NumberedFrom s.fresh [(declare s x type readOnly).phrase]
      (declare s x type readOnly).state.fresh := by
  rw [phrase_declare, fresh_declare]
  exact ⟨rfl, rfl⟩

mutual

theorem stmt_numberedFrom : ∀ (s : State) (t : Stmt),
    NumberedFrom s.fresh (stmt s t).phrase.introduced (stmt s t).state.fresh
  | s, .block _ body _ => stmts_numberedFrom ⟨s.env.push, s.fresh⟩ body
  | s, .declaration .. => declare_numberedFrom s ..
  | s, .ifThen _ _ consequence => stmt_numberedFrom s consequence
  | s, .ifElse _ _ consequence _ alternative =>
    (stmt_numberedFrom s consequence).append (stmt_numberedFrom _ alternative)
  | s, .whileLoop _ _ body => stmt_numberedFrom s body
  | s, .forLoop _ x _ _ _ _ body =>
    (declare_numberedFrom ⟨s.env.push, s.fresh⟩ x .int false).append (stmt_numberedFrom _ body)
  | _, .expression _ => ⟨rfl, rfl⟩

theorem stmts_numberedFrom : ∀ (s : State) (ts : List Stmt),
    NumberedFrom s.fresh (Bound.Stmt.introducedOfList (stmts s ts).phrase)
      (stmts s ts).state.fresh
  | _, [] => ⟨rfl, rfl⟩
  | s, t :: ts => (stmt_numberedFrom s t).append (stmts_numberedFrom _ ts)

end

end Binding

end Lumen
