import Lumen.Proofs.Binding.Redeclaring
import Lumen.Proofs.Session.Reachable
import Lumen.Text.Identifier.Table

/-!
# Lexical scoping across submissions

A submission sees the global declarations of the submissions before it. What a name denotes in it is
the variable of the declaration that the name means; and if the name means none, that of its first
global declaration in the newest submission before that has one. The variables of all declarations
are different, so a declaration that comes too late, of which there is a complaint, is never used.
-/

namespace Lumen

namespace Submission

def tree (c : Submission) : Tree.Stmt := c.source.program.statement

/-- Whether a variable is that of the first global declaration of a name in a submission. -/
def HasGlobal (c : Submission) (name : String) (v : Variable) : Prop :=
  ∃ d, c.tree.Global name d ∧ (∀ d', c.tree.Global name d' → ¬ d' < d) ∧ c.bound.Declares d v

/-- Whether a variable is that of a name in the newest submission of a chain that declares the name
globally. -/
def Inherited (chain : List Submission) (name : String) (v : Variable) : Prop :=
  ∃ newer c older, chain = newer ++ c :: older ∧
    (∀ c' ∈ newer, ∀ d, ¬ c'.tree.Global name d) ∧ c.HasGlobal name v

/-- Whether a name denotes a variable at a place in a submission, behind the submissions of a
chain. -/
def Denotes (chain : List Submission) (c : Submission) (p : Path) (name : String) (v : Variable) :
    Prop :=
  (∃ d, c.tree.Means p name d ∧ c.bound.Declares d v) ∨
    (∀ d, ¬ c.tree.InForce p name d) ∧ Inherited chain name v

/-- Whether the expressions at a place in a submission are resolved by what names denote there. -/
def ResolvedAt (chain : List Submission) (c : Submission) (p : Path) : Prop :=
  Option.Rel
    (fun t b => List.Forall₂ (Binding.Resolves (Denotes chain c p)) t.operands b.operands)
    (c.tree.at? p) (c.bound.at? p)

/-- Whether submissions, given newest first, are each bound behind the ones before it, with
variables numbered below a number. Other submissions may take numbers in between. -/
inductive Grown : List Submission → Nat → Prop
  | nil {fresh : Nat} : Grown [] fresh
  | cons {chain : List Submission} {fresh : Nat} (source : Source) : Grown chain fresh →
    Grown ((ofSource (scopes chain) fresh source).submission :: chain)
      (ofSource (scopes chain) fresh source).fresh
  | skip {chain : List Submission} {m n : Nat} : m ≤ n → Grown chain m → Grown chain n

/-- Whether a submission is bound as lexical scoping has it, behind the submissions of a chain. -/
structure LexicallyScoped (chain : List Submission) (c : Submission) : Prop where
  resolved : ∀ p, ResolvedAt chain c p
  declared : ∀ d name, c.tree.Declares d name → ∃ v, c.bound.Declares d v ∧ v.name = name
  distinct : ∀ {i j : Nat} {c₁ c₂ : Submission} {d₁ d₂ : Path} {v₁ v₂ : Variable},
    (c :: chain)[i]? = some c₁ → (c :: chain)[j]? = some c₂ → c₁.bound.Declares d₁ v₁ →
      c₂.bound.Declares d₂ v₂ → v₁.id = v₂.id → i = j ∧ d₁ = d₂
  complained : ∀ {name : String} {span : Span}, ⟨span, .alreadyDeclared name⟩ ∈ c.faults ↔
    ∃ d t x, c.tree.at? d = some t ∧ t.declaredToken? = some x ∧ x.span = span ∧
      t.declared? = some name ∧ c.tree.Redeclares d
  redeclared : ∀ {c' : Submission} {d p : Path} {v : Variable} {b : Bound.Stmt} {e : Bound.Expr},
    c' ∈ c :: chain → c'.tree.Redeclares d → c'.bound.Declares d v → c.bound.at? p = some b →
      e ∈ b.operands → v ∉ e.reads ∧ v ∉ e.targets

variable {chain : List Submission} {fresh : Nat} {c : Submission} {name : String} {v : Variable}

theorem inherited_cons : Inherited (c :: chain) name v ↔
    c.HasGlobal name v ∨ (∀ d, ¬ c.tree.Global name d) ∧ Inherited chain name v := by
  constructor
  · rintro ⟨newer, c', older, hchain, hnewer, hglobal⟩
    cases newer with
    | nil =>
      cases hchain
      exact .inl hglobal
    | cons c newer =>
      cases hchain
      obtain ⟨hc, hnewer⟩ := List.forall_mem_cons.mp hnewer
      exact .inr ⟨hc, newer, c', older, rfl, hnewer, hglobal⟩
  · rintro (hglobal | ⟨hc, newer, c', older, rfl, hnewer, hglobal⟩)
    · exact ⟨[], c, chain, rfl, List.forall_mem_nil _, hglobal⟩
    · exact ⟨c :: newer, c', older, rfl, List.forall_mem_cons.mpr ⟨hc, hnewer⟩, hglobal⟩

theorem Grown.global?_iff (h : Grown chain fresh) :
    Scope.global? (scopes chain) name = some v ↔ Inherited chain name v := by
  induction h with
  | nil =>
    refine iff_of_false nofun ?_
    rintro ⟨newer, c, older, hchain, -⟩
    simp at hchain
  | @cons chain fresh source _ ih =>
    rw [scopes, List.map_cons, Binding.global?_cons, Option.or_eq_some_iff, inherited_cons, ← ih]
    exact or_congr Binding.find?_scope_iff (and_congr_left' Binding.find?_scope_eq_none_iff)
  | skip _ _ ih => exact ih

theorem fresh_le_ofSource (outer : List Scope) (fresh : Nat) (source : Source) :
    fresh ≤ (ofSource outer fresh source).fresh := by
  have hnumbered := Binding.stmt_numberedFrom ⟨.inside outer, fresh⟩ source.program.statement
  exact Nat.le.intro hnumbered.2.symm

theorem Grown.numbered (h : Grown chain fresh) :
    ((chain.flatMap (·.bound.introduced)).map (·.id)).Nodup ∧
      ∀ v ∈ chain.flatMap (·.bound.introduced), v.id < fresh := by
  induction h with
  | nil => exact ⟨.nil, List.forall_mem_nil _⟩
  | @cons chain fresh source _ ih =>
    obtain ⟨hnodup, hbelow⟩ := ih
    have hnew : Binding.NumberedFrom fresh
        (ofSource (scopes chain) fresh source).submission.bound.introduced
        (ofSource (scopes chain) fresh source).fresh :=
      Binding.stmt_numberedFrom ⟨.inside (scopes chain), fresh⟩ source.program.statement
    have hle := fresh_le_ofSource (scopes chain) fresh source
    rw [List.flatMap_cons, List.map_append, List.nodup_append]
    refine ⟨⟨hnew.nodup_ids, hnodup, ?_⟩, List.forall_mem_append.mpr ⟨?_, ?_⟩⟩
    · rintro m hm n hn rfl
      obtain ⟨v, hv, rfl⟩ := List.mem_map.mp hm
      obtain ⟨w, hw, hid⟩ := List.mem_map.mp hn
      have hlow := (hnew.bounds v hv).1
      have hhigh := hbelow w hw
      omega
    · exact fun v hv => (hnew.bounds v hv).2
    · exact fun v hv => Nat.lt_of_lt_of_le (hbelow v hv) hle
  | skip hle _ ih => exact ⟨ih.1, fun v hv => Nat.lt_of_lt_of_le (ih.2 v hv) hle⟩

/-- If all variables of some submissions have different numbers, a number belongs to one place. -/
theorem place_unique {cs : List Submission} {i j : Nat} {c₁ c₂ : Submission} {d₁ d₂ : Path}
    {v₁ v₂ : Variable} (hnodup : ((cs.flatMap (·.bound.introduced)).map (·.id)).Nodup)
    (hi : cs[i]? = some c₁) (hj : cs[j]? = some c₂) (h₁ : c₁.bound.Declares d₁ v₁)
    (h₂ : c₂.bound.Declares d₂ v₂) (hid : v₁.id = v₂.id) : i = j ∧ d₁ = d₂ := by
  have hmem {i : Nat} {c : Submission} {d : Path} {v : Variable} (hi : cs[i]? = some c)
      (h : c.bound.Declares d v) : v ∈ cs.flatMap (·.bound.introduced) :=
    List.mem_flatMap.mpr ⟨c, List.mem_of_getElem? hi, h.mem_introduced⟩
  have hv : v₁ = v₂ := List.inj_on_of_nodup_map hnodup (hmem hi h₁) (hmem hj h₂) hid
  subst hv
  have hall : ((cs.map (·.bound)).flatMap Bound.Stmt.introduced).Nodup := by
    rw [List.flatMap_map]
    exact .of_map _ hnodup
  have hij : i = j := by
    refine Bound.Stmt.index_unique hall ?_ ?_ h₁.mem_introduced h₂.mem_introduced
    · rw [List.getElem?_map, hi, Option.map_some]
    · rw [List.getElem?_map, hj, Option.map_some]
  subst hij
  cases hi.symm.trans hj
  have hpart : c₁.bound.introduced.Nodup :=
    (List.nodup_flatMap.mp (.of_map _ hnodup)).1 c₁ (List.mem_of_getElem? hi)
  exact ⟨rfl, h₁.path_unique hpart h₂⟩

theorem Grown.resolvedAt (h : Grown chain fresh) (source : Source) (p : Path) :
    ResolvedAt chain (ofSource (scopes chain) fresh source).submission p := by
  let start : Binding.State := ⟨.inside (scopes chain), fresh⟩
  generalize hc : (ofSource (scopes chain) fresh source).submission = c
  have hat : c.bound.at? p =
      (c.tree.at? p).map fun u => (Binding.stmt (Binding.stateAt p start c.tree) u).phrase :=
    hc ▸ Binding.at?_stmt
  rw [ResolvedAt, hat]
  cases hu : c.tree.at? p with
  | none => exact .none
  | some u =>
    have hlookup (name : String) (v : Variable) :
        (Binding.stateAt p start c.tree).env.lookup? name = some v ↔ Denotes chain c p name v := by
      subst hc
      exact (Binding.lookup?_iff hu).trans (or_congr_right (and_congr_right' h.global?_iff))
    refine .some ?_
    rw [Binding.operands_stmt, List.forall₂_map_right_iff, List.forall₂_same]
    exact fun e _ => Binding.resolves_expr hlookup e

/-- What a submission reads or assigns is the variable of a declaration that does not come too
late. -/
theorem Denotes.exists_place {p : Path} (h : Denotes chain c p name v) :
    ∃ (i : Nat) (c' : Submission) (d : Path), (c :: chain)[i]? = some c' ∧
      c'.bound.Declares d v ∧ ¬ c'.tree.Redeclares d := by
  rcases h with ⟨d, hmeans, hv⟩ | ⟨-, newer, c', older, rfl, -, d, hglobal, hfirst, hv⟩
  · exact ⟨0, c, d, rfl, hv, hmeans.not_redeclares⟩
  · refine ⟨newer.length + 1, c', d, ?_, hv, Tree.Stmt.not_redeclares_of_first hglobal hfirst⟩
    simp

theorem Denotes.exists_of_used {p : Path} {b : Bound.Stmt} {e : Bound.Expr}
    (h : ResolvedAt chain c p) (hb : c.bound.at? p = some b) (he : e ∈ b.operands)
    (hv : v ∈ e.reads ∨ v ∈ e.targets) : ∃ name, Denotes chain c p name v := by
  rw [ResolvedAt, hb] at h
  generalize c.tree.at? p = t at h
  cases h with
  | some hall =>
    obtain ⟨i, hi, rfl⟩ := List.mem_iff_getElem.mp he
    have hlength := hall.length_eq
    exact (hall.get (hlength ▸ hi) hi).denoted hv

/-- Every statement tree is bound as lexical scoping has it, behind every chain of submissions. -/
theorem lexicallyScoped (h : Grown chain fresh) (source : Source) :
    LexicallyScoped chain (ofSource (scopes chain) fresh source).submission := by
  have hgrown : Grown ((ofSource (scopes chain) fresh source).submission :: chain)
      (ofSource (scopes chain) fresh source).fresh := .cons source h
  have hplaces := hgrown.numbered.1
  have hresolved := h.resolvedAt source
  refine ⟨hresolved, fun d name => Binding.declares_stmt, place_unique hplaces,
    Binding.alreadyDeclared_mem_faults, ?_⟩
  intro c' d p v b e hc' hd hv hb he
  obtain ⟨i, hi⟩ := List.mem_iff_getElem?.mp hc'
  refine not_or.mp fun hused => ?_
  obtain ⟨name, hname⟩ := Denotes.exists_of_used (hresolved p) hb he hused
  obtain ⟨j, c'', d', hj, hv', hearly⟩ := hname.exists_place
  obtain ⟨rfl, rfl⟩ := place_unique hplaces hi hj hv hv' rfl
  cases hi.symm.trans hj
  exact hearly hd

open scoped Xid in
/-- A block that uses a global variable, hides it with a loop variable and declares another one
twice. -/
theorem lexicallyScoped_of_hidden_global :
    let first := ofSource (scopes []) 0 (.parse "var x = 1".toList)
    let second := (ofSource (scopes [first.submission]) first.fresh
      (.parse "\x7b let y = x var y = x for x = x to y x = x + y \x7d".toList)).submission
    LexicallyScoped [first.submission] second ∧
      (second.bound.at? [2]).map (·.operands.flatMap Bound.Expr.reads) =
        some [⟨0, "x", .int, false⟩, ⟨1, "y", .int, true⟩] ∧
      (second.bound.at? [2, 0]).map (·.operands.flatMap Bound.Expr.reads) =
        some [⟨3, "x", .int, false⟩, ⟨1, "y", .int, true⟩] := by
  intro first second
  refine ⟨lexicallyScoped (.cons _ .nil) _, ?_, ?_⟩
  · decide +kernel
  · decide +kernel

end Submission

namespace Session

variable {s : Session}

theorem grown_of_chainFrom? {previous : Option Nat} {chain : List Submission}
    (h : ∀ m ∈ s.members, Submission.Grown m.visible s.fresh)
    (hchain : s.chainFrom? previous = some chain) : Submission.Grown chain s.fresh := by
  cases previous with
  | none =>
    cases hchain
    exact .nil
  | some i =>
    obtain ⟨m, hm, rfl⟩ := Option.map_eq_some_iff.mp hchain
    exact h m (List.mem_of_getElem? hm)

/-- The chains of a session have grown, so lexical scoping holds in every session. -/
theorem Reachable.grown [Xid] (h : s.Reachable) :
    ∀ m ∈ s.members, Submission.Grown m.visible s.fresh := by
  induction h with
  | empty => exact List.forall_mem_nil _
  | @submit s budget previous text r _ hr ih =>
    obtain ⟨chain, e, hchain, -, rfl⟩ := submit_eq_some hr
    have hgrown : Submission.Grown chain s.fresh := grown_of_chainFrom? ih hchain
    have hnew : Submission.Grown ((Submission.compile chain s.fresh text).submission :: chain)
        (Submission.compile chain s.fresh text).fresh := .cons (.parse text) hgrown
    refine List.forall_mem_append.mpr ⟨fun m hm => ?_, List.forall_mem_singleton.mpr hnew⟩
    exact .skip (Submission.fresh_le_ofSource ..) (ih m hm)
  | @rerun s budget i r _ hr ih =>
    obtain ⟨m, e, -, -, rfl⟩ := rerun_eq_some hr
    exact ih
  | clear _ ih => exact ih

end Session

end Lumen
