import Lumen.Proofs.Binding.Renumbering
import Lumen.Proofs.Bound.Meaning
import Lumen.Proofs.Bound.Recording
import Lumen.Proofs.Session.Writes
import Lumen.Text.Identifier.Table

/-!
# A chain of submissions is one block

Submissions that are made one after the other, each behind the ones before it, declare their
variables in scopes of their own. If no name is declared in two of these scopes, then the block of
all their statements means the same: it is bound to the same statements, and running it is running
them one after the other.
-/

namespace Lumen

open Bound.Stmt (execList)

def Evaluated.ofOutcome : Outcome (Option Value) → Evaluated
  | .done value store => ⟨.finished value, store⟩
  | .fault cause store => ⟨.faulted cause, store⟩

namespace Submission

/-- Sources bound one after the other, each behind the ones before it. -/
def link (chain : List Submission) (fresh : Nat) : List Source → List Submission
  | [] => []
  | source :: sources =>
    let c := ofSource (scopes chain) fresh source
    c.submission :: link (c.submission :: chain) c.fresh sources

/-- Evaluates submissions one after the other on one store, up to the first one that does not run to
its end. The value is that of the last submission that has one. -/
def evaluateAll (budget : Nat) (last : Option Value) (store : Store) :
    List Submission → Option Evaluated
  | [] => some ⟨.finished last, store⟩
  | c :: cs =>
    (c.evaluate budget store).bind fun e =>
      match e.verdict with
      | .finished value => evaluateAll budget (value.or last) e.store cs
      | _ => some e

/-- Whether two submissions declare different names in their scopes. -/
def Apart (c c' : Submission) : Prop := ∀ v ∈ c.scope, ∀ w ∈ c'.scope, v.name ≠ w.name

section

variable {chain : List Submission} {others : Scope} {fresh : Nat} {source : Source}

open Binding (Joins Joined Agree)

theorem joins_cons (hjoins : Joins (scopes chain) [[]] others) {c : Submission}
    (hapart : ∀ v ∈ c.scope, others.find? v.name = none) :
    Joins (scopes (c :: chain)) [[]] (others ++ c.scope) := by
  intro name
  have hcons : Scope.global? (scopes (c :: chain)) name =
      (c.scope.find? name).or (Scope.global? (scopes chain) name) :=
    Environment.lookup?_mk c.scope (scopes chain) name
  rw [hcons, hjoins, Scope.find?_append]
  cases hfind : c.scope.find? name with
  | none => rw [Option.none_or, Option.or_none]
  | some v =>
    obtain ⟨hmem, hname⟩ := Scope.name_of_find? hfind
    rw [← hname, hapart v hmem]
    rfl

theorem ofSource_agree (hjoins : Joins (scopes chain) [[]] others)
    (hapart : ∀ v ∈ (ofSource (scopes chain) fresh source).submission.scope,
      others.find? v.name = none) :
    Binding.stmt ⟨⟨others, [[]]⟩, fresh⟩ source.program.statement =
      let c := ofSource (scopes chain) fresh source
      ⟨c.submission.bound, ⟨⟨others ++ c.submission.scope, [[]]⟩, c.fresh⟩,
        c.submission.faults⟩ := by
  have hstart : Joined (scopes chain) [[]] others 0 (.inside (scopes chain)) ⟨others, [[]]⟩ :=
    .start ..
  have hagree : Agree (scopes chain) [[]] others 0
      (Binding.stmt ⟨.inside (scopes chain), fresh⟩ source.program.statement)
      (Binding.stmt ⟨⟨others, [[]]⟩, fresh⟩ source.program.statement) :=
    Binding.stmt_agree hjoins source.program.statement hstart rfl fun _ => hapart
  obtain ⟨hphrase, hfaults, hfresh, henv⟩ := hagree
  have henv := henv.eq_append
  generalize Binding.stmt ⟨⟨others, [[]]⟩, fresh⟩ source.program.statement = b
    at hphrase hfaults hfresh henv ⊢
  obtain ⟨phrase, ⟨env, fresh'⟩, faults⟩ := b
  dsimp only at hphrase hfaults hfresh henv
  rw [hphrase, hfaults, hfresh, henv]
  rfl

/-- The statements of sources are bound alike as a chain and behind one another in one scope. -/
theorem stmts_eq_link {sources : List Source} (hjoins : Joins (scopes chain) [[]] others)
    (hothers : ∀ c ∈ link chain fresh sources, ∀ v ∈ c.scope, others.find? v.name = none)
    (hapart : (link chain fresh sources).Pairwise Apart) :
    let b := Binding.stmts ⟨⟨others, [[]]⟩, fresh⟩ (sources.map (·.program.statement))
    b.phrase = (link chain fresh sources).map (·.bound) ∧
      b.faults = (link chain fresh sources).flatMap (·.faults) := by
  induction sources generalizing chain others fresh with
  | nil => exact ⟨rfl, rfl⟩
  | cons source sources ih =>
    obtain ⟨hfirst, hrest⟩ := List.forall_mem_cons.mp hothers
    obtain ⟨hbefore, hapart⟩ := List.pairwise_cons.mp hapart
    have hnext := ih (joins_cons hjoins hfirst) (fun c hc v hv => ?_) hapart
    · obtain ⟨hphrase, hfaults⟩ := hnext
      rw [List.map_cons, Binding.stmts, ofSource_agree hjoins hfirst]
      dsimp only
      rw [hphrase, hfaults]
      exact ⟨rfl, rfl⟩
    · rw [Scope.find?_append, hrest c hc v hv, Option.none_or, Scope.find?_eq_none_iff]
      exact fun w hw => hbefore c hc w hw v hv

end

section

variable {c : Submission} {cs : List Submission} {budget : Nat} {last : Option Value}
  {store : Store} {e : Evaluated}

theorem evaluate_of_clean (h : c.diagnostics = []) (budget : Nat) (store : Store) :
    c.evaluate budget store =
      (Machine.evaluate budget c.program store).map Evaluated.ofOutcome := by
  rw [evaluate, if_pos h]
  refine congrArg (Option.map · _) (funext fun o => ?_)
  cases o <;> rfl

theorem evaluate_mono {m n : Nat} (hmn : m ≤ n) (h : c.evaluate m store = some e) :
    c.evaluate n store = some e := by
  by_cases hclean : c.diagnostics = []
  · rw [evaluate_of_clean hclean] at h ⊢
    obtain ⟨o, ho, rfl⟩ := Option.map_eq_some_iff.mp h
    have hrun : Machine.evaluate n c.program store = some o := Machine.run_mono hmn ho
    rw [hrun]
    rfl
  · rw [evaluate, if_neg hclean] at h ⊢
    exact h

theorem exists_evaluate_iff (h : c.diagnostics = []) (hs : c.bound.Structured) :
    (∃ budget, c.evaluate budget store = some e) ↔
      ∃ n o, c.bound.exec n none store = some o ∧ Evaluated.ofOutcome o = e := by
  have hmeaning := Bound.Stmt.exists_evaluate_lower_iff hs store
  simp only [evaluate_of_clean h, Option.map_eq_some_iff]
  constructor
  · rintro ⟨budget, o, ho, he⟩
    obtain ⟨n, hn⟩ := (hmeaning o).mp ⟨budget, ho⟩
    exact ⟨n, o, hn, he⟩
  · rintro ⟨n, o, ho, he⟩
    obtain ⟨budget, hbudget⟩ := (hmeaning o).mpr ⟨n, ho⟩
    exact ⟨budget, o, hbudget, he⟩

theorem evaluateAll_of_finished {value : Option Value} {σ : Store}
    (h : c.evaluate budget store = some ⟨.finished value, σ⟩) :
    evaluateAll budget last store (c :: cs) = evaluateAll budget (value.or last) σ cs := by
  rw [evaluateAll, h]
  rfl

theorem evaluateAll_of_faulted {cause : Fault} {σ : Store}
    (h : c.evaluate budget store = some ⟨.faulted cause, σ⟩) :
    evaluateAll budget last store (c :: cs) = some ⟨.faulted cause, σ⟩ := by
  rw [evaluateAll, h]
  rfl

theorem evaluateAll_mono {m n : Nat} (hmn : m ≤ n)
    (h : evaluateAll m last store cs = some e) : evaluateAll n last store cs = some e := by
  induction cs generalizing last store with
  | nil => exact h
  | cons c cs ih =>
    rw [evaluateAll, Option.bind_eq_some_iff] at h
    obtain ⟨⟨verdict, σ⟩, hfirst, hrest⟩ := h
    rw [evaluateAll, evaluate_mono hmn hfirst]
    cases verdict with
    | finished value => exact ih hrest
    | faulted cause => exact hrest
    | rejected => exact hrest

theorem exec_of_done {n : Nat} {x : Option Value} {σ : Store}
    (h : c.bound.exec n none store = some (.done x σ)) :
    c.bound.exec n last store = some (.done (x.or last) σ) := by
  rw [Bound.Stmt.exec_records n c.bound last store, h]
  rfl

theorem exec_of_fault {n : Nat} {f : Fault} {σ : Store}
    (h : c.bound.exec n none store = some (.fault f σ)) :
    c.bound.exec n last store = some (.fault f σ) := by
  rw [Bound.Stmt.exec_records n c.bound last store, h]
  rfl

/-- Submissions without complaints are evaluated one after the other as their statements are run
behind one another. -/
theorem exists_evaluateAll_iff (h : ∀ c ∈ cs, c.diagnostics = [] ∧ c.bound.Structured) :
    (∃ budget, evaluateAll budget last store cs = some e) ↔
      ∃ n o, execList n (cs.map (·.bound)) last store = some o ∧ Evaluated.ofOutcome o = e := by
  induction cs generalizing last store with
  | nil =>
    constructor
    · rintro ⟨budget, he⟩
      exact ⟨0, .done last store, rfl, Option.some.inj he⟩
    · rintro ⟨n, o, ho, rfl⟩
      cases ho
      exact ⟨0, rfl⟩
  | cons c cs ih =>
    obtain ⟨⟨hclean, hstructured⟩, hothers⟩ := List.forall_mem_cons.mp h
    have hfirst (e : Evaluated) : (∃ budget, c.evaluate budget store = some e) ↔
        ∃ n o, c.bound.exec n none store = some o ∧ Evaluated.ofOutcome o = e :=
      exists_evaluate_iff hclean hstructured
    constructor
    · rintro ⟨budget, he⟩
      obtain ⟨e₁, he₁, -⟩ := Option.bind_eq_some_iff.mp he
      obtain ⟨n, o, ho, rfl⟩ := (hfirst e₁).mp ⟨budget, he₁⟩
      cases o with
      | fault f σ =>
        rw [evaluateAll_of_faulted he₁] at he
        exact ⟨n, .fault f σ, Bound.Run.seq_of_fault (exec_of_fault ho), Option.some.inj he⟩
      | done x σ =>
        rw [evaluateAll_of_finished he₁] at he
        obtain ⟨m, o, hrest, hresult⟩ := (ih hothers).mp ⟨budget, he⟩
        -- both runs end within the larger of the two budgets
        have hbefore := Bound.Stmt.exec_growing c.bound (Nat.le_max_left n m) none store _ ho
        have hbehind := Bound.Stmt.execList_growing _ (Nat.le_max_right n m) _ _ _ hrest
        exact ⟨max n m, o, (Bound.Run.seq_of_done (exec_of_done hbefore)).trans hbehind, hresult⟩
    · rintro ⟨n, o, ho, rfl⟩
      obtain ⟨o₁, ho₁, hrest⟩ := Option.bind_eq_some_iff.mp ho
      rw [Bound.Stmt.exec_records n c.bound last store] at ho₁
      obtain ⟨o₁, halone, rfl⟩ := Option.map_eq_some_iff.mp ho₁
      obtain ⟨budget, hbudget⟩ := (hfirst _).mpr ⟨n, o₁, halone, rfl⟩
      cases o₁ with
      | fault f σ =>
        cases hrest
        exact ⟨budget, evaluateAll_of_faulted hbudget⟩
      | done x σ =>
        obtain ⟨budget', hothers⟩ := (ih hothers).mpr ⟨n, o, hrest, rfl⟩
        have hbefore := evaluate_mono (Nat.le_max_left budget budget') hbudget
        have hbehind := evaluateAll_mono (Nat.le_max_right budget budget') hothers
        exact ⟨max budget budget', (evaluateAll_of_finished hbefore).trans hbehind⟩

end

theorem structured_of_mem_link {chain : List Submission} {fresh : Nat} {sources : List Source} :
    ∀ c ∈ link chain fresh sources, c.bound.Structured := by
  induction sources generalizing chain fresh with
  | nil => exact List.forall_mem_nil _
  | cons source sources ih => exact List.forall_mem_cons.mpr ⟨Binding.stmt_structured _ _, ih⟩

theorem ofSource_shift (fresh : Nat) (source : Source) :
    (ofSource [] fresh source).submission.bound =
        (ofSource [] 0 source).submission.bound.shift fresh ∧
      (ofSource [] fresh source).submission.faults = (ofSource [] 0 source).submission.faults := by
  have hshift : Binding.stmt ⟨.inside [], 0 + fresh⟩ source.program.statement =
      (Binding.stmt ⟨.inside [], 0⟩ source.program.statement).shift
        (Bound.Stmt.shift fresh) fresh :=
    Binding.stmt_shift ⟨.inside [], 0⟩ source.program.statement
  rw [Nat.zero_add] at hshift
  simp only [ofSource, hshift]
  exact ⟨rfl, rfl⟩

structure BlockOf (sources : List Source) (whole : Source) : Prop where
  exists_braces : ∃ o c, whole.program.statement =
    .block o (sources.map (·.program.statement)) c
  diagnostics : whole.diagnostics = []

/-- What it is for a submission to mean the same as others that are evaluated one after the other,
their variables being numbered from `a` and those of the submission from `b`. -/
structure MeansSame (a b : Nat) (cs : List Submission) (whole : Submission) : Prop where
  diagnostics : whole.diagnostics = []
  introduced : whole.bound.introduced =
    (cs.flatMap (·.bound.introduced)).map (·.renumber a b)
  nodup : (cs.flatMap (·.bound.introduced)).Nodup ∧ whole.bound.introduced.Nodup
  ends {e : Evaluated} : (∃ budget, evaluateAll budget none ∅ cs = some e) →
    ∃ budget, whole.evaluate budget ∅ = some ⟨e.verdict, e.store.rename (·.renumber a b)⟩
  diverges : (∀ budget, evaluateAll budget none ∅ cs = none) ↔
    ∀ budget, whole.evaluate budget ∅ = none

section

variable {sources : List Source} {whole : Source} {a : Nat}

/-- A block that is numbered like a chain is bound to the statements of the chain. -/
theorem ofSource_block (hwhole : BlockOf sources whole)
    (hapart : (link [] a sources).Pairwise Apart) :
    (ofSource [] a whole).submission.bound = .block ((link [] a sources).map (·.bound)) ∧
      (ofSource [] a whole).submission.faults = (link [] a sources).flatMap (·.faults) := by
  obtain ⟨⟨o, c, hstatement⟩, -⟩ := hwhole
  have hjoins : Binding.Joins (scopes []) [[]] [] := fun _ => rfl
  have hothers : ∀ c ∈ link [] a sources, ∀ v ∈ c.scope, Scope.find? [] v.name = none :=
    fun _ _ _ _ => rfl
  obtain ⟨hphrase, hfaults⟩ := stmts_eq_link hjoins hothers hapart
  simp only [ofSource, hstatement, Binding.stmt]
  exact ⟨congrArg Bound.Stmt.block hphrase, hfaults⟩

/-- A block is evaluated as it is run when its variables are numbered from zero. -/
theorem exists_evaluate_shift_iff {fresh : Nat} {e : Evaluated}
    (h : (ofSource [] fresh whole).submission.diagnostics = []) :
    (∃ budget, (ofSource [] fresh whole).submission.evaluate budget ∅ = some e) ↔
      ∃ n o, (ofSource [] 0 whole).submission.bound.exec n none ∅ = some o ∧
        Evaluated.ofOutcome (o.shift fresh) = e := by
  have hshift (n : Nat) : (ofSource [] fresh whole).submission.bound.exec n none ∅ =
      ((ofSource [] 0 whole).submission.bound.exec n none ∅).map (Outcome.shift fresh) := by
    rw [(ofSource_shift fresh whole).1]
    exact Bound.Stmt.exec_shift n _ none ∅
  rw [exists_evaluate_iff h (Binding.stmt_structured _ _)]
  simp only [hshift, Option.map_eq_some_iff]
  constructor
  · rintro ⟨n, -, ⟨o, ho, rfl⟩, he⟩
    exact ⟨n, o, ho, he⟩
  · rintro ⟨n, o, ho, he⟩
    exact ⟨n, _, ⟨o, ho, rfl⟩, he⟩

/-- A chain of submissions without complaints, no two of which declare a name in their scopes, means
the same as the block of their statements. -/
theorem block_meansSame (a b : Nat) (hwhole : BlockOf sources whole)
    (hclean : ∀ c ∈ link [] a sources, c.diagnostics = [])
    (hapart : (link [] a sources).Pairwise Apart) :
    MeansSame a b (link [] a sources) (ofSource [] b whole).submission := by
  obtain ⟨hbound, hfaults⟩ := ofSource_block hwhole hapart
  have hnone : (ofSource [] a whole).submission.faults = [] := by
    rw [hfaults, List.flatMap_eq_nil_iff]
    exact fun c hc => binding_clean (hclean c hc)
  have hdiagnostics (fresh : Nat) : (ofSource [] fresh whole).submission.diagnostics = [] := by
    rw [(ofSource_shift a whole).2, ← (ofSource_shift fresh whole).2] at hnone
    exact List.append_eq_nil_iff.mpr ⟨hwhole.diagnostics, hnone⟩
  have hintroduced (fresh : Nat) : (ofSource [] fresh whole).submission.bound.introduced =
      (ofSource [] 0 whole).submission.bound.introduced.map (·.shift fresh) := by
    rw [(ofSource_shift fresh whole).1, Bound.Stmt.introduced_shift]
  have hown : (ofSource [] a whole).submission.bound.introduced =
      (link [] a sources).flatMap (·.bound.introduced) := by
    rw [hbound, Bound.Stmt.introduced, Bound.Stmt.introducedOfList_eq_flatMap, List.flatMap_map]
  -- the chain is evaluated like the block that is numbered like it
  have hchain (e : Evaluated) : (∃ budget, evaluateAll budget none ∅ (link [] a sources) = some e) ↔
      ∃ n o, (ofSource [] 0 whole).submission.bound.exec n none ∅ = some o ∧
        Evaluated.ofOutcome (o.shift a) = e := by
    rw [exists_evaluateAll_iff fun c hc => ⟨hclean c hc, structured_of_mem_link c hc⟩,
      ← exists_evaluate_shift_iff (hdiagnostics a),
      exists_evaluate_iff (hdiagnostics a) (Binding.stmt_structured _ _), hbound]
    exact Iff.rfl
  refine ⟨hdiagnostics b, ?_, ⟨?_, ?_⟩, fun {e} he => ?_, ?_⟩
  · rw [← hown, hintroduced a, hintroduced b, List.map_map]
    refine List.map_congr_left fun v _ => ?_
    exact (v.renumber_shift a b).symm
  · rw [← hown]
    exact introduced_nodup [] a whole
  · exact introduced_nodup [] b whole
  · obtain ⟨n, o, ho, rfl⟩ := (hchain e).mp he
    refine (exists_evaluate_shift_iff (hdiagnostics b)).mpr ⟨n, o, ho, ?_⟩
    cases o <;> simp [Evaluated.ofOutcome]
  · have hends : (∃ e budget, evaluateAll budget none ∅ (link [] a sources) = some e) ↔
        ∃ e budget, (ofSource [] b whole).submission.evaluate budget ∅ = some e := by
      simp only [hchain, exists_evaluate_shift_iff (hdiagnostics b)]
      exact ⟨fun ⟨_, n, o, ho, _⟩ => ⟨_, n, o, ho, rfl⟩, fun ⟨_, n, o, ho, _⟩ => ⟨_, n, o, ho, rfl⟩⟩
    simp only [Option.eq_none_iff_forall_ne_some]
    constructor
    · intro hnever budget e he
      obtain ⟨e', budget', he'⟩ := hends.mpr ⟨e, budget, he⟩
      exact hnever budget' e' he'
    · intro hnever budget e he
      obtain ⟨e', budget', he'⟩ := hends.mp ⟨e, budget, he⟩
      exact hnever budget' e' he'

open scoped Xid in
theorem block_meansSame_of_fault :
    let sources := ["var n = 2", "var sum = 0", "for i = 0 to n \x7b var n = i sum = sum + n \x7d",
      "sum / (n - 2)"].map fun text => Source.parse text.toList
    let whole : Source := ⟨[], ⟨.block ⟨.openBrace, 0, "\x7b", none⟩
      (sources.map (·.program.statement)) ⟨.closeBrace, 0, "\x7d", none⟩,
      ⟨.endOfFile, 0, "", none⟩⟩, []⟩
    (evaluateAll 100 none ∅ (link [] 4 sources)).map (·.verdict) =
        some (.faulted .divisionByZero) ∧
      MeansSame 4 9 (link [] 4 sources) (ofSource [] 9 whole).submission := by
  intro sources whole
  have hclean : ∀ c ∈ link [] 4 sources, c.diagnostics = [] := by decide +kernel
  have hapart : (link [] 4 sources).Pairwise Apart := by
    unfold Apart
    decide +kernel
  exact ⟨by decide +kernel, block_meansSame 4 9 ⟨⟨_, _, rfl⟩, rfl⟩ hclean hapart⟩

end

end Submission

end Lumen
