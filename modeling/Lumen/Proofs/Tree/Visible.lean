import Lumen.Proofs.Tree.Scoping

/-!
# Declarations in force

The declarations in force at a place are found by a walk along the path to the place: each statement
on the way adds what stands before the part where the path goes on. They come in the order in which
names are looked up, so what a name means is the first one of them that declares it.
-/

namespace Lumen

structure Site where
  path : Path
  name : String
  deriving DecidableEq

/-- A declaration in a part of a tree, seen from the tree. -/
def Site.under (i : Nat) (s : Site) : Site := ⟨i :: s.path, s.name⟩

namespace Tree.Stmt

def own (t : Stmt) : List Site := (t.declared?.map (Site.mk [])).toList

/-- The declarations of a statement that are in the scope around it. -/
def exports : Stmt → List Site
  | declaration k x eq e => (declaration k x eq e).own
  | ifThen _ _ s => s.exports.map (Site.under 0)
  | ifElse _ _ s _ t => s.exports.map (Site.under 0) ++ t.exports.map (Site.under 1)
  | whileLoop _ _ s => s.exports.map (Site.under 0)
  | block .. => []
  | forLoop .. => []
  | expression _ => []

/-- The declarations of parts of a statement that are in the scope around the parts; the parts are
counted from a number on. -/
def exportsFrom (k : Nat) : List Stmt → List Site
  | [] => []
  | t :: ts => t.exports.map (Site.under k) ++ exportsFrom (k + 1) ts

/-- The declarations before a part of a statement that are in the scope around the part. -/
def ahead (t : Stmt) (i : Nat) : List Site := t.own ++ exportsFrom 0 (t.inner.take i)

/-- The declarations in force at a place in a statement that are in the scope around the statement,
in order. -/
def beside : Path → Stmt → List Site
  | [], _ => []
  | i :: p, t =>
    match t.inner[i]? with
    | none => []
    | some c => if t.isScope then [] else t.ahead i ++ (beside p c).map (Site.under i)

/-- The declarations in force at a place in a statement that are in scopes inside the statement,
those of the innermost scope first. -/
def inside : Path → Stmt → List Site
  | [], _ => []
  | i :: p, t =>
    match t.inner[i]? with
    | none => []
    | some c => (inside p c).map (Site.under i) ++
      if t.isScope then t.ahead i ++ (beside p c).map (Site.under i) else []

section

variable {t c : Stmt} {i k : Nat} {p q d : Path} {name : String} {ts : List Stmt} {s : Stmt}

theorem mem_own : ⟨d, name⟩ ∈ t.own ↔ d = [] ∧ t.declared? = some name := by
  rw [own]
  cases t.declared? with
  | none => simp
  | some other => simp [eq_comm]

theorem exports_eq (t : Stmt) :
    t.exports = if t.isScope then [] else t.own ++ exportsFrom 0 t.inner := by
  cases t <;> simp [exports, exportsFrom, isScope, inner, own, declared?]

theorem mem_map_under {sites : List Site} :
    ⟨d, name⟩ ∈ sites.map (Site.under i) ↔ ∃ d', d = i :: d' ∧ ⟨d', name⟩ ∈ sites := by
  simp only [List.mem_map, Site.under, Site.mk.injEq]
  constructor
  · rintro ⟨⟨d', name'⟩, hmem, rfl, rfl⟩
    exact ⟨d', rfl, hmem⟩
  · rintro ⟨d', rfl, hmem⟩
    exact ⟨⟨d', name⟩, hmem, rfl, rfl⟩

theorem mem_exportsFrom : ⟨d, name⟩ ∈ exportsFrom k ts ↔
    ∃ j c d', d = (k + j) :: d' ∧ ts[j]? = some c ∧ ⟨d', name⟩ ∈ c.exports := by
  induction ts generalizing k with
  | nil => simp [exportsFrom]
  | cons t ts ih =>
    rw [exportsFrom, List.mem_append, mem_map_under, ih]
    constructor
    · rintro (⟨d', rfl, hmem⟩ | ⟨j, c, d', rfl, hj, hmem⟩)
      · exact ⟨0, t, d', rfl, rfl, hmem⟩
      · exact ⟨j + 1, c, d', by rw [Nat.add_right_comm, Nat.add_assoc], hj, hmem⟩
    · rintro ⟨j, c, d', rfl, hj, hmem⟩
      cases j with
      | zero =>
        cases hj
        exact .inl ⟨d', rfl, hmem⟩
      | succ j => exact .inr ⟨j, c, d', by rw [Nat.add_right_comm, Nat.add_assoc], hj, hmem⟩

theorem mem_exports : ⟨d, name⟩ ∈ t.exports ↔ t.Global name d := by
  induction d generalizing t with
  | nil =>
    rw [exports_eq, global_nil]
    cases t.isScope with
    | true => simp
    | false => simp [mem_own, mem_exportsFrom]
  | cons i d ih =>
    rw [exports_eq, global_cons]
    cases t.isScope with
    | true => simp
    | false =>
      rw [if_neg Bool.false_ne_true, List.mem_append, mem_own, mem_exportsFrom]
      constructor
      · rintro (⟨hd, -⟩ | ⟨j, c, d', hd, hc, hmem⟩)
        · cases hd
        · obtain ⟨rfl, rfl⟩ := List.cons.inj hd
          rw [Nat.zero_add]
          exact ⟨rfl, c, hc, ih.mp hmem⟩
      · rintro ⟨-, c, hc, hglobal⟩
        exact .inr ⟨i, c, d, by rw [Nat.zero_add], hc, ih.mpr hglobal⟩

theorem mem_ahead : ⟨d, name⟩ ∈ t.ahead i ↔ (d = [] ∧ t.declared? = some name) ∨
    ∃ j c d', d = j :: d' ∧ j < i ∧ t.inner[j]? = some c ∧ c.Global name d' := by
  rw [ahead, List.mem_append, mem_own, mem_exportsFrom]
  refine or_congr_right ?_
  constructor
  · rintro ⟨j, c, d', rfl, hj, hmem⟩
    rw [List.getElem?_take] at hj
    split at hj
    · next hlt => exact ⟨j, c, d', by rw [Nat.zero_add], hlt, hj, mem_exports.mp hmem⟩
    · cases hj
  · rintro ⟨j, c, d', rfl, hlt, hj, hglobal⟩
    refine ⟨j, c, d', by rw [Nat.zero_add], ?_, mem_exports.mpr hglobal⟩
    rw [List.getElem?_take, if_pos hlt, hj]

/-- What is in force in a part of a statement was declared before the part, or it is in force there
by the part alone. -/
theorem inForce_cons (hc : t.inner[i]? = some c) : t.InForce (i :: p) name d ↔
    ⟨d, name⟩ ∈ t.ahead i ∨ ∃ d', d = i :: d' ∧ c.InForce p name d' := by
  rw [mem_ahead]
  constructor
  · rintro ⟨hdeclares, hbefore, hinside⟩
    cases d with
    | nil => exact .inl (.inl ⟨rfl, declares_nil.mp hdeclares⟩)
    | cons j d =>
      obtain ⟨c', hc', hdeclares⟩ := declares_cons.mp hdeclares
      rcases List.cons_lt_cons_iff.mp hbefore with hlt | ⟨rfl, hlater⟩
      · refine .inl (.inr ⟨j, c', d, rfl, hlt, hc', hdeclares, fun q hq => ?_⟩)
        have hpre := hinside (j :: q) ((encloses_cons hc').mpr (.inr ⟨q, rfl, hq⟩))
        exact Nat.ne_of_lt hlt (List.cons_prefix_cons.mp hpre).1
      · cases hc.symm.trans hc'
        refine .inr ⟨d, rfl, hdeclares, hlater, fun q hq => ?_⟩
        have hpre := hinside (j :: q) ((encloses_cons hc).mpr (.inr ⟨q, rfl, hq⟩))
        exact (List.cons_prefix_cons.mp hpre).2
  · rintro ((⟨rfl, hdeclared⟩ | ⟨j, c', d', rfl, hlt, hc', hglobal⟩) | ⟨d', rfl, hforce⟩)
    · refine ⟨declares_nil.mpr hdeclared, List.nil_lt_cons i p, fun q hq => ?_⟩
      rw [(encloses_nil.mp hq).1]
      exact List.nil_prefix
    · refine ⟨declares_cons.mpr ⟨c', hc', hglobal.declares⟩,
        List.cons_lt_cons_iff.mpr (.inl hlt), fun q hq => ?_⟩
      rcases (encloses_cons hc').mp hq with ⟨rfl, -⟩ | ⟨q', rfl, hq'⟩
      · exact List.nil_prefix
      · exact absurd hq' (hglobal.free q')
    · refine ⟨declares_cons.mpr ⟨c, hc, hforce.declares⟩,
        List.cons_lt_cons_iff.mpr (.inr ⟨rfl, hforce.before⟩), fun q hq => ?_⟩
      rcases (encloses_cons hc).mp hq with ⟨rfl, -⟩ | ⟨q', rfl, hq'⟩
      · exact List.nil_prefix
      · exact List.cons_prefix_cons.mpr ⟨rfl, hforce.inside q' hq'⟩

def visible (p : Path) (t : Stmt) : List Site := inside p t ++ beside p t

theorem visible_cons (hc : t.inner[i]? = some c) : visible (i :: p) t =
    (inside p c).map (Site.under i) ++ (t.ahead i ++ (beside p c).map (Site.under i)) := by
  rw [visible, inside, beside, hc]
  dsimp only
  split <;> simp

theorem mem_visible (hp : t.at? p = some s) : ⟨d, name⟩ ∈ visible p t ↔ t.InForce p name d := by
  induction p generalizing t d with
  | nil =>
    refine iff_of_false List.not_mem_nil fun h => ?_
    exact List.not_lt_nil d h.before
  | cons i p ih =>
    obtain ⟨c, hc, hp⟩ := Option.bind_eq_some_iff.mp hp
    rw [visible_cons hc, inForce_cons hc, List.mem_append, List.mem_append, mem_map_under,
      mem_map_under]
    simp only [← ih hp, visible, List.mem_append]
    grind

end

/-- Whether a declaration comes before another one when a name is looked up: its scope is further
inside, or it is the same and the declaration stands first. -/
structure Prior (t : Stmt) (a b : Site) : Prop where
  scopes : ∀ q, t.Encloses q b.path → t.Encloses q a.path
  order : (∀ q, t.Encloses q a.path → t.Encloses q b.path) → a.path < b.path

section

variable {t c : Stmt} {i k : Nat} {p q d : Path} {name : String} {ts : List Stmt} {a b : Site}

theorem encloses_under {d d' : Path} (hc : t.inner[i]? = some c) :
    (∀ q, t.Encloses q (i :: d) → t.Encloses q (i :: d')) ↔
      ∀ q, c.Encloses q d → c.Encloses q d' := by
  constructor
  · intro h q hq
    have hunder := h (i :: q) ((encloses_cons hc).mpr (.inr ⟨q, rfl, hq⟩))
    rcases (encloses_cons hc).mp hunder with ⟨hnil, -⟩ | ⟨q', hq', hd'⟩
    · cases hnil
    · cases hq'
      exact hd'
  · intro h q hq
    refine (encloses_cons hc).mpr (((encloses_cons hc).mp hq).imp_right ?_)
    rintro ⟨q', rfl, hq'⟩
    exact ⟨q', rfl, h q' hq'⟩

theorem prior_under (hc : t.inner[i]? = some c) :
    t.Prior (a.under i) (b.under i) ↔ c.Prior a b := by
  have hpath (a b : Path) : i :: a < i :: b ↔ a < b := by simp
  constructor
  · rintro ⟨hscopes, horder⟩
    refine ⟨(encloses_under hc).mp hscopes, fun h => ?_⟩
    exact (hpath a.path b.path).mp (horder ((encloses_under hc).mpr h))
  · rintro ⟨hscopes, horder⟩
    refine ⟨(encloses_under hc).mpr hscopes, fun h => ?_⟩
    exact (hpath a.path b.path).mpr (horder ((encloses_under hc).mp h))

theorem exportsFrom_sorted (hts : ∀ t ∈ ts, t.exports.Pairwise (·.path < ·.path)) :
    (exportsFrom k ts).Pairwise (·.path < ·.path) := by
  induction ts generalizing k with
  | nil => exact .nil
  | cons t ts ih =>
    obtain ⟨ht, hts⟩ := List.forall_mem_cons.mp hts
    refine List.pairwise_append.mpr ⟨?_, ih hts, fun a ha b hb => ?_⟩
    · refine List.pairwise_map.mpr (ht.imp fun hab => ?_)
      exact List.cons_lt_cons_iff.mpr (.inr ⟨rfl, hab⟩)
    · obtain ⟨a', -, rfl⟩ := List.mem_map.mp ha
      obtain ⟨j, c, d', hd', -⟩ := mem_exportsFrom.mp hb
      rw [hd']
      exact List.cons_lt_cons_iff.mpr (.inl (by omega))

theorem own_sorted (t : Stmt) : t.own.Pairwise (·.path < ·.path) := by
  rw [own]
  cases t.declared? <;> simp

theorem own_append_sorted (hts : ∀ c ∈ ts, c.exports.Pairwise (·.path < ·.path)) :
    (t.own ++ exportsFrom 0 ts).Pairwise (·.path < ·.path) := by
  refine List.pairwise_append.mpr ⟨own_sorted t, exportsFrom_sorted hts, fun a ha b hb => ?_⟩
  obtain ⟨j, c, d', hd', -⟩ := mem_exportsFrom.mp hb
  rw [(mem_own.mp ha).1, hd']
  exact List.nil_lt_cons _ _

theorem exports_sorted : ∀ t : Stmt, t.exports.Pairwise (·.path < ·.path)
  | block .. => .nil
  | declaration k x eq e => own_sorted (declaration k x eq e)
  | ifThen k c s => by
    rw [exports_eq]
    refine own_append_sorted (List.forall_mem_singleton.mpr ?_)
    exact exports_sorted s
  | ifElse k c s el u => by
    rw [exports_eq]
    refine own_append_sorted (List.forall_mem_cons.mpr ⟨?_, List.forall_mem_singleton.mpr ?_⟩)
    · exact exports_sorted s
    · exact exports_sorted u
  | whileLoop k c s => by
    rw [exports_eq]
    refine own_append_sorted (List.forall_mem_singleton.mpr ?_)
    exact exports_sorted s
  | forLoop .. => .nil
  | expression _ => .nil

theorem ahead_sorted : (t.ahead i).Pairwise (·.path < ·.path) :=
  own_append_sorted fun c _ => exports_sorted c

/-- What stands before a part of a statement is in no scope but the statement itself. -/
theorem encloses_of_mem_ahead (ha : a ∈ t.ahead i) :
    t.Encloses q a.path ↔ q = [] ∧ t.isScope = true := by
  rcases mem_ahead.mp ha with ⟨hnil, -⟩ | ⟨j, c, d', hd', -, hc, hglobal⟩
  · rw [hnil, encloses_nil]
  · rw [hd', encloses_cons hc]
    refine or_iff_left ?_
    rintro ⟨q', -, hq'⟩
    exact hglobal.free q' hq'

theorem not_encloses_of_mem_beside (ha : a ∈ beside p t) : ¬ t.Encloses q a.path := by
  induction p generalizing t a q with
  | nil => cases ha
  | cons i p ih =>
    rw [beside] at ha
    cases hc : t.inner[i]? with
    | none =>
      rw [hc] at ha
      cases ha
    | some c =>
      rw [hc] at ha
      dsimp only at ha
      split at ha
      · cases ha
      · next hscope =>
        rcases List.mem_append.mp ha with ha | ha
        · rw [encloses_of_mem_ahead ha]
          exact fun h => hscope h.2
        · obtain ⟨a', ha', rfl⟩ := List.mem_map.mp ha
          intro hq
          rcases (encloses_cons hc).mp hq with ⟨-, hroot⟩ | ⟨q', -, hq'⟩
          · exact hscope hroot
          · exact ih ha' hq'

theorem exists_encloses_of_mem_inside (ha : a ∈ inside p t) : ∃ q, t.Encloses q a.path := by
  induction p generalizing t a with
  | nil => cases ha
  | cons i p ih =>
    rw [inside] at ha
    cases hc : t.inner[i]? with
    | none =>
      rw [hc] at ha
      cases ha
    | some c =>
      rw [hc] at ha
      dsimp only at ha
      rcases List.mem_append.mp ha with ha | ha
      · obtain ⟨a', ha', rfl⟩ := List.mem_map.mp ha
        obtain ⟨q, hq⟩ := ih ha'
        exact ⟨i :: q, (encloses_cons hc).mpr (.inr ⟨q, rfl, hq⟩)⟩
      · split at ha
        · next hscope => exact ⟨[], List.nil_prefix, t, rfl, hscope⟩
        · cases ha

theorem visible_sorted (hp : t.at? p = some s) : (visible p t).Pairwise t.Prior := by
  induction p generalizing t with
  | nil => exact .nil
  | cons i p ih =>
    obtain ⟨c, hc, hp⟩ := Option.bind_eq_some_iff.mp hp
    obtain ⟨hinside, hbeside, hacross⟩ := List.pairwise_append.mp (ih hp)
    have hroot : ∀ a ∈ t.ahead i ++ (beside p c).map (Site.under i), ∀ q,
        t.Encloses q a.path ↔ q = [] ∧ t.isScope = true := by
      intro a ha q
      rcases List.mem_append.mp ha with ha | ha
      · exact encloses_of_mem_ahead ha
      · obtain ⟨a', ha', rfl⟩ := List.mem_map.mp ha
        refine (encloses_cons hc).trans (or_iff_left ?_)
        rintro ⟨q', -, hq'⟩
        exact not_encloses_of_mem_beside ha' hq'
    have hprior {a b : Site} (ha : a ∈ t.ahead i ++ (beside p c).map (Site.under i))
        (hb : b ∈ t.ahead i ++ (beside p c).map (Site.under i)) (hab : a.path < b.path) :
        t.Prior a b :=
      ⟨fun q hq => (hroot a ha q).mpr ((hroot b hb q).mp hq), fun _ => hab⟩
    have hunder {l : List Site} (h : l.Pairwise c.Prior) :
        (l.map (Site.under i)).Pairwise t.Prior :=
      List.pairwise_map.mpr (h.imp (prior_under hc).mpr)
    rw [visible_cons hc]
    refine List.pairwise_append.mpr ⟨hunder hinside, ?_, fun a ha b hb => ?_⟩
    · refine List.pairwise_append.mpr ⟨?_, hunder hbeside, fun a ha b hb => ?_⟩
      · refine ahead_sorted.imp_of_mem fun ha hb hab => ?_
        exact hprior (List.mem_append_left _ ha) (List.mem_append_left _ hb) hab
      · refine hprior (List.mem_append_left _ ha) (List.mem_append_right _ hb) ?_
        obtain ⟨b', -, rfl⟩ := List.mem_map.mp hb
        rcases mem_ahead.mp ha with ⟨hnil, -⟩ | ⟨j, c', d', hd', hlt, -⟩
        · rw [hnil]
          exact List.nil_lt_cons _ _
        · rw [hd']
          exact List.cons_lt_cons_iff.mpr (.inl hlt)
    · -- what is in a scope inside the part comes before everything that is not
      obtain ⟨a', ha', rfl⟩ := List.mem_map.mp ha
      obtain ⟨q, hq⟩ := exists_encloses_of_mem_inside ha'
      refine ⟨fun q' hq' => (encloses_cons hc).mpr (.inl ((hroot b hb q').mp hq')), fun h => ?_⟩
      have houter := (hroot b hb _).mp (h (i :: q) ((encloses_cons hc).mpr (.inr ⟨q, rfl, hq⟩)))
      cases houter.1

theorem lt_asymm {d d' : Path} (h : d < d') : ¬ d' < d := fun h' =>
  List.lt_irrefl d (List.lt_trans h h')

theorem eq_or_lt {d d' : Path} (h : ¬ d' < d) : d' = d ∨ d < d' := by
  by_cases hlt : d < d'
  · exact .inr hlt
  · exact .inl (List.le_antisymm (List.not_lt.mp hlt) (List.not_lt.mp h))

theorem not_lt_of_eq_or_lt {d d' : Path} (h : d' = d ∨ d < d') : ¬ d' < d := by
  rcases h with rfl | hlt
  · exact List.lt_irrefl d'
  · exact lt_asymm hlt

theorem Prior.asymm (h : t.Prior a b) : ¬ t.Prior b a := fun h' =>
  lt_asymm (h.order h'.scopes) (h'.order h.scopes)

/-- In a list of declarations in order, the first one of a name is before all others of the name. -/
theorem find?_iff {R : Site → Site → Prop} {l : List Site} (hl : l.Pairwise R)
    (hR : ∀ a b, R a b → ¬ R b a) : l.find? (·.name = name) = some ⟨d, name⟩ ↔
      ⟨d, name⟩ ∈ l ∧ ∀ d', ⟨d', name⟩ ∈ l → d' = d ∨ R ⟨d, name⟩ ⟨d', name⟩ := by
  induction l with
  | nil => simp
  | cons a l ih =>
    obtain ⟨hfirst, hl⟩ := List.pairwise_cons.mp hl
    rw [List.find?_cons]
    by_cases ha : a.name = name
    · obtain ⟨e, rfl⟩ : ∃ e, a = ⟨e, name⟩ := ⟨a.path, by rw [← ha]⟩
      rw [decide_eq_true ha]
      dsimp only
      constructor
      · intro heq
        cases heq
        refine ⟨List.mem_cons_self, fun d' hd' => ?_⟩
        rcases List.mem_cons.mp hd' with heq | hd'
        · exact .inl (congrArg Site.path heq)
        · exact .inr (hfirst _ hd')
      · rintro ⟨hmem, hothers⟩
        rcases List.mem_cons.mp hmem with heq | hmem
        · rw [heq]
        · rcases hothers e List.mem_cons_self with heq | hprior
          · rw [heq]
          · exact absurd hprior (hR _ _ (hfirst _ hmem))
    · have hne (d : Path) : ⟨d, name⟩ ≠ a := fun h => ha (congrArg Site.name h).symm
      rw [decide_eq_false ha]
      dsimp only
      rw [ih hl]
      simp only [List.mem_cons, hne, false_or]

/-- What a name means is the first declaration of the name among those in force. -/
theorem means_iff (hp : t.at? p = some s) : t.Means p name d ↔
    (visible p t).find? (·.name = name) = some ⟨d, name⟩ := by
  rw [find?_iff (visible_sorted hp) fun _ _ => Prior.asymm]
  simp only [mem_visible hp]
  constructor
  · rintro ⟨hforce, hinnermost, hfirst⟩
    refine ⟨hforce, fun d' h => ?_⟩
    by_cases heq : d' = d
    · exact .inl heq
    · refine .inr ⟨hinnermost d' h, fun hscopes => ?_⟩
      exact (eq_or_lt (hfirst d' h hscopes)).resolve_left heq
  · rintro ⟨hforce, hothers⟩
    refine ⟨hforce, fun d' h => ?_, fun d' h hscopes => ?_⟩
    · rcases hothers d' h with rfl | hprior
      · exact fun q hq => hq
      · exact hprior.scopes
    · exact not_lt_of_eq_or_lt ((hothers d' h).imp_right fun hprior => hprior.order hscopes)

theorem InForce.exists_means (hp : t.at? p = some s) (h : t.InForce p name d) :
    ∃ d', t.Means p name d' ∧ ∀ d'', t.Means p name d'' → d'' = d' := by
  cases hfind : (visible p t).find? (·.name = name) with
  | none =>
    have hnone := List.find?_eq_none.mp hfind _ ((mem_visible hp).mpr h)
    exact absurd (decide_eq_true rfl) hnone
  | some a =>
    obtain ⟨d', other⟩ := a
    have hname : other = name := by simpa using List.find?_some hfind
    subst hname
    refine ⟨d', (means_iff hp).mpr hfind, fun d'' hmeans => ?_⟩
    cases hfind.symm.trans ((means_iff hp).mp hmeans)
    rfl

/-- The first global declaration of a name is the first one that is exported. -/
theorem find?_exports_iff : t.exports.find? (·.name = name) = some ⟨d, name⟩ ↔
    t.Global name d ∧ ∀ d', t.Global name d' → ¬ d' < d := by
  rw [find?_iff (exports_sorted t) fun _ _ => lt_asymm]
  simp only [mem_exports]
  refine and_congr_right fun _ => forall_congr' fun d' => imp_congr_right fun _ => ?_
  exact ⟨not_lt_of_eq_or_lt, eq_or_lt⟩

end

end Tree.Stmt

end Lumen
