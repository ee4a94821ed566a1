import Lumen.Proofs.Tree.Reading
import Mathlib.Data.List.Basic

/-!
# Where the leaves of a tree stand

The tokens that are read stand one behind the other, and a made up token stands where the next one
starts. So the leaves of a phrase stand in order between the token at which its reading starts and
the one at which it stops, and so do the complaints about missing tokens. The span of a phrase runs
from its first leaf to its last one.
-/

namespace Lumen

theorem Span.start_le_stop (s : Span) : s.start ≤ s.stop := Nat.le_add_right _ _

theorem Span.union_of_le {a b : Span} (h : a.stop ≤ b.start) :
    (a.union b).start = a.start ∧ (a.union b).stop = b.stop := by
  have ha := a.start_le_stop
  have hb := b.start_le_stop
  rw [Span.start_union, Span.stop_union]
  omega

/-- Whether a span runs from the first of some tokens to the last one. -/
def Span.Covers (s : Span) (ts : List Token) : Prop :=
  ∃ first last, ts.head? = some first ∧ ts.getLast? = some last ∧
    s.start = first.start ∧ s.stop = last.stop

namespace Span.Covers

variable {a b : Span} {ts us vs : List Token}

theorem leaf (t : Token) : t.span.Covers [t] := ⟨t, t, rfl, rfl, rfl, rfl⟩

/-- The span from one part of a row of tokens to a later part, whatever stands between them. -/
theorem union (us : List Token) (hordered : (ts ++ us ++ vs).Pairwise (·.stop ≤ ·.start))
    (ha : a.Covers ts) (hb : b.Covers vs) : (a.union b).Covers (ts ++ us ++ vs) := by
  obtain ⟨first, t, hfirst, ht, hstart, hmid⟩ := ha
  obtain ⟨v, last, hv, hlast, hmid', hstop⟩ := hb
  have hle : t.stop ≤ v.start := by
    refine (List.pairwise_append.mp hordered).2.2 t ?_ v (List.mem_of_mem_head? hv)
    exact List.mem_append_left _ (List.mem_of_mem_getLast? ht)
  obtain ⟨hstart', hstop'⟩ := Span.union_of_le (a := a) (b := b) (by rw [hmid, hmid']; exact hle)
  refine ⟨first, last, ?_, ?_, hstart'.trans hstart, hstop'.trans hstop⟩
  · rw [List.append_assoc, List.head?_append, hfirst, Option.some_or]
  · rw [List.getLast?_append, hlast, Option.some_or]

theorem mem (h : a.Covers ts) (hordered : ts.Pairwise (·.stop ≤ ·.start)) :
    ∀ t ∈ ts, a.start ≤ t.start ∧ t.stop ≤ a.stop := by
  obtain ⟨first, last, hfirst, hlast, hstart, hstop⟩ := h
  intro t ht
  constructor
  · obtain ⟨behind, rfl⟩ := List.head?_eq_some_iff.mp hfirst
    rw [hstart]
    rcases List.mem_cons.mp ht with rfl | ht
    · exact Nat.le_refl _
    · exact Nat.le_trans first.span.start_le_stop ((List.pairwise_cons.mp hordered).1 t ht)
  · obtain ⟨before, rfl⟩ := List.getLast?_eq_some_iff.mp hlast
    rw [hstop]
    rcases List.mem_append.mp ht with ht | ht
    · have hle := (List.pairwise_append.mp hordered).2.2 t ht last (List.mem_singleton.mpr rfl)
      exact Nat.le_trans hle last.span.start_le_stop
    · cases List.mem_singleton.mp ht
      exact Nat.le_refl _

end Span.Covers

namespace Tree

/-- The span of an expression with leaves in order runs from its first leaf to its last one. -/
theorem Expr.span_covers : ∀ e : Expr, e.leaves.Pairwise (·.stop ≤ ·.start) →
    e.span.Covers e.leaves
  | .literal t, _ => .leaf t
  | .name t, _ => .leaf t
  | .unary op e, h => (Span.Covers.leaf op).union [] h (span_covers e (List.pairwise_cons.mp h).2)
  | .binary l op r, h => by
    have hl := span_covers l (List.pairwise_append.mp h).1
    have hr := span_covers r (List.pairwise_cons.mp (List.pairwise_append.mp h).2.1).2
    rw [leaves, List.append_cons] at h ⊢
    exact hl.union [op] h hr
  | .parenthesized o e c, h => (Span.Covers.leaf o).union e.leaves h (.leaf c)
  | .assignment x eq e, h => by
    have he := span_covers e (List.pairwise_cons.mp (List.pairwise_cons.mp h).2).2
    exact (Span.Covers.leaf x).union [eq] h he

theorem Stmt.span_covers : ∀ s : Stmt, s.leaves.Pairwise (·.stop ≤ ·.start) →
    s.span.Covers s.leaves
  | .block o body c, h => (Span.Covers.leaf o).union (leavesOfList body) h (.leaf c)
  | .declaration k x eq e, h => by
    have he := e.span_covers (h.sublist (List.sublist_append_right [k, x, eq] _))
    exact (Span.Covers.leaf k).union [x, eq] h he
  | .ifThen k e s, h => by
    have hs := span_covers s (h.sublist (List.sublist_append_right (k :: e.leaves) _))
    exact (Span.Covers.leaf k).union e.leaves h hs
  | .ifElse k e s el t, h => by
    have hbehind := h.sublist (List.sublist_append_right (k :: (e.leaves ++ s.leaves)) _)
    have ht := span_covers t (List.pairwise_cons.mp hbehind).2
    have helse := (Span.Covers.leaf el).union [] hbehind ht
    exact (Span.Covers.leaf k).union (e.leaves ++ s.leaves) h helse
  | .whileLoop k e s, h => by
    have hs := span_covers s (h.sublist (List.sublist_append_right (k :: e.leaves) _))
    exact (Span.Covers.leaf k).union e.leaves h hs
  | .forLoop k x eq lo toKw hi s, h => by
    let front := [x, eq] ++ lo.leaves ++ toKw :: hi.leaves
    have hleaves : (forLoop k x eq lo toKw hi s).leaves = [k] ++ front ++ s.leaves := by
      simp [leaves, front]
    rw [hleaves] at h ⊢
    have hs := span_covers s (h.sublist (List.sublist_append_right _ _))
    exact (Span.Covers.leaf k).union front h hs
  | .expression e, h => by
    rw [leaves] at h ⊢
    exact e.span_covers h

/-- Whether tokens that are read have characters and stand one behind the other, an end token behind
them. -/
structure Stream (last : Token) (ts : List Token) : Prop where
  ordered : (ts ++ [last]).Pairwise (·.stop ≤ ·.start)
  text_ne : ∀ t ∈ ts, t.text ≠ ""

variable {last : Token} {ts mid rest : List Token}

namespace Stream

theorem of_suffix (h : Stream last ts) (hsuffix : rest <:+ ts) : Stream last rest where
  ordered := h.ordered.sublist (hsuffix.sublist.append_right _)
  text_ne t ht := h.text_ne t (hsuffix.subset ht)

theorem tail {t : Token} (h : Stream last (t :: ts)) : Stream last ts :=
  h.of_suffix (List.suffix_cons t ts)

theorem start_le (h : Stream last ts) (hsuffix : rest <:+ ts) :
    (ts.headD last).start ≤ (rest.headD last).start := by
  obtain ⟨used, rfl⟩ := hsuffix
  cases used with
  | nil => exact Nat.le_refl _
  | cons t used =>
    have hordered := h.ordered
    rw [List.cons_append, List.cons_append, List.pairwise_cons] at hordered
    refine Nat.le_trans t.span.start_le_stop (hordered.1 _ ?_)
    cases rest <;> simp

theorem stop_le {t : Token} (h : Stream last (t :: rest)) : t.stop ≤ (rest.headD last).start := by
  refine (List.pairwise_cons.mp h.ordered).1 _ ?_
  cases rest <;> simp

end Stream

/-- Whether spans stand in order between two places of the tokens that are read. -/
structure Between (last : Token) (ts : List Token) (spans : List Span) (rest : List Token) :
    Prop where
  ordered : spans.Pairwise (·.stop ≤ ·.start)
  low : ∀ s ∈ spans, (ts.headD last).start ≤ s.start
  high : ∀ s ∈ spans, s.stop ≤ (rest.headD last).start

namespace Between

variable {a b : List Span}

theorem nil : Between last ts [] rest := ⟨.nil, List.forall_mem_nil _, List.forall_mem_nil _⟩

theorem singleton {s : Span} (hlow : (ts.headD last).start ≤ s.start)
    (hhigh : s.stop ≤ (rest.headD last).start) : Between last ts [s] rest :=
  ⟨List.pairwise_singleton .., List.forall_mem_singleton.mpr hlow,
    List.forall_mem_singleton.mpr hhigh⟩

theorem append (h : Between last ts a mid) (h' : Between last mid b rest)
    (hlow : (ts.headD last).start ≤ (mid.headD last).start)
    (hhigh : (mid.headD last).start ≤ (rest.headD last).start) :
    Between last ts (a ++ b) rest where
  ordered := List.pairwise_append.mpr
    ⟨h.ordered, h'.ordered, fun s hs t ht => Nat.le_trans (h.high s hs) (h'.low t ht)⟩
  low := List.forall_mem_append.mpr ⟨h.low, fun t ht => Nat.le_trans hlow (h'.low t ht)⟩
  high := List.forall_mem_append.mpr ⟨fun s hs => Nat.le_trans (h.high s hs) hhigh, h'.high⟩

end Between

/-- Where the leaves and the complaints of a reading stand: in order, between its first token and
the one behind it. A leaf is one of the tokens read or made up where one of them starts, and each
complaint is about such a token. -/
structure Laid (last : Token) (ts leaves rest : List Token) (faults : List Diagnostic) : Prop where
  suffix : rest <:+ ts
  leaves_between : Between last ts (leaves.map Token.span) rest
  faults_between : Between last ts (faults.map fun d => .empty d.span.start) rest
  leaf : ∀ t ∈ leaves, t ∈ ts ∨ ∃ u ∈ ts ++ [last], ∃ kind, t = .missing kind u.start
  fault : ∀ d ∈ faults, ∃ t ∈ ts ++ [last], ∃ kind, d = Parsed.unexpected t kind

namespace Laid

variable {a b : List Token} {f g : List Diagnostic} {t : Token}

theorem nil : Laid last ts [] ts [] :=
  ⟨List.suffix_rfl, .nil, .nil, List.forall_mem_nil _, List.forall_mem_nil _⟩

theorem append (hts : Stream last ts) (h : Laid last ts a mid f) (h' : Laid last mid b rest g) :
    Laid last ts (a ++ b) rest (f ++ g) := by
  have hlow := hts.start_le h.suffix
  have hhigh := (hts.of_suffix h.suffix).start_le h'.suffix
  have hmem : ∀ u ∈ mid ++ [last], u ∈ ts ++ [last] := fun u hu =>
    List.mem_append.mpr ((List.mem_append.mp hu).imp_left (h.suffix.subset ·))
  refine ⟨h'.suffix.trans h.suffix, ?_, ?_, ?_, ?_⟩
  · rw [List.map_append]
    exact h.leaves_between.append h'.leaves_between hlow hhigh
  · rw [List.map_append]
    exact h.faults_between.append h'.faults_between hlow hhigh
  · refine List.forall_mem_append.mpr ⟨h.leaf, fun t ht => ?_⟩
    refine (h'.leaf t ht).imp (fun hread => h.suffix.subset hread) ?_
    rintro ⟨u, hu, kind, rfl⟩
    exact ⟨u, hmem u hu, kind, rfl⟩
  · refine List.forall_mem_append.mpr ⟨h.fault, fun d hd => ?_⟩
    obtain ⟨t, ht, kind, rfl⟩ := h'.fault d hd
    exact ⟨t, hmem t ht, kind, rfl⟩

theorem used (hts : Stream last (t :: rest)) : Laid last (t :: rest) [t] rest [] :=
  ⟨List.suffix_cons t rest, .singleton (Nat.le_refl _) hts.stop_le, .nil,
    List.forall_mem_singleton.mpr (.inl List.mem_cons_self), List.forall_mem_nil _⟩

theorem cons (hts : Stream last (t :: ts)) (h : Laid last ts a rest f) :
    Laid last (t :: ts) (t :: a) rest f :=
  (Laid.used hts).append hts h

theorem skip (hts : Stream last (t :: ts)) (h : Laid last ts a rest f) :
    Laid last (t :: ts) a rest f := by
  have hdropped : Laid last (t :: ts) [] ts [] :=
    ⟨List.suffix_cons t ts, .nil, .nil, List.forall_mem_nil _, List.forall_mem_nil _⟩
  exact hdropped.append hts h

theorem made (kind : TokenKind) :
    Laid last ts [.missing kind (ts.headD last).start] ts
      [Parsed.unexpected (ts.headD last) kind] := by
  have hhead : ts.headD last ∈ ts ++ [last] := by cases ts <;> simp
  exact ⟨List.suffix_rfl, .singleton (Nat.le_refl _) (Nat.le_refl _),
    .singleton (Nat.le_refl _) (Nat.le_refl _),
    List.forall_mem_singleton.mpr (.inr ⟨_, hhead, kind, rfl⟩),
    List.forall_mem_singleton.mpr ⟨_, hhead, kind, rfl⟩⟩

end Laid

variable {t : Token} {kind : TokenKind} {f : List Diagnostic}

theorem Laid.ordered {leaves : List Token} (h : Laid last ts leaves rest f) :
    leaves.Pairwise (·.stop ≤ ·.start) :=
  List.pairwise_map.mp h.leaves_between.ordered

/-- What is read next starts behind the span of what was read. -/
theorem Laid.stop_le {leaves : List Token} {s : Span} (h : Laid last ts leaves rest f)
    (hs : s.Covers leaves) : s.stop ≤ (rest.headD last).start := by
  obtain ⟨-, t, -, ht, -, hstop⟩ := hs
  rw [hstop]
  exact h.leaves_between.high _ (List.mem_map_of_mem (List.mem_of_mem_getLast? ht))

theorem ReadsToken.laid (h : ReadsToken last kind ts t rest f) (hts : Stream last ts) :
    Laid last ts [t] rest f := by
  cases h with
  | found _ => exact .used hts
  | missing _ => exact .made kind

mutual

theorem ReadsExpr.laid {ts rest : List Token} {e : Expr} {f : List Diagnostic} :
    ReadsExpr last ts e rest f → Stream last ts → Laid last ts e.leaves rest f
  | .assignment _ _ h, hts => by
    exact ((h.laid hts.tail.tail).cons hts.tail).cons hts
  | .binary _ h, hts => h.laid hts

theorem ReadsBinary.laid {parent : Precedence} {ts rest : List Token} {e : Expr}
    {f : List Diagnostic} :
    ReadsBinary last parent ts e rest f → Stream last ts → Laid last ts e.leaves rest f
  | .unary _ h hall, hts => by
    have hoperand := (h.laid hts.tail).cons hts
    obtain ⟨more, hleaves, hmore⟩ := hall.laid (hts.of_suffix hoperand.suffix)
    rw [hleaves]
    exact hoperand.append hts hmore
  | .primary _ h hall, hts => by
    have hleft := h.laid hts
    obtain ⟨more, hleaves, hmore⟩ := hall.laid (hts.of_suffix hleft.suffix)
    rw [hleaves]
    exact hleft.append hts hmore

theorem ReadsOperators.laid {parent : Precedence} {ts rest : List Token} {left e : Expr}
    {f : List Diagnostic} :
    ReadsOperators last parent left ts e rest f → Stream last ts →
      ∃ more, e.leaves = left.leaves ++ more ∧ Laid last ts more rest f
  | .stop _, _ => ⟨[], (List.append_nil _).symm, .nil⟩
  | .step _ _ h hall, hts => by
    have hright := (h.laid hts.tail).cons hts
    obtain ⟨more, hleaves, hmore⟩ := hall.laid (hts.of_suffix hright.suffix)
    refine ⟨_, ?_, hright.append hts hmore⟩
    rw [hleaves, Expr.leaves, List.append_assoc]

theorem ReadsPrimary.laid {ts rest : List Token} {e : Expr} {f : List Diagnostic} :
    ReadsPrimary last ts e rest f → Stream last ts → Laid last ts e.leaves rest f
  | .parenthesized _ h hclose, hts => by
    have hinner := (h.laid hts.tail).cons hts
    exact hinner.append hts (hclose.laid (hts.of_suffix hinner.suffix))
  | .truth _, hts => .used hts
  | .name _, hts => .used hts
  | .number _ h, hts => h.laid hts

end

mutual

theorem ReadsStmt.laid {ts rest dropped : List Token} {s : Stmt} {f : List Diagnostic} :
    ReadsStmt last ts s rest f dropped → Stream last ts → Laid last ts s.leaves rest f
  | .block _ h hclose, hts => by
    have hbody := (h.laid hts.tail).cons hts
    have hall := hbody.append hts (hclose.laid (hts.of_suffix hbody.suffix))
    simpa [Stmt.leaves] using hall
  | .declaration _ hx heq he, hts => by
    have hname := (hx.laid hts.tail).cons hts
    have hsign := hname.append hts (heq.laid (hts.of_suffix hname.suffix))
    exact hsign.append hts (he.laid (hts.of_suffix hsign.suffix))
  | .ifThen _ he hs _, hts => by
    have hcondition := (he.laid hts.tail).cons hts
    exact hcondition.append hts (hs.laid (hts.of_suffix hcondition.suffix))
  | .ifElse _ he hs _ ht, hts => by
    have hcondition := (he.laid hts.tail).cons hts
    have hthen := hcondition.append hts (hs.laid (hts.of_suffix hcondition.suffix))
    have hbehind := hts.of_suffix hthen.suffix
    have helse := (ht.laid hbehind.tail).cons hbehind
    simpa [Stmt.leaves] using hthen.append hts helse
  | .whileLoop _ he hs, hts => by
    have hcondition := (he.laid hts.tail).cons hts
    exact hcondition.append hts (hs.laid (hts.of_suffix hcondition.suffix))
  | .forLoop _ hx heq hlower hto hupper hs, hts => by
    have hname := (hx.laid hts.tail).cons hts
    have hsign := hname.append hts (heq.laid (hts.of_suffix hname.suffix))
    have hlo := hsign.append hts (hlower.laid (hts.of_suffix hsign.suffix))
    have htoKw := hlo.append hts (hto.laid (hts.of_suffix hlo.suffix))
    have hhi := htoKw.append hts (hupper.laid (hts.of_suffix htoKw.suffix))
    simpa [Stmt.leaves] using hhi.append hts (hs.laid (hts.of_suffix hhi.suffix))
  | .expression _ h, hts => h.laid hts

theorem ReadsStmts.laid {ts rest dropped : List Token} {ss : List Stmt} {f : List Diagnostic} :
    ReadsStmts last ts ss rest f dropped → Stream last ts →
      Laid last ts (ss.flatMap Stmt.leaves) rest f
  | .done _, _ => .nil
  | .used _ h _ hrest, hts => by
    have hs := h.laid hts
    exact hs.append hts (hrest.laid (hts.of_suffix hs.suffix))
  | .idle _ h hidle hrest, hts => by
    have hs := h.laid hts
    -- a statement that used no token is followed by what it started with
    have hmid := hs.suffix.eq_of_length_le (Nat.le_of_not_lt hidle)
    rw [hmid] at hs
    exact hs.append hts ((hrest.laid hts.tail).skip hts)

end

theorem ReadsExpr.span_covers {e : Expr} (h : ReadsExpr last ts e rest f)
    (hts : Stream last ts) : e.span.Covers e.leaves :=
  e.span_covers (h.laid hts).ordered

theorem ReadsStmt.span_covers {s : Stmt} {dropped : List Token}
    (h : ReadsStmt last ts s rest f dropped) (hts : Stream last ts) : s.span.Covers s.leaves :=
  s.span_covers (h.laid hts).ordered

end Tree

end Lumen
