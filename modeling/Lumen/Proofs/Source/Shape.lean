import Lumen.Proofs.Source.Accounting
import Lumen.Proofs.Tree.Shape

/-!
# The shape of every parsed tree

What the reading of a phrase uses ends before the end of its span, tokens that blocks drop included,
and what is read next starts behind it. So the token that follows a phrase in the text is the one at
which its reading stopped, and the trees of all texts, well formed or not, have the shape that the
levels of the operators ask for and are read as long as possible.
-/

namespace Lumen

namespace Tree

variable {last t : Token} {kind : TokenKind} {ts mid rest : List Token} {e : Expr} {s : Stmt}
  {f : List Diagnostic} {dropped : List Token} {stop stop' : Nat}

/-- Whether the tokens that a reading uses start before a position, which comes no later than the
token behind them. -/
structure Reaches (last : Token) (ts rest : List Token) (stop : Nat) : Prop where
  exists_used : ∃ used, ts = used ++ rest ∧ ∀ t ∈ used, t.start < stop
  start_le : (ts.headD last).start ≤ stop

theorem Stream.start_lt {used : List Token} (hts : Stream last (used ++ rest)) :
    ∀ t ∈ used, t.start < (rest.headD last).start := by
  intro t ht
  have hordered := hts.ordered
  rw [List.append_assoc, List.pairwise_append] at hordered
  have hnext : rest.headD last ∈ rest ++ [last] := by cases rest <;> simp
  exact Nat.lt_of_lt_of_le (Token.start_lt_stop (hts.text_ne t (List.mem_append_left _ ht)))
    (hordered.2.2 t ht _ hnext)

theorem Reaches.behind (h : Reaches last mid rest stop) (hts : Stream last ts) (hmid : mid <:+ ts)
    (hle : stop ≤ stop') : Reaches last ts rest stop' := by
  obtain ⟨used, rfl, hused⟩ := h.exists_used
  obtain ⟨before, rfl⟩ := hmid
  have hbefore := hts.start_lt
  refine ⟨⟨before ++ used, (List.append_assoc ..).symm, ?_⟩, ?_⟩
  · refine List.forall_mem_append.mpr ⟨fun t ht => ?_, fun t ht => ?_⟩
    · exact Nat.lt_of_lt_of_le (hbefore t ht) (Nat.le_trans h.start_le hle)
    · exact Nat.lt_of_lt_of_le (hused t ht) hle
  · exact Nat.le_trans (hts.start_le (List.suffix_append ..)) (Nat.le_trans h.start_le hle)

theorem le_stop_union (a b : Span) : b.stop ≤ (a.union b).stop := by
  rw [Span.stop_union]
  exact Nat.le_max_right ..

theorem ReadsToken.reaches (h : ReadsToken last kind ts t rest f) (hts : Stream last ts) :
    Reaches last ts rest t.stop := by
  cases h with
  | found _ =>
    have hlt := Token.start_lt_stop (hts.text_ne _ List.mem_cons_self)
    exact ⟨⟨[_], rfl, List.forall_mem_singleton.mpr hlt⟩, Nat.le_of_lt hlt⟩
  | missing _ => exact ⟨⟨[], rfl, List.forall_mem_nil _⟩, Nat.le_refl _⟩

/-- All tokens that the reading of an expression uses are leaves of it. -/
theorem ReadsExpr.reaches (h : ReadsExpr last ts e rest f) (hts : Stream last ts) :
    Reaches last ts rest e.span.stop := by
  have hnone : NoneMissing ts := fun t ht => by simp [Token.isMissing, hts.text_ne t ht]
  have hlaid := h.laid hts
  have hmem := (h.span_covers hts).mem hlaid.ordered
  obtain ⟨used, hused, -, hperm⟩ := (h.accounts hnone).exists_used
  rw [List.append_nil] at hperm
  refine ⟨⟨used, hused, fun t ht => ?_⟩, ?_⟩
  · have hleaf : t ∈ e.leaves := (List.mem_filter.mp (hperm.mem_iff.mp ht)).1
    have htext : t.text ≠ "" := hts.text_ne t (hused ▸ List.mem_append_left rest ht)
    exact Nat.lt_of_lt_of_le (Token.start_lt_stop htext) (hmem t hleaf).2
  · obtain ⟨t, ht⟩ := List.exists_mem_of_ne_nil _ e.leaves_ne_nil
    have hlow := hlaid.leaves_between.low _ (List.mem_map_of_mem ht)
    exact Nat.le_trans hlow (Nat.le_trans t.span.start_le_stop (hmem t ht).2)

theorem ReadsStmt.reaches : ∀ {ts rest dropped : List Token} {s : Stmt} {f : List Diagnostic},
    ReadsStmt last ts s rest f dropped → Stream last ts → Reaches last ts rest s.span.stop
  | _, _, _, _, _, .block (o := o) (c := c) _ h hclose, hts => by
    have hmid := (h.laid (hts.of_suffix (List.suffix_cons o _))).suffix.trans
      (List.suffix_cons o _)
    exact (hclose.reaches (hts.of_suffix hmid)).behind hts hmid (le_stop_union o.span c.span)
  | _, _, _, _, _, .declaration (k := k) _ hx heq he, hts => by
    have hmid := heq.suffix.trans (hx.suffix.trans (List.suffix_cons k _))
    exact (he.reaches (hts.of_suffix hmid)).behind hts hmid (le_stop_union ..)
  | _, _, _, _, _, .ifThen _ he hs _, hts => by
    have hmid := he.suffix hts (List.suffix_cons _ _)
    exact (hs.reaches (hts.of_suffix hmid)).behind hts hmid (le_stop_union ..)
  | _, _, _, _, _, .ifElse _ he hs _ ht, hts => by
    have hmid := he.suffix hts (List.suffix_cons _ _)
    have hbehind := suffix_of_cons (hs.suffix hts hmid)
    exact (ht.reaches (hts.of_suffix hbehind)).behind hts hbehind
      (Nat.le_trans (le_stop_union ..) (le_stop_union ..))
  | _, _, _, _, _, .whileLoop _ he hs, hts => by
    have hmid := he.suffix hts (List.suffix_cons _ _)
    exact (hs.reaches (hts.of_suffix hmid)).behind hts hmid (le_stop_union ..)
  | _, _, _, _, _, .forLoop (k := k) _ hx heq hlower hto hupper hs, hts => by
    have hhead := heq.suffix.trans (hx.suffix.trans (List.suffix_cons k _))
    have hmid := hupper.suffix hts (hto.suffix.trans (hlower.suffix hts hhead))
    exact (hs.reaches (hts.of_suffix hmid)).behind hts hmid (le_stop_union ..)
  | _, _, _, _, _, .expression _ h, hts => h.reaches hts

end Tree

namespace Source

open Lumen.Tree (Expr Stmt Stream Reaches ReadsExpr ReadsStmt)

theorem kind_headD (text : List Char) (rest : List Token) :
    (rest.headD (endToken text)).kind = Tree.next rest := by
  cases rest <;> rfl

variable [Xid]

/-- The first token of a text, stray characters aside, that does not start before a position. -/
def following (text : List Char) (pos : Nat) : Token :=
  ((signs text).find? (pos ≤ ·.start)).getD (endToken text)

theorem stream_significant (text : List Char) :
    Stream (endToken text) (significant (Token.scan text)) where
  ordered := by
    rw [← signs_eq]
    exact (Token.scan_apart text).sublist List.filter_sublist
  text_ne _ ht := (proper_of_significant ht).text_ne

variable {text : List Char} {ts rest : List Token} {stop : Nat}

theorem following_eq (hts : ts <:+ significant (Token.scan text))
    (h : Reaches (endToken text) ts rest stop) (hle : stop ≤ (rest.headD (endToken text)).start) :
    following text stop = rest.headD (endToken text) := by
  have hall := (stream_significant text).of_suffix List.suffix_rfl
  obtain ⟨⟨used, hused, hbefore⟩, -⟩ := h.behind hall hts (Nat.le_refl _)
  have hnone : used.find? (stop ≤ ·.start) = none :=
    List.find?_eq_none.mpr fun t ht => by simpa using hbefore t ht
  rw [following, signs_eq, hused, List.append_assoc, List.find?_append, hnone, Option.none_or]
  cases rest with
  | nil =>
    rw [List.nil_append, List.find?_cons_of_pos (by simpa using hle)]
    rfl
  | cons t rest =>
    rw [List.cons_append, List.find?_cons_of_pos (by simpa using hle)]
    rfl

theorem readIn_parse (text : List Char) :
    (parse text).program.statement.ReadIn (endToken text) (significant (Token.scan text)) := by
  have hread := reads_parse text
  generalize parse text = src at hread
  cases hread with
  | whole h => exact ⟨_, _, _, _, List.suffix_rfl, h⟩
  | part h => exact ⟨_, _, _, _, List.suffix_rfl, h⟩

theorem following_expr {e : Expr}
    (h : e.ReadIn (endToken text) (significant (Token.scan text))) :
    (following text e.span.stop).kind.binaryPrecedence? = none ∧
      (e.kind = .name → (following text e.span.stop).kind ≠ .equals) := by
  obtain ⟨ts, rest, f, hsuffix, hread⟩ := h
  have hts := (stream_significant text).of_suffix hsuffix
  have hle := (hread.laid hts).stop_le (hread.span_covers hts)
  rw [following_eq hsuffix (hread.reaches hts) hle, kind_headD]
  refine ⟨Tree.next_binaryPrecedence?_of_stopsAt hread.stopsAt, fun hkind => ?_⟩
  cases e with
  | name t => exact hread.next_ne_equals
  | literal | unary | binary | parenthesized | assignment => cases hkind

theorem following_ifThen {k : Token} {c : Expr} {s : Stmt}
    (h : (Stmt.ifThen k c s).ReadIn (endToken text) (significant (Token.scan text))) :
    (following text (Stmt.ifThen k c s).span.stop).kind ≠ .elseKeyword := by
  obtain ⟨ts, rest, f, dropped, hsuffix, hread⟩ := h
  have hts := (stream_significant text).of_suffix hsuffix
  have hle := (hread.laid hts).stop_le (hread.span_covers hts)
  rw [following_eq hsuffix (hread.reaches hts) hle, kind_headD]
  cases hread with
  | ifThen _ _ _ hnext => exact hnext

/-- The shape of the tree of a text. Operands bind as tight as their operators ask for; assignments
are whole expressions; behind a whole expression stands no binary operator, nor an equals sign if it
is a name; and behind an if without else stands no else. -/
structure WellShaped (text : List Char) (t : Stmt) : Prop where
  shaped : ∀ e, t.Has e → ∀ a ∈ e.parts, a.Shaped
  assignments : ∀ e, t.Has e →
    e.parts.filter (·.kind = .assignment) = e.wholes.filter (·.kind = .assignment)
  longest : ∀ e, t.Has e → ∀ a ∈ e.wholes,
    (following text a.span.stop).kind.binaryPrecedence? = none ∧
      (a.kind = .name → (following text a.span.stop).kind ≠ .equals)
  nearest : ∀ p k c s, t.at? p = some (.ifThen k c s) →
    (following text (Stmt.ifThen k c s).span.stop).kind ≠ .elseKeyword

/-- The tree of every text has the shape that the grammar asks for, whatever was made up in it. -/
theorem wellShaped_parse (text : List Char) : WellShaped text (parse text).program.statement := by
  have hall := stream_significant text
  have hread := readIn_parse text
  have hshaped : ∀ e, (parse text).program.statement.Has e → ∀ a ∈ e.parts, a.Shaped := by
    intro e he a ha
    obtain ⟨ts, rest, f, hts, hexpr⟩ := hread.wholes hall he e List.mem_cons_self
    exact ((hexpr.formed hall hts).parts a ha).shaped
  refine ⟨hshaped, fun e he => Expr.filter_parts (hshaped e he), fun e he a ha => ?_,
    fun p k c s hp => ?_⟩
  · exact following_expr (hread.wholes hall he a ha)
  · exact following_ifThen (hread.at hall hp)

end Source

end Lumen
