import Lumen.Proofs.Binding.Blame
import Lumen.Proofs.Source.Pointing
import Lumen.Submission

/-!
# Complaints point at what they are about

The span of every complaint about a submission is a piece of its text. It is the numeral, character,
operator or name that the message quotes, the token that was found instead of an expected one, the
equals sign of an assignment to a variable that is not to be assigned, or the expression with the
wrong type.
-/

namespace Lumen

variable [Xid]

open Lumen.Source (IsToken)
open Lumen.Tree (Expr Stmt)

/-- Whether an expression is a condition, a bound or the right side of an assignment in a tree. -/
def Tree.Stmt.Requires (tree : Stmt) (e : Expr) : Prop :=
  (∃ p s, tree.at? p = some s ∧ e ∈ s.checked) ∨
    ∃ w x eq, tree.Has w ∧ .assignment x eq e ∈ w.parts

/-- Whether the span of a complaint about a text with a tree is what the message of the complaint
says. -/
def Diagnostic.Points (text : List Char) (tree : Stmt) (d : Diagnostic) : Prop :=
  match d.cause with
  | .invalidNumber number _ => IsToken text d.span number (· = .number)
  | .badCharacter character => IsToken text d.span character (· = .unknown)
  | .unexpectedToken actual _ => ∃ word, IsToken text d.span word (·.name = actual)
  | .undefinedUnaryOperator op _ => IsToken text d.span op (·.isUnaryOperator = true)
  | .undefinedBinaryOperator op _ _ =>
    IsToken text d.span op fun k => ∃ p, k.binaryPrecedence? = some p
  | .undefinedName name => IsToken text d.span name (· = .identifier)
  | .alreadyDeclared name => IsToken text d.span name (· = .identifier)
  | .cannotAssign name => IsToken text d.span "=" (· = .equals) ∧
    ∃ e x eq source, tree.Has e ∧ .assignment x eq source ∈ e.parts ∧ x.text = name ∧
      d.span = eq.span
  | .cannotConvert found _ => (∃ piece, d.span.Cuts text piece) ∧
    ∃ e, tree.Requires e ∧ d.span = e.span ∧ d.span.Covers e.leaves ∧
      ∃ env, (Binding.expr env e).phrase.type.name = found

variable {text : List Char} {tree : Stmt} {d : Diagnostic} {env : Environment}

namespace Diagnostic.Points

theorem of_fault? {t : Token} (ht : t ∈ Token.scan text) (h : t.fault? = some d) :
    d.Points text tree := by
  rw [Token.fault?] at h
  split at h
  · next hkind =>
    cases h
    exact Source.isToken_of_kind ht hkind
  · next hkind _ =>
    cases h
    exact Source.isToken_of_kind ht hkind
  · cases h

theorem of_unexpected {t : Token} (ht : t ∈ Token.scan text) (kind : TokenKind) :
    (Tree.Parsed.unexpected t kind).Points text tree :=
  ⟨t.text, Token.cuts_of_mem ht, t, ht, rfl, rfl, rfl⟩

theorem cuts (h : d.Points text tree) : d.span.Cuts text (d.span.slice text) := by
  have hpiece : ∃ piece, d.span.Cuts text piece := by
    obtain ⟨span, cause⟩ := d
    cases cause with
    | cannotConvert => exact h.1
    | cannotAssign => exact ⟨_, h.1.1⟩
    | unexpectedToken =>
      obtain ⟨word, hword, -⟩ := h
      exact ⟨_, hword⟩
    | invalidNumber | badCharacter | undefinedUnaryOperator | undefinedBinaryOperator
    | undefinedName | alreadyDeclared => exact ⟨_, h.1⟩
  obtain ⟨piece, hcuts⟩ := hpiece
  rwa [hcuts.slice_eq]

end Diagnostic.Points

theorem Source.points_parse (h : d ∈ (parse text).diagnostics) : d.Points text tree := by
  obtain ⟨scanned, parsed, hsplit, hscanned, hparsed, -⟩ := (inOrder_parse text).exists_split
  rw [hsplit] at h
  rcases List.mem_append.mp h with h | h
  · obtain ⟨t, ht, hfault⟩ := hscanned d h
    exact .of_fault? ht hfault
  · obtain ⟨t, ht, kind, rfl⟩ := hparsed d h
    exact .of_unexpected ht kind

section

variable (hread : tree.ReadIn (Source.endToken text) (Source.significant (Token.scan text)))

include hread

theorem Tree.Stmt.ReadIn.points_mismatch {e w : Expr} {type : Ty} (hw : tree.Has w)
    (he : e ∈ w.wholes) (hrequires : tree.Requires e) :
    (Binding.mismatch e (Binding.expr env e).phrase.type type).Points text tree := by
  obtain ⟨hcovers, hcuts⟩ :=
    Source.span_of_readIn (hread.wholes (Source.stream_significant text) hw e he)
  exact ⟨hcuts, e, hrequires, rfl, hcovers, env, rfl⟩

/-- A complaint about a part of an expression points at a token of the part, or at the right side
of an assignment. -/
theorem Tree.Stmt.ReadIn.points_of_blames {w a : Expr} (hw : tree.Has w) (ha : a ∈ w.parts)
    (h : Binding.Blames env a d) : d.Points text tree := by
  obtain ⟨ts, rest, f, hsuffix, hexpr⟩ :=
    hread.wholes (Source.stream_significant text) hw w List.mem_cons_self
  have hformed := (hexpr.formed (Source.stream_significant text) hsuffix).parts a ha
  cases h with
  | name =>
    obtain ⟨ht, hkind⟩ := hformed
    exact Source.isToken_of_kind (Source.mem_scan_of_significant ht) hkind
  | unary =>
    obtain ⟨⟨hop, hkind⟩, -⟩ := hformed
    have hscan := Source.mem_scan_of_significant hop
    exact ⟨Token.cuts_of_mem hscan, _, hscan, rfl, rfl, hkind⟩
  | binary =>
    obtain ⟨hop, p, hkind, -⟩ := hformed
    have hscan := Source.mem_scan_of_significant hop
    exact ⟨Token.cuts_of_mem hscan, _, hscan, rfl, rfl, p, hkind⟩
  | target =>
    obtain ⟨⟨hx, hkind⟩, -⟩ := hformed
    exact Source.isToken_of_kind (Source.mem_scan_of_significant hx) hkind
  | @readOnly x eq e =>
    obtain ⟨-, ⟨heq, hkind⟩, -⟩ := hformed
    have hscan := Source.mem_scan_of_significant heq
    have htext : eq.text = "=" := Token.text_of_punctuation hscan (by rw [hkind]; rfl)
    exact ⟨htext ▸ Source.isToken_of_kind hscan hkind, w, x, eq, e, hw, ha, rfl, rfl⟩
  | @source x eq e type =>
    have hwhole : e ∈ w.wholes := List.mem_cons_of_mem _ (Expr.mem_enclosed ha)
    exact hread.points_mismatch hw hwhole (.inr ⟨w, x, eq, hw, ha⟩)

theorem Tree.Stmt.ReadIn.points_of_blamesStmt {p : Path} {u : Stmt} (hu : tree.at? p = some u)
    (h : Binding.BlamesStmt env u d) : d.Points text tree := by
  cases h with
  | operand he ha hblames => exact hread.points_of_blames ⟨p, u, hu, he⟩ ha hblames
  | checked he =>
    have hw : tree.Has _ := ⟨p, u, hu, u.checked_subset_operands he⟩
    exact hread.points_mismatch hw List.mem_cons_self (.inl ⟨p, u, hu, he⟩)
  | declared hx hmade =>
    obtain ⟨ts, rest, f, dropped, hsuffix, hstmt⟩ :=
      hread.at (Source.stream_significant text) hu
    obtain ⟨hmem, hkind⟩ := hstmt.declaredToken hsuffix hx hmade
    exact Source.isToken_of_kind (Source.mem_scan_of_significant hmem) hkind

end

namespace Submission

/-- Every complaint about a submission points at a piece of its text, which is what the complaint is
about; and the complaints of scanning and of parsing the text come in order. -/
theorem diagnostics_point (chain : List Submission) (fresh : Nat) (text : List Char) :
    let c := (compile chain fresh text).submission
    (∀ d ∈ c.diagnostics, d.span.Cuts text (d.span.slice text) ∧
        d.Points text c.source.program.statement) ∧
      Source.InOrder text c.source.diagnostics := by
  intro c
  have hpoints : ∀ d ∈ c.diagnostics, d.Points text c.source.program.statement := by
    intro d hd
    rcases List.mem_append.mp hd with hd | hd
    · exact Source.points_parse hd
    · obtain ⟨p, u, env, hu, hblames⟩ := Binding.exists_blamesStmt hd
      exact (Source.readIn_parse text).points_of_blamesStmt hu hblames
  exact ⟨fun d hd => ⟨(hpoints d hd).cuts, hpoints d hd⟩, Source.inOrder_parse text⟩

end Submission

end Lumen
