import Lumen.Bound.Lower
import Lumen.Proofs.Bound.Names
import Lumen.Proofs.Dump.Reading
import Lumen.Tree.Node

/-!
# Labels fill one line

Every label of a dump starts with the name of a kind, and what stands behind it has no line feed: a
value in digits, a number of a label, or a name that has none itself.
-/

namespace Lumen

open Lumen.Dump (OneLine Solid)

theorem Dump.oneLine_repr (n : Nat) : OneLine n.repr := by
  intro h
  rw [Nat.toList_repr] at h
  exact absurd (Nat.isDigit_of_mem_toDigits (by decide) (by decide) h) (by decide)

theorem Value.oneLine_text (v : Value) : OneLine v.text := by
  cases v with
  | bool b =>
    cases b <;> decide
  | int n =>
    rw [text]
    cases n.toInt with
    | ofNat m => exact Dump.oneLine_repr m
    | negSucc m => exact Dump.OneLine.append (by decide) (Dump.oneLine_repr (m + 1))

/-- Whether a label starts with a capital letter and has letters only. -/
def Dump.isTitle (label : String) : Bool :=
  label.toList.head?.any Char.isUpper && label.toList.all Char.isAlpha

/-- A title is solid, since neither guides nor line feeds are letters. -/
theorem Dump.solid_of_isTitle {label : String} (h : isTitle label = true) : Solid label := by
  rw [isTitle, Bool.and_eq_true, Option.any_eq_true, List.all_eq_true] at h
  obtain ⟨⟨c, hhead, hc⟩, hletters⟩ := h
  obtain ⟨cs, hlabel⟩ := List.head?_eq_some_iff.mp hhead
  refine ⟨⟨c, cs, hlabel, ?_⟩, fun hmem => absurd (hletters _ hmem) (by decide)⟩
  cases hguide : isGuide c with
  | false => rfl
  | true =>
    simp only [isGuide, Bool.or_eq_true, decide_eq_true_eq] at hguide
    rcases hguide with (((rfl | rfl) | rfl) | rfl) | rfl <;> cases hc

theorem TokenKind.solid_name (k : TokenKind) : Solid k.name :=
  Dump.solid_of_isTitle (by cases k <;> decide +kernel)

theorem NodeKind.solid_title (k : NodeKind) : Solid k.title :=
  Dump.solid_of_isTitle (by cases k <;> decide +kernel)

theorem Bound.Kind.solid_name (k : Bound.Kind) : Solid k.name :=
  Dump.solid_of_isTitle (by cases k <;> decide +kernel)

namespace Tree.Node

theorem solid_label (n : Node) : Solid n.label := by
  cases n with
  | token t =>
    rw [label, tokenLabel]
    have hkind := t.kind.solid_name
    split
    · next v _ => exact (hkind.append (by decide)).append v.oneLine_text
    · split
      · exact hkind.append (by decide)
      · exact hkind
  | expr e => exact e.kind.solid_title
  | stmt s => exact s.kind.solid_title
  | elseClause k s => exact NodeKind.elseClause.solid_title
  | program p => exact NodeKind.program.solid_title

end Tree.Node

namespace Bound

theorem oneLine_numbered (n : Nat) : OneLine (numbered n).name :=
  Dump.OneLine.append (by decide) (Dump.oneLine_repr n)

theorem oneLine_signature {v : Variable} (h : OneLine v.name) : OneLine v.signature := by
  have hkeyword : OneLine v.keyword := by
    rw [Variable.keyword]
    cases v.readOnly <;> decide
  have htype : OneLine v.type.name := by
    cases v.type <;> decide
  exact (((hkeyword.append (by decide)).append h).append (by decide)).append htype

theorem Expr.oneLine_property {e : Expr} (h : (Node.expr e).Named OneLine) :
    OneLine e.property := by
  cases e with
  | literal v => exact Dump.OneLine.append (by decide) v.oneLine_text
  | «variable» v => exact Dump.OneLine.append (by decide) h
  | assignment v e => exact Dump.OneLine.append (by decide) h
  | unary op e =>
    refine Dump.OneLine.append (by decide) ?_
    cases op.kind <;> decide
  | binary l op r =>
    refine Dump.OneLine.append (by decide) ?_
    cases op.kind <;> decide

theorem Node.solid_label {n : Node} (h : n.Named OneLine) : Solid n.label := by
  cases n with
  | stmt s =>
    have hkind := s.kind.solid_name
    rw [label]
    cases s with
    | declaration v e => exact (hkind.append (by decide)).append (oneLine_signature h)
    | forLoop v lo hi s => exact (hkind.append (by decide)).append (oneLine_signature h)
    | jump l => exact (hkind.append (by decide)).append (Dump.OneLine.append (by decide) h)
    | jumpIf l c onFalse =>
      have hflag : OneLine (toString onFalse) := by cases onFalse <;> decide
      exact (hkind.append (by decide)).append
        (((Dump.OneLine.append (by decide) h).append (by decide)).append hflag)
    | label l => exact (hkind.append (by decide)).append (Dump.OneLine.append (by decide) h)
    | block | expression | ifThen | ifElse | whileLoop => exact hkind
  | expr e =>
    have hkind := e.kind.solid_name
    have htype : OneLine e.type.name := by
      cases e.type <;> decide
    exact (((hkind.append (by decide)).append (Expr.oneLine_property h)).append
      (by decide)).append htype

end Bound

end Lumen
