import Lumen.Proofs.Token.Scan
import Lumen.Proofs.Tree.Reading

/-!
# Reading a source

The parser is given the significant tokens of a text, which have characters and stand in order. It
reads a statement from them. Then either no token is left, and the end token of the text joins the
tree, or one is left that cannot be used, and an end token is made up in its place.
-/

namespace Lumen.Source

variable [Xid]

open Lumen.Tree (Parsed ReadsStmt)

/-- The tokens of a text without stray characters, the end token last. -/
def signs (text : List Char) : List Token := (Token.scan text).filter (·.kind ≠ .unknown)

def dropped (text : List Char) : List Token :=
  Parsed.dropped (endToken text) (significant (Token.scan text))

theorem significant_eq (text : List Char) :
    significant (Token.scan text) = (Token.scanInner text).filter Token.isSignificant := by
  obtain ⟨hscan, -⟩ := Token.scan_eq text
  rw [significant, hscan, List.filter_append]
  exact List.append_nil _

theorem signs_eq (text : List Char) :
    signs text = significant (Token.scan text) ++ [endToken text] := by
  obtain ⟨hscan, hinner⟩ := Token.scan_eq text
  have hfilter : (Token.scanInner text).filter (·.kind ≠ .unknown) =
      (Token.scanInner text).filter Token.isSignificant := by
    refine List.filter_congr fun t ht => ?_
    simp [Token.isSignificant, (hinner t ht).kind_ne]
  rw [significant_eq, ← hfilter, signs, hscan, List.filter_append]
  rfl

theorem proper_of_significant {text : List Char} {t : Token}
    (h : t ∈ significant (Token.scan text)) : t.Proper := by
  rw [significant_eq] at h
  exact (Token.scan_eq text).2 t (List.mem_filter.mp h).1

theorem signs_ordered (text : List Char) : (signs text).Pairwise (·.start < ·.start) :=
  (Token.scan_ordered text).sublist List.filter_sublist

/-- How a text is read: to its end, or up to a token that cannot be used. -/
inductive Reads (text : List Char) : Source → Prop
  | whole {s : Tree.Stmt} {f : List Diagnostic} :
    ReadsStmt (endToken text) (significant (Token.scan text)) s [] f (dropped text) →
      Reads text ⟨text, ⟨s, endToken text⟩,
        Token.faults (readUpTo (endToken text) (Token.scan text)) ++ f⟩
  | part {s : Tree.Stmt} {found : Token} {rest : List Token} {f : List Diagnostic} :
    ReadsStmt (endToken text) (significant (Token.scan text)) s (found :: rest) f
        (dropped text) →
      Reads text ⟨text, ⟨s, .missing .endOfFile found.start⟩,
        Token.faults (readUpTo found (Token.scan text)) ++
          (f ++ [Parsed.unexpected found .endOfFile])⟩

theorem reads_parse (text : List Char) : Reads text (parse text) := by
  have hread := @Parsed.readsStmt_stmt (endToken text) (significant (Token.scan text))
  rw [parse, Parsed.program]
  split
  · next h =>
    have hrest := List.head?_eq_none_iff.mp h
    rw [hrest] at hread
    simp only [hrest, List.headD_nil]
    exact .whole hread
  · next found h =>
    obtain ⟨rest, hrest⟩ := List.head?_eq_some_iff.mp h
    rw [hrest] at hread
    simp only [hrest, List.headD_cons]
    exact .part hread

end Lumen.Source
