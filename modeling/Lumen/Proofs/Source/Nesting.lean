import Lumen.Proofs.Source.Pointing
import Lumen.Proofs.Tree.Nesting
import Lumen.Text.Identifier.Table

/-!
# The spans of every parsed tree nest

Whatever is wrong with a text, the tokens made up for missing ones stand where the next token
starts. So the leaves of its tree stand in order, the end of the text or what is made up for it
last, and each of them cuts its own characters out of the text. As every node is made of its parts,
the spans of the whole tree nest.
-/

namespace Lumen

theorem Text.IsBoundary.le_size {text : List Char} {pos : Nat} (h : IsBoundary text pos) :
    pos ≤ size text := by
  obtain ⟨before, behind, rfl, rfl⟩ := h
  rw [size_append]
  exact Nat.le_add_right ..

theorem Token.cuts_missing {text : List Char} {pos : Nat} (kind : TokenKind)
    (h : Text.IsBoundary text pos) : (missing kind pos).span.Cuts text [] := by
  obtain ⟨before, behind, rfl, rfl⟩ := h
  exact ⟨before, behind, by rw [List.append_nil], rfl⟩

namespace Source

open Lumen.Tree (Composed Node Program ReadsStmt)

variable {text : List Char}

/-- Whether tokens stand in order and each one cuts its characters out of a text. -/
structure Placed (text : List Char) (ts : List Token) : Prop where
  ordered : ts.Pairwise (·.stop ≤ ·.start)
  cuts : ∀ t ∈ ts, t.span.Cuts text t.text.toList

section

variable [Xid]

theorem placed_of_reads {s : Tree.Stmt} {rest dropped : List Token} {f : List Diagnostic}
    {last : Token}
    (h : ReadsStmt (endToken text) (significant (Token.scan text)) s rest f dropped)
    (hlast : last.span.Cuts text last.text.toList)
    (hstart : last.start = (rest.headD (endToken text)).start) :
    Placed text (s.leaves ++ [last]) := by
  have hlaid := h.laid (stream_significant text)
  refine ⟨List.pairwise_append.mpr ⟨hlaid.ordered, List.pairwise_singleton .., ?_⟩, ?_⟩
  · intro t ht u hu
    cases List.mem_singleton.mp hu
    rw [hstart]
    exact hlaid.leaves_between.high _ (List.mem_map_of_mem ht)
  · refine List.forall_mem_append.mpr ⟨fun t ht => ?_, List.forall_mem_singleton.mpr hlast⟩
    rcases hlaid.leaf t ht with hread | ⟨u, hu, kind, rfl⟩
    · exact Token.cuts_of_mem (mem_scan_of_significant hread)
    · exact Token.cuts_missing kind (Token.cuts_of_mem (mem_scan_of_stream hu)).boundaries.1

theorem placed_parse (text : List Char) : Placed text (parse text).program.leaves := by
  have hmem (t : Token) (ht : t ∈ significant (Token.scan text) ++ [endToken text]) :
      t.span.Cuts text t.text.toList := Token.cuts_of_mem (mem_scan_of_stream ht)
  have hread := reads_parse text
  generalize parse text = src at hread
  cases hread with
  | whole h =>
    exact placed_of_reads h (hmem _ (List.mem_append_right _ List.mem_cons_self)) rfl
  | @part s found rest f h =>
    have hfound := (h.laid (stream_significant text)).suffix.subset List.mem_cons_self
    have hcuts := hmem found (List.mem_append_left _ hfound)
    exact placed_of_reads h (Token.cuts_missing .endOfFile hcuts.boundaries.1) rfl

/-- How the spans of a tree nest. Its leaves are tokens that stand in order inside the text, where
each one covers its own characters. Every node that has others below it goes from the first of these
to the last one, so it runs from its first leaf to its last leaf, holds all nodes below it, and the
nodes directly below it stand in order. -/
structure SpansNest (text : List Char) (t : Rose Node) : Prop where
  leaves_eq : ∀ p n, t.follow? p = some n → n.leaves = n.value.leaves.map Node.token
  ordered : t.value.leaves.Pairwise (·.stop ≤ ·.start)
  slices : ∀ l ∈ t.value.leaves,
    l.stop ≤ Text.size text ∧ l.span.slice text = l.text.toList
  union_eq : ∀ p n, t.follow? p = some n → n.children = [] ∨ ∃ first last,
    n.children.head? = some first ∧ n.children.getLast? = some last ∧
      n.value.span = first.value.span.union last.value.span
  covers : ∀ p n, t.follow? p = some n → n.value.span.Covers n.value.leaves
  within : ∀ p n q m, t.follow? p = some n → n.follow? q = some m →
    n.value.span.start ≤ m.value.span.start ∧ m.value.span.stop ≤ n.value.span.stop
  siblings : ∀ p n, t.follow? p = some n →
    n.children.Pairwise (·.value.span.stop ≤ ·.value.span.start)

/-- The spans of the tree of every text nest. -/
theorem spansNest_parse (text : List Char) : SpansNest text (parse text).program.rose := by
  have hplaced := placed_parse text
  generalize (parse text).program = program at hplaced
  obtain ⟨hordered, hcuts⟩ := hplaced
  have hcomposed := program.composed
  have hat {p : List Nat} {n : Rose Node} (hn : program.rose.follow? p = some n) :
      Composed n ∧ n.value.leaves.Pairwise (·.stop ≤ ·.start) :=
    ⟨(hcomposed.at_path hn).1, hordered.sublist (hcomposed.at_path hn).2.sublist⟩
  refine ⟨fun p n hn => (hat hn).1.leaves_eq, hordered, fun l hl => ?_,
    fun p n hn => (hat hn).1.union_eq, fun p n hn => (hat hn).1.covers (hat hn).2,
    fun p n q m hn hm => (hat hn).1.span_within (hat hn).2 hm,
    fun p n hn => (hat hn).1.parts_ordered (hat hn).2⟩
  exact ⟨(hcuts l hl).boundaries.2.le_size, (hcuts l hl).slice_eq⟩

end

open scoped Xid in
/-- The name that is missing here is made up without length at the equals sign. -/
example : ((parse "let = 1".toList).program.leaves.map fun t => (t.start, t.stop)) =
    [(0, 3), (4, 4), (4, 5), (6, 7), (7, 7)] := by
  decide +kernel

end Source

end Lumen
