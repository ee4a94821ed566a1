import Lumen.Proofs.Binding.Names
import Lumen.Proofs.Dump.Labels
import Lumen.Proofs.Source.Accounting
import Lumen.Proofs.Token.Tiling
import Lumen.Submission
import Lumen.Text.Identifier.Table

/-!
# Dumps determine what they show

No token of a text has a line feed in it, so neither have the names of the trees that it is read and
bound to. Hence the dump of a node of a syntax tree, of a bound statement and of a flat program can be
read back line by line, and two of them are the same text only if they show the same labels in the
same shape.
-/

namespace Lumen

open Lumen.Bound (Node)
open Lumen.Dump (OneLine)

section

variable [Xid]

theorem Token.oneLine_of_mem {text : List Char} {t : Token} (h : t ∈ scan text) :
    OneLine t.text := by
  rw [(scan_eq text).1] at h
  rcases List.mem_append.mp h with h | h
  · obtain ⟨behind, hprescribed⟩ := prescribed_of_mem h
    exact hprescribed.not_mem_of_isLayout (by decide) rfl
  · cases List.mem_singleton.mp h
    exact List.not_mem_nil

theorem Source.oneLine_leaves (text : List Char) :
    ∀ l ∈ (parse text).program.leaves, OneLine l.text := by
  intro l hl
  by_cases hempty : l.text = ""
  · rw [hempty]
    decide
  · have hkept : l ∈ (parse text).program.leaves.filter (·.text ≠ "") :=
      List.mem_filter.mpr ⟨hl, by simpa using hempty⟩
    have hsign : l ∈ signs text := (tokens_accounted text).leaves_sublist.subset hkept
    exact Token.oneLine_of_mem (List.mem_filter.mp hsign).1

namespace Submission

/-- Whether submissions, given newest first, are made of texts, each behind the ones before it. -/
inductive Entered : List Submission → Prop
  | nil : Entered []
  | cons {chain : List Submission} (text : List Char) (fresh : Nat) : Entered chain →
    Entered ((compile chain fresh text).submission :: chain)

/-- The names of a submission that is compiled from a text fit one line each, if those of the scopes
around it do. -/
theorem oneLine_compile {chain : List Submission} (fresh : Nat) (text : List Char)
    (hchain : ∀ c ∈ chain, ∀ v ∈ c.scope, OneLine v.name) :
    (compile chain fresh text).submission.bound.rose.All (Node.Named OneLine) ∧
      ∀ v ∈ (compile chain fresh text).submission.scope, OneLine v.name := by
  have henv : ∀ v ∈ (Environment.inside (scopes chain)).variables, OneLine v.name := by
    intro v hv
    obtain ⟨scope, hscope, hv⟩ := List.mem_flatten.mp hv
    obtain ⟨c, hc, rfl⟩ := List.mem_map.mp hscope
    exact hchain c hc v hv
  have hleaves : ∀ l ∈ (Source.parse text).program.statement.leaves, OneLine l.text :=
    fun l hl => Source.oneLine_leaves text l (List.mem_append_left _ hl)
  have hnodes := Binding.stmt_named (s := ⟨.inside (scopes chain), fresh⟩) henv hleaves
  have hvariables := Binding.variables_named henv hnodes
  exact ⟨hnodes, fun v hv => hvariables v (List.mem_append_left _ hv)⟩

theorem Entered.oneLine_scopes {chain : List Submission} (h : Entered chain) :
    ∀ c ∈ chain, ∀ v ∈ c.scope, OneLine v.name := by
  induction h with
  | nil => exact List.forall_mem_nil _
  | cons text fresh _ ih => exact List.forall_mem_cons.mpr ⟨(oneLine_compile fresh text ih).2, ih⟩

theorem Entered.named {c : Submission} {chain : List Submission} (h : Entered (c :: chain)) :
    c.bound.rose.All (Node.Named OneLine) := by
  cases h with
  | cons text fresh hchain => exact (oneLine_compile fresh text hchain.oneLine_scopes).1

end Submission

namespace Dump

open Lumen.Submission (Entered)

/-- The dumps that are made of texts: of a node of a syntax tree, of a statement of a bound tree, and
of a flat program. The labels of the nodes are given as the trees that they form. -/
inductive Printed : List (Rose String) → String → Prop
  | source (text : List Char) {path : List Nat} {t : Rose Tree.Node} :
    (Source.parse text).program.rose.follow? path = some t →
      Printed [t.map Tree.Node.label] (Tree.dump {} t)
  | bound {c : Submission} {chain : List Submission} {path : List Nat} {s : Bound.Stmt} :
    Entered (c :: chain) → c.bound.rose.follow? path = some s.rose →
      Printed [s.rose.map Node.label] (Bound.dump {} s)
  | program {c : Submission} {chain : List Submission} : Entered (c :: chain) →
    Printed (c.program.map fun s => s.rose.map Node.label) (Bound.dumpProgram {} c.program)

theorem Printed.solid {roots : List (Rose String)} {text : String} (h : Printed roots text) :
    text = render {} roots ∧ ∀ t ∈ roots, t.All Solid := by
  cases h with
  | source _ hpath =>
    refine ⟨rfl, List.forall_mem_singleton.mpr (Rose.all_map.mpr fun row _ => ?_)⟩
    exact row.value.solid_label
  | bound hentered hpath =>
    refine ⟨rfl, List.forall_mem_singleton.mpr (Rose.all_map.mpr ?_)⟩
    exact (hentered.named.follow hpath).imp fun _ => Node.solid_label
  | program hentered =>
    refine ⟨rfl, List.forall_mem_map.mpr fun s hs => Rose.all_map.mpr ?_⟩
    have hnamed := Bound.Stmt.lowerFrom_named Bound.oneLine_numbered 0 hentered.named s hs
    exact hnamed.imp fun _ => Node.solid_label

/-- A dump determines what it shows. It is what writing the trees into one buffer gives; its lines
are the labels of the nodes, one each, a node before those below it, and how deep a node stands is
read from its line. So only trees with the same labels in the same shape have the same dump. -/
theorem printed_determines {roots : List (Rose String)} {text : String} (h : Printed roots text) :
    text = renderInBuffer {} roots ∧ read text = Rose.forestRows 0 roots ∧
      ∀ roots', Printed roots' text → roots' = roots := by
  obtain ⟨rfl, hsolid⟩ := h.solid
  have hbuffer := renderInBuffer_eq {} fun t ht => (hsolid t ht).imp fun _ => Solid.ne_empty
  refine ⟨hbuffer.symm, read_render hsolid, fun roots' h' => ?_⟩
  obtain ⟨heq, hsolid'⟩ := h'.solid
  exact render_injective hsolid' hsolid heq.symm

end Dump

end

open scoped Xid in
/-- A loop over a variable of an earlier submission, entered twice with different layout. -/
theorem Dump.printed_determines_of_loop :
    let before := (Submission.compile [] 0 "var n = 3".toList).submission
    let entered := fun text : String => (Submission.compile [before] 1 text.toList).submission
    let shown := fun c : Submission => c.program.map fun s => s.rose.map Node.label
    let one := entered "while n > 0 n = n - 1"
    let other := entered "while n>0\n  n = n-1"
    let text := Bound.dumpProgram {} one.program
    Printed (shown one) text ∧ Printed (shown other) text ∧ shown other = shown one ∧
      (read text).map (fun row => row.depth) = [0, 0, 0, 1, 2, 3, 3, 0, 0, 1, 2, 2, 0] ∧
        (read text).map (fun row => row.depth) =
          (Rose.forestRows 0 (shown one)).map (fun row => row.depth) := by
  intro before entered shown one other text
  have hbefore : Submission.Entered [before] := .cons _ 0 .nil
  have hone : Printed (shown one) text := .program (.cons _ 1 hbefore)
  have htext : text = Bound.dumpProgram {} other.program := by decide +kernel
  have hother : Printed (shown other) text := by
    rw [htext]
    exact .program (.cons _ 1 hbefore)
  obtain ⟨-, hread, hunique⟩ := printed_determines hone
  have hdepths : (Rose.forestRows 0 (shown one)).map (fun row => row.depth) =
      [0, 0, 0, 1, 2, 3, 3, 0, 0, 1, 2, 2, 0] := by decide +kernel
  refine ⟨hone, hother, hunique _ hother, ?_, by rw [hread]⟩
  rw [hread, hdepths]

end Lumen
