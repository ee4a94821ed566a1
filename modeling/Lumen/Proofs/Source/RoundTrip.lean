import Lumen.Proofs.Source.Reading
import Lumen.Proofs.Tree.Completeness
import Lumen.Proofs.Tree.RoundTrip
import Lumen.Proofs.Tree.Unplaced
import Lumen.Text.Identifier.Table

/-!
# Parsing undoes printing

A text that spells the leaves of a tree, with layout between them, is scanned to these leaves up to
positions. If the tree is grammatical and what follows its parts goes on with none of them, its
leaves are read as the tree. Hence parsing the text gives the tree back, up to positions, without
complaint.
-/

namespace Lumen.Source

open Lumen.Tree (Parsed ReadsStmt Program)

theorem significant_map_unplaced (tokens : List Token) :
    (significant tokens).map Token.unplaced = significant (tokens.map Token.unplaced) :=
  (List.filter_map (f := Token.unplaced) (p := Token.isSignificant)).symm

section

variable [Xid] {T : Program} {text : List Char}

theorem endToken_unplaced (hT : T.Grammatical) (hleaves : ∀ t ∈ T.leaves, t.Genuine) :
    T.endToken.unplaced = Cursor.endToken 0 :=
  (hleaves _ (List.mem_append_right _ List.mem_cons_self)).eq_endToken hT.2

theorem scan_of_spaced [Xid.ApartFromLayout] (hT : T.Grammatical) (hleaves : ∀ t ∈ T.leaves, t.Genuine)
    (htext : Token.Spaced T.leaves text) :
    (Token.scan text).map Token.unplaced = T.leaves.map Token.unplaced := by
  have hinner : ∀ t ∈ T.statement.leaves, t.Genuine ∧ t.kind ≠ .endOfFile := by
    intro t ht
    refine ⟨hleaves t (List.mem_append_left _ ht), fun hend => ?_⟩
    have hsignificant := hT.1.isSignificant t ht
    simp [Token.isSignificant, hend] at hsignificant
  have hend := endToken_unplaced hT hleaves
  have hempty : T.endToken.text = "" := congrArg Token.text hend
  have htokens := Token.tokens_of_spaced (htext.of_concat hempty) hinner 0
  rw [Program.leaves, List.map_append, List.map_singleton, hend]
  exact htokens

theorem significant_of_spaced (hT : T.Grammatical)
    (hscan : (Token.scan text).map Token.unplaced = T.leaves.map Token.unplaced) :
    (significant (Token.scan text)).map Token.unplaced = T.statement.leaves.map Token.unplaced := by
  obtain ⟨hstatement, hkind⟩ := hT
  have hend : T.endToken.isSignificant = false := by simp [Token.isSignificant, hkind]
  rw [significant_map_unplaced, hscan, ← significant_map_unplaced, significant, Program.leaves,
    List.filter_append, List.filter_eq_self.mpr hstatement.isSignificant]
  simp [hend]

theorem faults_of_spaced (hleaves : ∀ t ∈ T.leaves, t.Genuine)
    (hscan : (Token.scan text).map Token.unplaced = T.leaves.map Token.unplaced) (stopped : Token) :
    Token.faults (readUpTo stopped (Token.scan text)) = [] := by
  refine List.filterMap_eq_nil_iff.mpr fun t ht => ?_
  have hmem : t.unplaced ∈ T.leaves.map Token.unplaced := by
    rw [← hscan]
    exact List.mem_map_of_mem (List.mem_filter.mp ht).1
  obtain ⟨leaf, hleaf, heq⟩ := List.mem_map.mp hmem
  have hfault := Token.fault?_unplaced_eq_none.mpr (hleaves leaf hleaf).2
  rw [heq] at hfault
  exact Token.fault?_unplaced_eq_none.mp hfault

/-- The leaves of a tree, spelled with layout between them, are parsed as the tree, up to the
positions of the tokens, and without complaint. -/
theorem parse_of_spaced [Xid.ApartFromLayout] (hT : T.Grammatical)
    (hleaves : ∀ t ∈ T.leaves, t.Genuine) (hambiguity : T.Unambiguous)
    (htext : Token.Spaced T.leaves text) :
    (parse text).program.unplaced = T.unplaced ∧ (parse text).diagnostics = [] := by
  have hscan := scan_of_spaced hT hleaves htext
  have hsignificant := significant_of_spaced hT hscan
  have hfaults := faults_of_spaced hleaves hscan
  have hend := endToken_unplaced hT hleaves
  -- both the leaves of the tree and the tokens of the text are read without their positions
  have htree : ReadsStmt (endToken text) (T.statement.leaves ++ []) T.statement [] [] [] :=
    hT.1.readsStmt hambiguity (by decide)
  rw [List.append_nil] at htree
  have htree := htree.unplaced
  rw [← hsignificant] at htree
  obtain ⟨hphrase, hrest, hnone⟩ := Parsed.stmt_of_reads htree
  have hread := reads_parse text
  generalize parse text = src at hread
  cases hread with
  | @whole s f h =>
    obtain ⟨hphrase', -, hnone'⟩ := Parsed.stmt_of_reads h.unplaced
    have hs : s.unplaced = T.statement.unplaced := hphrase'.symm.trans hphrase
    have hf : f = [] := List.map_eq_nil_iff.mp (hnone'.symm.trans hnone)
    rw [hfaults, hf]
    refine ⟨?_, rfl⟩
    rw [Program.unplaced, Program.unplaced, hs, hend]
    rfl
  | part h =>
    obtain ⟨-, hrest', -⟩ := Parsed.stmt_of_reads h.unplaced
    cases hrest'.symm.trans hrest

end

open scoped Xid in
theorem parse_of_spaced_of_nested_if :
    let x : Token := ⟨.identifier, 0, "x", none⟩
    let one : Token := ⟨.number, 0, "1", some (.int 1)⟩
    let minus : Token := ⟨.minus, 0, "-", none⟩
    let difference : Tree.Expr := .binary (.unary minus (.literal one)) minus
      (.binary (.literal one) ⟨.asterisk, 0, "*", none⟩ (.name x))
    let choice : Tree.Stmt := .ifElse ⟨.ifKeyword, 0, "if", none⟩
      (.assignment x ⟨.equals, 0, "=", none⟩ difference) (.expression (.name x))
      ⟨.elseKeyword, 0, "else", none⟩ (.expression (.literal one))
    let T : Program := ⟨.ifThen ⟨.ifKeyword, 0, "if", none⟩
      (.literal ⟨.trueKeyword, 0, "true", some (.bool true)⟩) choice, ⟨.endOfFile, 0, "", none⟩⟩
    (parse (Token.spell T.leaves)).program.unplaced = T.unplaced ∧
      (parse (Token.spell T.leaves)).diagnostics = [] := by
  intro x one minus difference choice T
  have hgrammatical : T.Grammatical := by
    refine ⟨?_, rfl⟩
    simp [T, choice, difference, x, one, minus, Tree.Stmt.Grammatical, Tree.Expr.Grammatical,
      Tree.Expr.level, TokenKind.isUnaryOperator, TokenKind.binaryPrecedence?, Precedence.rank]
  have hunambiguous : T.Unambiguous := by
    simp [T, choice, x, one, Program.Unambiguous, Tree.Stmt.Unambiguous, Tree.StartsWithSign,
      Tree.StartsWithElse, Tree.Stmt.leaves, Tree.Expr.leaves]
  exact parse_of_spaced hgrammatical (by decide +kernel) hunambiguous (Token.spaced_spell _)

end Lumen.Source
