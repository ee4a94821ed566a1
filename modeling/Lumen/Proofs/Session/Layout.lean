import Lumen.Proofs.Binding.Unplaced
import Lumen.Proofs.Source.Layout
import Lumen.Proofs.Token.Layout
import Lumen.Submission
import Lumen.Text.Identifier.Table

/-!
# Submissions and layout

What a text means is a matter of its tokens, not of the layout between them. A text that spells the
tokens of another one, stray characters included, has the same tree and the same complaints up to
positions, and runs alike on every store.
-/

namespace Lumen.Submission

/-- Whether two submissions differ in the positions of their tokens and complaints only. -/
structure SameButLayout (a b : Submission) : Prop where
  tree : a.source.program.unplaced = b.source.program.unplaced
  syntaxCauses :
    a.source.diagnostics.map Diagnostic.cause = b.source.diagnostics.map Diagnostic.cause
  bindingCauses : a.faults.map Diagnostic.cause = b.faults.map Diagnostic.cause
  bound : a.bound = b.bound
  scope : a.scope = b.scope

namespace SameButLayout

variable {a b : Submission}

theorem causes (h : SameButLayout a b) :
    a.diagnostics.map Diagnostic.cause = b.diagnostics.map Diagnostic.cause := by
  rw [diagnostics, diagnostics, List.map_append, List.map_append, h.syntaxCauses, h.bindingCauses]

theorem codes (h : SameButLayout a b) :
    a.diagnostics.map (fun d => (d.code, d.message)) =
      b.diagnostics.map (fun d => (d.code, d.message)) := by
  have hcauses := congrArg (List.map fun c : Cause => (c.code, c.message)) h.causes
  rwa [List.map_map, List.map_map] at hcauses

theorem evaluate (h : SameButLayout a b) (budget : Nat) (store : Store) :
    a.evaluate budget store = b.evaluate budget store := by
  have hclean : a.diagnostics = [] ↔ b.diagnostics = [] := by
    rw [← List.map_eq_nil_iff (f := Diagnostic.cause), h.causes, List.map_eq_nil_iff]
  rw [Submission.evaluate, Submission.evaluate, program, program, h.bound]
  exact if_congr hclean rfl rfl

end SameButLayout

theorem ofSource_sameButLayout (outer : List Scope) (fresh : Nat) {source source' : Source}
    (htree : source'.program.unplaced = source.program.unplaced)
    (hcauses : source'.diagnostics.map Diagnostic.cause =
      source.diagnostics.map Diagnostic.cause) :
    SameButLayout (ofSource outer fresh source').submission (ofSource outer fresh source).submission ∧
      (ofSource outer fresh source').fresh = (ofSource outer fresh source).fresh := by
  have hstatement : source'.program.statement.unplaced = source.program.statement.unplaced :=
    congrArg Tree.Program.statement htree
  have h := Binding.stmt_unplaced ⟨.inside outer, fresh⟩ source.program.statement
  have h' := Binding.stmt_unplaced ⟨.inside outer, fresh⟩ source'.program.statement
  rw [hstatement] at h'
  have hstate := h'.state.symm.trans h.state
  refine ⟨⟨htree, hcauses, h'.causes.symm.trans h.causes, h'.phrase.symm.trans h.phrase, ?_⟩, ?_⟩
  · exact congrArg (fun s => s.env.current) hstate
  · exact congrArg (fun s => s.fresh) hstate

/-- Layout does not matter. A text that consists of the texts of the tokens of another one, with any
layout between them, has the same tokens up to positions, the same tree up to positions, and the
same complaints, with the same numbers and messages in the same order; and its submission has the
same outcome on every store. -/
theorem layout_irrelevant [Xid] [Xid.ApartFromLayout] (chain : List Submission) (fresh : Nat)
    {text text' : List Char}
    (h : Token.Spaced (Token.scanInner text) text') :
    let c := compile chain fresh text
    let c' := compile chain fresh text'
    (Token.scan text').map Token.unplaced = (Token.scan text).map Token.unplaced ∧
      SameButLayout c'.submission c.submission ∧ c'.fresh = c.fresh ∧
      c'.submission.diagnostics.map (fun d => (d.code, d.message)) =
        c.submission.diagnostics.map (fun d => (d.code, d.message)) ∧
      ∀ budget store, c'.submission.evaluate budget store = c.submission.evaluate budget store := by
  intro c c'
  have htokens := Token.scan_of_respaced h
  obtain ⟨htree, hcauses⟩ := Source.parse_unplaced htokens
  obtain ⟨hsame, hfresh⟩ := ofSource_sameButLayout (scopes chain) fresh htree hcauses
  exact ⟨htokens, hsame, hfresh, hsame.codes, hsame.evaluate⟩

open scoped Xid in
/-- A text with a stray character, a numeral that is too large and a numeral that a name follows
without layout. -/
theorem layout_irrelevant_of_malformed :
    let text := "\x7blet é=99999999999999999999§1a\u2028é=é*(2\x7d".toList
    let text' := Token.spell (Token.scanInner text)
    Token.Spaced (Token.scanInner text) text' ∧ text' =
        " \x7b let é = 99999999999999999999 § 1 a é = é * ( 2 \x7d".toList ∧
      SameButLayout (compile [] 0 text').submission (compile [] 0 text).submission := by
  intro text text'
  have hspaced : Token.Spaced (Token.scanInner text) text' := Token.spaced_spell _
  exact ⟨hspaced, by decide +kernel, (layout_irrelevant [] 0 hspaced).2.1⟩

end Lumen.Submission
