import Lumen.Proofs.Reader.Agreement
import Lumen.Proofs.Tree.Recovery
import Lumen.Text.Identifier.Table

/-!
# Recovery goes on and is bounded

Wherever a reader stands on a text, a round of a block brings it to a later token, whether or not the
statement of the round can be read; and reading a text makes up at most six tokens for each
significant token of the text, and one more if there are none.
-/

namespace Lumen.Reader

open Lumen.Source (significant endToken stream_significant)
open Lumen.Tree

section

variable [Xid]

/-- Whether a reader stands where its scanner comes to by reading on in a text. -/
def OnText (text : List Char) (r : Reader) : Prop :=
  ∃ n, r.scanner = (Scanner.after text n).advance

variable {text : List Char} {r : Reader}

theorem onText_iff : r.OnText text ↔ ∃ ts, r.scanner.StandsOn text ts := by
  constructor
  · rintro ⟨n, hn⟩
    exact ⟨_, hn ▸ Scanner.standsOn_advance text n⟩
  · rintro ⟨ts, n, hn, hkind, -⟩
    refine ⟨n, ?_⟩
    rw [hn] at hkind ⊢
    change (Scanner.after text n).scan.token.kind ≠ .unknown at hkind
    rw [Scanner.advance, dif_neg hkind]
    rfl

theorem Arrives.onText {α : Type} {p : α × Reader} {a : α} {rest : List Token}
    {f : List Diagnostic} (h : Arrives text r p a rest f) : p.2.OnText text :=
  onText_iff.mpr ⟨rest, h.stands⟩

theorem onText_take (h : r.OnText text) : r.take.2.OnText text := by
  obtain ⟨ts, hr⟩ := onText_iff.mp h
  exact onText_iff.mpr ⟨ts.tail, hr.advance⟩

theorem onText_expect (kind : TokenKind) (h : r.OnText text) : (r.expect kind).2.OnText text := by
  rw [expect]
  split
  · exact onText_take h
  · exact h

theorem onText_expr (h : r.OnText text) : (expr r).behind.OnText text := by
  obtain ⟨ts, hr⟩ := onText_iff.mp h
  exact (arrives_expr (Parsed.readsExpr_expr ts) hr).onText

theorem onText_stmt (h : r.OnText text) : (stmt r).behind.OnText text := by
  obtain ⟨ts, hr⟩ := onText_iff.mp h
  exact (arrives_stmt (Parsed.readsStmt_stmt ts) hr).onText

/-- A round of a block leaves the reader on a later token of the text. -/
theorem round_moves (h : r.OnText text) (hend : r.kind ≠ .endOfFile) :
    (round r hend).behind.OnText text ∧ r.start < (round r hend).behind.start := by
  obtain ⟨ts, hr⟩ := onText_iff.mp h
  cases ts with
  | nil => exact absurd (kind_eq hr) hend
  | cons t ts =>
    have hread := @Parsed.readsStmt_stmt (endToken text) (t :: ts)
    have hs := arrives_stmt hread hr
    by_cases hused : (Parsed.stmt (endToken text) (t :: ts)).rest.length < (t :: ts).length
    · have hround := arrives_round_of_used hread hused hr hs hend
      have hsuffix := (hread.laid ((stream_significant text).of_suffix hr.suffix)).suffix
      exact ⟨hround.onText, start_lt_of_length_lt hr hround.stands hsuffix hused⟩
    · have hround := arrives_round_of_idle hread hused hr hs hend
      exact ⟨hround.onText,
        start_lt_of_length_lt hr hround.stands (List.suffix_cons t ts) (Nat.lt_succ_self _)⟩

/-- Reading a text makes up at most six leaves for each significant token, and one more. -/
theorem count_made_le {s : Stmt} {rest : List Token} {f : List Diagnostic}
    (h : ReadsStmt (endToken text) (significant (Token.scan text)) s rest f (Source.dropped text)) :
    s.leaves.countP (·.isMissing) ≤ 6 * (significant (Token.scan text)).length + 1 := by
  have hcount := (h.accounts (Source.noneMissing_significant text)).count_faults
  have hfaults := h.covered.bounded.faults_le
  calc s.leaves.countP (·.isMissing)
      = f.countP (·.isUnexpected) := hcount.symm
    _ ≤ f.length := List.countP_le_length
    _ ≤ 6 * (significant (Token.scan text)).length + 1 := by omega

theorem missing_le (text : List Char) : (Source.parse text).program.leaves.countP (·.isMissing) ≤
    6 * (significant (Token.scan text)).length + 1 := by
  have hread := Source.reads_parse text
  generalize Source.parse text = src at hread
  cases hread with
  | whole h =>
    rw [Source.count_missing_leaves _ rfl]
    exact count_made_le h
  | part h =>
    rw [Source.count_missing_leaves _ rfl]
    exact count_made_le h

/-- Each made up leaf is complained about once, and so may be a missing end of the text. -/
theorem unexpected_le (text : List Char) : (Source.parse text).diagnostics.countP (·.isUnexpected) ≤
    6 * (significant (Token.scan text)).length + 2 := by
  have hread := Source.reads_parse text
  generalize Source.parse text = src at hread
  cases hread with
  | whole h =>
    rw [Source.count_unexpected_eq (h.accounts (Source.noneMissing_significant text))]
    exact Nat.le_succ_of_le (count_made_le h)
  | part h =>
    rw [← List.append_assoc, List.countP_append,
      Source.count_unexpected_eq (h.accounts (Source.noneMissing_significant text))]
    exact Nat.succ_le_succ (count_made_le h)

/-- What recovery comes to when a text is read. -/
structure Recovers (text : List Char) : Prop where
  parse_eq : parse text = Source.parse text
  onText_first : (ofText text).OnText text
  onText_take : ∀ r : Reader, r.OnText text → r.take.2.OnText text
  onText_expect : ∀ (r : Reader) kind, r.OnText text → (r.expect kind).2.OnText text
  onText_expr : ∀ r : Reader, r.OnText text → (expr r).behind.OnText text
  onText_stmt : ∀ r : Reader, r.OnText text → (stmt r).behind.OnText text
  round_moves : ∀ r : Reader, r.OnText text → ∀ h : r.kind ≠ .endOfFile,
    (round r h).behind.OnText text ∧ r.start < (round r h).behind.start
  missing_le : (parse text).program.leaves.countP (·.isMissing) ≤
    6 * (significant (Token.scan text)).length + 1
  unexpected_le : (parse text).diagnostics.countP (·.isUnexpected) ≤
    6 * (significant (Token.scan text)).length + 2

/-- Reading a text comes to an end, with a tree and complaints whose number is bounded by the number
of its significant tokens, and each round of a block goes on to a later token. -/
theorem recovery_bounded (text : List Char) : Recovers text := by
  obtain ⟨hparse, -⟩ := parse_eq_and_stands text
  exact
    { parse_eq := hparse
      onText_first := ⟨0, rfl⟩
      onText_take := fun _ => onText_take
      onText_expect := fun _ => onText_expect
      onText_expr := fun _ => onText_expr
      onText_stmt := fun _ => onText_stmt
      round_moves := fun _ => round_moves
      missing_le := hparse ▸ missing_le text
      unexpected_le := hparse ▸ unexpected_le text }

end

open scoped Xid in
/-- A block with a token that no statement starts with, which its first round skips, and a loop that is
made up but for its keyword. -/
theorem recovery_bounded_of_bare_loop :
    let text := "\x7b ) for \x7d".toList
    let r := (ofText text).take.2
    (significant (Token.scan text)).length = 4 ∧
      (parse text).program.leaves.countP (·.isMissing) = 7 ∧
      (parse text).diagnostics.countP (·.isUnexpected) = 7 ∧
      ∃ h : r.kind ≠ .endOfFile, r.start < (round r h).behind.start := by
  intro text r
  have hbounded := recovery_bounded text
  have hend : r.kind ≠ .endOfFile := by decide +kernel
  have hplace : r.OnText text := hbounded.onText_take _ hbounded.onText_first
  exact ⟨by decide +kernel, by decide +kernel, by decide +kernel, hend,
    (hbounded.round_moves r hplace hend).2⟩

end Lumen.Reader
