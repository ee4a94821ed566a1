import Lumen.Proofs.Source.Reading
import Lumen.Proofs.Tree.Accounting
import Mathlib.Data.List.Basic

/-!
# No token is lost

The tree of a source accounts for all tokens of its text, stray characters aside: a token is a leaf
of the tree, or a block dropped it behind a statement that used no token, or it stands at or behind
the place where the end of the text was expected in vain. Each made up leaf has one complaint about
an unexpected token, and there are no other such complaints.
-/

namespace Lumen.Source

open Lumen.Tree (Parsed kept)

theorem count_faults_scanned (ts : List Token) :
    (Token.faults ts).countP (·.isUnexpected) = 0 := by
  refine List.countP_eq_zero.mpr fun d hd => ?_
  obtain ⟨t, -, ht⟩ := List.mem_filterMap.mp hd
  unfold Token.fault? at ht
  split at ht <;> cases ht <;> simp [Diagnostic.isUnexpected]

theorem count_missing_leaves (s : Tree.Stmt) {t : Token} (ht : t.kind = .endOfFile) :
    (Tree.Program.leaves ⟨s, t⟩).countP (·.isMissing) = s.leaves.countP (·.isMissing) := by
  rw [Tree.Program.leaves, List.countP_append]
  simp [Token.isMissing, ht]

variable [Xid]

theorem noneMissing_significant (text : List Char) :
    Tree.NoneMissing (significant (Token.scan text)) := by
  intro t ht
  simp [Token.isMissing, (proper_of_significant ht).text_ne]

/-- An end token that is made up does not stand at the end of the text. -/
theorem missing_not_mem_scan {text : List Char} {found : Token}
    (h : found ∈ significant (Token.scan text)) :
    Token.missing .endOfFile found.start ∉ Token.scan text := by
  intro hmem
  obtain ⟨hscan, hinner⟩ := Token.scan_eq text
  have hordered := signs_ordered text
  rw [signs_eq, List.pairwise_append] at hordered
  have hlt := hordered.2.2 found h (endToken text) (List.mem_singleton.mpr rfl)
  rw [hscan] at hmem
  rcases List.mem_append.mp hmem with hmem | hmem
  · exact (hinner _ hmem).kind_ne rfl
  · have hstart := congrArg Token.start (List.mem_singleton.mp hmem)
    exact absurd hstart (Nat.ne_of_lt hlt)

/-- What the tree and the complaints of a source say about the tokens of its text. -/
structure Accounted (text : List Char) (s : Source) : Prop where
  leaves_sublist : (s.program.leaves.filter (·.text ≠ "")).Sublist (signs text)
  leaves_nodup : (s.program.leaves.filter (·.text ≠ "")).Nodup
  count_unexpected :
    s.diagnostics.countP (·.isUnexpected) = s.program.leaves.countP (·.isMissing) +
      if s.program.endToken ∈ Token.scan text then 0 else 1
  lost : ∀ t ∈ signs text, t ∉ s.program.leaves →
    t ∈ dropped text ∨
      ∃ found, Parsed.unexpected found .endOfFile ∈ s.diagnostics ∧ found.start ≤ t.start
  dropped_le : (dropped text).length ≤ s.diagnostics.countP (·.isUnexpected)
  leaves_eq : (∀ d ∈ s.diagnostics, d.isUnexpected = false) → s.program.leaves = signs text

section

variable {text : List Char} {s : Tree.Stmt} {rest : List Token} {f : List Diagnostic} {t : Token}

theorem leaves_sublist_signs (h : Tree.Accounts (significant (Token.scan text)) s.leaves rest
    (dropped text) f) (ht : t.text = "") :
    ((Tree.Program.leaves ⟨s, t⟩).filter (·.text ≠ "")).Sublist (signs text) := by
  obtain ⟨used, hused, hsub, -⟩ := h.exists_used
  have hkept : (s.leaves.filter (·.text ≠ "")).Sublist (kept s.leaves) := by
    refine List.monotone_filter_right _ fun u hu => ?_
    simp only [Token.isMissing] at hu ⊢
    simp_all
  have hleaves : (Tree.Program.leaves ⟨s, t⟩).filter (·.text ≠ "") =
      s.leaves.filter (·.text ≠ "") := by
    simp [Tree.Program.leaves, ht]
  rw [hleaves, signs_eq, hused, List.append_assoc]
  exact (hkept.trans hsub).trans (List.sublist_append_left used _)

theorem mem_of_used (h : Tree.Accounts (significant (Token.scan text)) s.leaves rest
    (dropped text) f) (ht : t ∈ significant (Token.scan text)) (hrest : t ∉ rest) :
    t ∈ s.leaves ∨ t ∈ dropped text := by
  obtain ⟨used, hused, -, hperm⟩ := h.exists_used
  rw [hused, List.mem_append] at ht
  have htused := ht.resolve_right hrest
  rcases List.mem_append.mp (hperm.mem_iff.mp htused) with h | h
  · exact .inl (List.mem_filter.mp h).1
  · exact .inr h

/-- Scanning complains about no unexpected token, so all such complaints are those of reading. -/
theorem count_unexpected_eq (h : Tree.Accounts (significant (Token.scan text)) s.leaves rest
    (dropped text) f) (scanned : List Token) :
    (Token.faults scanned ++ f).countP (·.isUnexpected) = s.leaves.countP (·.isMissing) := by
  rw [List.countP_append, count_faults_scanned, Nat.zero_add, h.count_faults]

theorem start_le_of_behind {used : List Token} {found : Token}
    (h : significant (Token.scan text) = used ++ found :: rest)
    (ht : t ∈ found :: rest ∨ t = endToken text) : found.start ≤ t.start := by
  have hordered := signs_ordered text
  rw [signs_eq, h, List.append_assoc, List.pairwise_append, List.cons_append,
    List.pairwise_cons] at hordered
  obtain ⟨-, ⟨hbehind, -⟩, -⟩ := hordered
  rcases ht with ht | rfl
  · rcases List.mem_cons.mp ht with rfl | ht
    · exact Nat.le_refl _
    · exact Nat.le_of_lt (hbehind t (List.mem_append_left _ ht))
  · exact Nat.le_of_lt (hbehind _ (List.mem_append_right _ (List.mem_singleton.mpr rfl)))

end

/-- The tree of a source accounts for all tokens of its text. -/
theorem tokens_accounted (text : List Char) : Accounted text (parse text) := by
  have hread := reads_parse text
  generalize parse text = src at hread
  have hsub : (src.program.leaves.filter (·.text ≠ "")).Sublist (signs text) := by
    cases hread with
    | whole h => exact leaves_sublist_signs (h.accounts (noneMissing_significant text)) rfl
    | part h => exact leaves_sublist_signs (h.accounts (noneMissing_significant text)) rfl
  have hnodup : (signs text).Nodup :=
    (signs_ordered text).imp fun h heq => absurd (congrArg Token.start heq) (Nat.ne_of_lt h)
  cases hread with
  | @whole s f h =>
    have haccounts := h.accounts (noneMissing_significant text)
    have hend : endToken text ∈ Token.scan text := by
      rw [(Token.scan_eq text).1]
      exact List.mem_append_right _ (List.mem_singleton.mpr rfl)
    have hcount := count_unexpected_eq haccounts (readUpTo (endToken text) (Token.scan text))
    refine ⟨hsub, hnodup.sublist hsub, ?_, fun t ht hleaf => ?_, ?_, fun hnone => ?_⟩
    · rw [hcount, count_missing_leaves s rfl, if_pos hend, Nat.add_zero]
    · rw [signs_eq] at ht
      rcases List.mem_append.mp ht with ht | ht
      · refine .inl ((mem_of_used haccounts ht List.not_mem_nil).resolve_left fun hs => hleaf ?_)
        exact List.mem_append_left _ hs
      · exact absurd (List.mem_append_right _ ht) hleaf
    · rw [hcount]
      exact haccounts.dropped_le
    · have hzero := List.countP_eq_zero.mpr fun d hd => Bool.eq_false_iff.mp (hnone d hd)
      rw [hcount] at hzero
      rw [Tree.Program.leaves, signs_eq, haccounts.eq_of_count_eq_zero hzero,
        List.append_nil]
  | @part s found rest f h =>
    have haccounts := h.accounts (noneMissing_significant text)
    obtain ⟨used, hused, -, -⟩ := haccounts.exists_used
    have hfound : found ∈ significant (Token.scan text) := by
      rw [hused]
      exact List.mem_append_right _ List.mem_cons_self
    have hend := missing_not_mem_scan hfound
    have hcount : (Token.faults (readUpTo found (Token.scan text)) ++
        (f ++ [Parsed.unexpected found .endOfFile])).countP (·.isUnexpected) =
          s.leaves.countP (·.isMissing) + 1 := by
      rw [← List.append_assoc, List.countP_append, count_unexpected_eq haccounts]
      rfl
    refine ⟨hsub, hnodup.sublist hsub, ?_, fun t ht hleaf => ?_, ?_, fun hnone => ?_⟩
    · rw [hcount, count_missing_leaves s rfl, if_neg hend]
    · by_cases hbehind : t ∈ found :: rest ∨ t = endToken text
      · refine .inr ⟨found, ?_, start_le_of_behind hused hbehind⟩
        exact List.mem_append_right _ (List.mem_append_right _ (List.mem_singleton.mpr rfl))
      · obtain ⟨hrest, hlast⟩ := not_or.mp hbehind
        rw [signs_eq] at ht
        have htext := (List.mem_append.mp ht).resolve_right fun h => hlast (List.mem_singleton.mp h)
        refine .inl ((mem_of_used haccounts htext hrest).resolve_left fun hs => hleaf ?_)
        exact List.mem_append_left _ hs
    · rw [hcount]
      exact Nat.le_succ_of_le haccounts.dropped_le
    · have hzero := List.countP_eq_zero.mpr fun d hd => Bool.eq_false_iff.mp (hnone d hd)
      rw [hcount] at hzero
      cases hzero

end Lumen.Source
