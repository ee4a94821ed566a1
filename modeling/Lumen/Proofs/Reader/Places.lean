import Lumen.Proofs.Source.Layout
import Lumen.Proofs.Token.Tiling
import Lumen.Reader

/-!
# Places of a text

A scanner that reads a text stands on one of its tokens after some number of scans, and has found the
complaints about the tokens up to that one. Reading on to the next token that is no stray character
is a number of scans, too. So the significant tokens from a scanner on are those of the text from
some token on, and reading on drops the first of them.
-/

namespace Lumen.Scanner

variable [Xid]

open Source (significant endToken readUpTo)

variable {text : List Char} {n : Nat} {s : Scanner} {ts : List Token}

/-- The tokens of a text behind some of its scans: there are none, or the first is the one scanned
next. -/
theorem drop_scanInner (text : List Char) (n : Nat) :
    (Token.scanInner text).drop n = [] ∧ (after text (n + 1)).token = endToken text ∨
      (Token.scanInner text).drop n =
          (after text (n + 1)).token :: (Token.scanInner text).drop (n + 1) ∧
        (after text (n + 1)).token.kind ≠ .endOfFile := by
  rw [token_after, List.getD_eq_getElem?_getD]
  by_cases hlt : n < (Token.scanInner text).length
  · rw [List.getElem?_eq_getElem hlt]
    exact .inr ⟨List.drop_eq_getElem_cons hlt,
      ((Token.scan_eq text).2 _ (List.getElem_mem hlt)).kind_ne⟩
  · rw [List.getElem?_eq_none (Nat.le_of_not_lt hlt)]
    exact .inl ⟨List.drop_eq_nil_of_le (Nat.le_of_not_lt hlt), rfl⟩

theorem significant_drop_of_stray (h : (after text (n + 1)).token.kind = .unknown) :
    significant ((Token.scanInner text).drop (n + 1)) =
      significant ((Token.scanInner text).drop n) := by
  rcases drop_scanInner text n with ⟨-, hend⟩ | ⟨hdrop, -⟩
  · rw [hend] at h
    cases h
  · rw [hdrop, significant, significant, List.filter_cons_of_neg (by simp [Token.isSignificant, h])]

theorem significant_drop (h : (after text (n + 1)).token.kind ≠ .unknown) :
    (Token.scanInner text).drop n = [] ∧ (after text (n + 1)).token = endToken text ∨
      significant ((Token.scanInner text).drop n) =
        (after text (n + 1)).token :: significant ((Token.scanInner text).drop (n + 1)) := by
  refine (drop_scanInner text n).imp_right fun ⟨hdrop, hkind⟩ => ?_
  rw [hdrop, significant, List.filter_cons_of_pos (by simp [Token.isSignificant, h, hkind])]
  rfl

theorem exists_advance (text : List Char) (n : Nat) :
    ∃ m, (after text n).advance = after text (m + 1) ∧ (after text (m + 1)).token.kind ≠ .unknown ∧
      significant ((Token.scanInner text).drop m) =
        significant ((Token.scanInner text).drop n) := by
  generalize hs : after text n = s
  induction s using advance.induct generalizing n with
  | case1 s t hstray ih =>
    subst hs
    obtain ⟨m, hm, hkind, hdrop⟩ := ih (n + 1) rfl
    rw [advance, dif_pos hstray]
    exact ⟨m, hm, hkind, hdrop.trans (significant_drop_of_stray hstray)⟩
  | case2 s t hstray =>
    subst hs
    rw [advance, dif_neg hstray]
    exact ⟨n, rfl, hstray, rfl⟩

/-- Whether a scanner of a text stands on the first of some tokens, which are the significant ones of
the text from there on, or at its end if there are none. -/
def StandsOn (text : List Char) (ts : List Token) (s : Scanner) : Prop :=
  ∃ n, s = after text (n + 1) ∧ s.token.kind ≠ .unknown ∧
    significant ((Token.scanInner text).drop n) = ts

theorem standsOn_advance (text : List Char) (n : Nat) :
    (after text n).advance.StandsOn text (significant ((Token.scanInner text).drop n)) := by
  obtain ⟨m, hm, hkind, hdrop⟩ := exists_advance text n
  exact ⟨m, hm, hm ▸ hkind, hdrop⟩

theorem standsOn_first (text : List Char) :
    (ofText text).advance.StandsOn text (significant (Token.scan text)) := by
  rw [Source.significant_eq]
  exact standsOn_advance text 0

namespace StandsOn

theorem token_eq (h : s.StandsOn text ts) : s.token = ts.headD (endToken text) := by
  obtain ⟨n, rfl, hkind, rfl⟩ := h
  rcases significant_drop hkind with ⟨hnil, hend⟩ | hdrop
  · rw [hnil, hend]
    rfl
  · rw [hdrop]
    rfl

theorem kind_eq (h : s.StandsOn text ts) : s.token.kind = Tree.next ts := by
  rw [h.token_eq]
  cases ts <;> rfl

theorem advance (h : s.StandsOn text ts) : s.advance.StandsOn text ts.tail := by
  obtain ⟨n, rfl, hkind, rfl⟩ := h
  have htail : (significant ((Token.scanInner text).drop n)).tail =
      significant ((Token.scanInner text).drop (n + 1)) := by
    rcases significant_drop hkind with ⟨hnil, -⟩ | hdrop
    · rw [← List.tail_drop, hnil]
      rfl
    · rw [hdrop]
      rfl
  rw [htail]
  exact standsOn_advance text (n + 1)

theorem suffix (h : s.StandsOn text ts) : ts <:+ significant (Token.scan text) := by
  obtain ⟨n, -, -, rfl⟩ := h
  rw [Source.significant_eq]
  exact (List.drop_suffix n _).filter _

end StandsOn

/-- The complaints of a scanner are those about the tokens up to the one on which it stands. -/
theorem diagnostics_eq_readUpTo (text : List Char) (n : Nat) :
    (after text (n + 1)).diagnostics =
      Token.faults (readUpTo (after text (n + 1)).token (Token.scan text)) := by
  rw [diagnostics_after]
  rcases drop_scanInner text n with ⟨hnil, hend⟩ | ⟨hdrop, -⟩
  · have hle : (Token.scanInner text).length ≤ n + 1 :=
      Nat.le_succ_of_le (List.drop_eq_nil_iff.mp hnil)
    rw [List.take_of_length_le hle, hend, Source.readUpTo_endToken, (Token.scan_eq text).1,
      Token.faults, Token.faults, List.filterMap_append]
    exact (List.append_nil _).symm
  · have hinner := List.take_append_drop n (Token.scanInner text)
    rw [hdrop] at hinner
    have hread : (Token.scanInner text)[n]? = some (after text (n + 1)).token := by
      rw [← List.head?_drop, hdrop, List.head?_cons]
    have hordered := Token.scan_ordered text
    rw [(Token.scan_eq text).1, ← hinner, List.append_assoc, List.cons_append] at hordered ⊢
    rw [Source.readUpTo_eq hordered, hinner, List.take_add_one, hread]
    rfl

end Lumen.Scanner
