import Lumen.Proofs.Source.Accounting
import Lumen.Proofs.Source.RoundTrip

/-!
# Sources and layout

A text is read from its tokens, and the kinds of the tokens decide how. So texts whose tokens agree
up to positions are read as the same tree, up to positions, and complained about for the same causes
in the same order; reading also stops at the same token of both.
-/

namespace Lumen

theorem Token.cause_fault?_unplaced (t : Token) :
    t.unplaced.fault?.map Diagnostic.cause = t.fault?.map Diagnostic.cause := by
  obtain ⟨kind, start, text, value⟩ := t
  cases kind <;> cases value <;> rfl

theorem Token.causes_faults_unplaced (ts : List Token) :
    (faults (ts.map unplaced)).map Diagnostic.cause = (faults ts).map Diagnostic.cause := by
  rw [faults, faults, List.filterMap_map, List.map_filterMap, List.map_filterMap]
  exact congrArg (List.filterMap · ts) (funext cause_fault?_unplaced)

theorem Diagnostic.causes_unplaced (ds : List Diagnostic) :
    (ds.map unplaced).map cause = ds.map cause := by
  rw [List.map_map]
  rfl

namespace Source

open Lumen.Tree (Parsed ReadsStmt)

variable {ts ts' a b : List Token} {found found' : Token}

theorem readUpTo_eq (hordered : (a ++ found :: b).Pairwise (·.start < ·.start)) :
    readUpTo found (a ++ found :: b) = a ++ [found] := by
  obtain ⟨-, hbehind, hbefore⟩ := List.pairwise_append.mp hordered
  have ha : readUpTo found a = a := by
    refine List.filter_eq_self.mpr fun t ht => decide_eq_true ?_
    exact Nat.le_of_lt (hbefore t ht found List.mem_cons_self)
  have hb : readUpTo found b = [] := by
    refine List.filter_eq_nil_iff.mpr fun t ht => ?_
    have hlt := (List.pairwise_cons.mp hbehind).1 t ht
    simpa using hlt
  rw [readUpTo] at ha hb ⊢
  rw [List.filter_append, List.filter_cons_of_pos (by simp), ha, hb]

theorem isSignificant_unplaced (t : Token) : t.unplaced.isSignificant = t.isSignificant := rfl

theorem length_significant_unplaced (h : ts'.map Token.unplaced = ts.map Token.unplaced) :
    (significant ts').length = (significant ts).length := by
  have hmap := congrArg significant h
  rw [← significant_map_unplaced, ← significant_map_unplaced] at hmap
  simpa using congrArg List.length hmap

/-- A significant token stands at the same place of two lists of tokens that agree up to positions
if as many significant tokens stand behind it. -/
theorem exists_split_of_unplaced {used' rest' : List Token}
    (h : ts'.map Token.unplaced = (a ++ found :: b).map Token.unplaced)
    (hfound : found.isSignificant = true) (hrest : significant ts' = used' ++ found' :: rest')
    (hlength : rest'.length = (significant b).length) :
    ∃ a' b', ts' = a' ++ found' :: b' ∧ (a' ++ [found']).map Token.unplaced =
      (a ++ [found]).map Token.unplaced := by
  rw [List.map_append, List.map_cons] at h
  obtain ⟨a', behind, rfl, ha, hbehind⟩ := List.map_eq_append_iff.mp h
  obtain ⟨t, b', rfl, ht, hb⟩ := List.map_eq_cons_iff.mp hbehind
  have hsignificant : t.isSignificant = true := by
    rw [← isSignificant_unplaced, ht, isSignificant_unplaced, hfound]
  have hcount := length_significant_unplaced hb
  rw [significant] at hrest hcount
  rw [List.filter_append, List.filter_cons_of_pos hsignificant] at hrest
  obtain ⟨-, hsame⟩ := List.append_inj' hrest (by simp [hlength, hcount])
  obtain ⟨rfl, -⟩ := List.cons.inj hsame
  exact ⟨a', b', rfl, by simp [ha, ht]⟩

/-- A token at which reading stops stands in the text between tokens. -/
theorem exists_split_of_significant {used rest : List Token}
    (h : significant ts = used ++ found :: rest) :
    ∃ a b, ts = a ++ found :: b ∧ significant b = rest ∧ found.isSignificant = true := by
  obtain ⟨before, behind, rfl, -, hbehind⟩ := List.filter_eq_append_iff.mp h
  obtain ⟨gap, b, rfl, -, hfound, hb⟩ := List.filter_eq_cons_iff.mp hbehind
  exact ⟨before ++ gap, b, (List.append_assoc ..).symm, hb, hfound⟩

variable [Xid] {text text' : List Char}

theorem significant_unplaced
    (h : (Token.scan text').map Token.unplaced = (Token.scan text).map Token.unplaced) :
    (significant (Token.scan text')).map Token.unplaced =
      (significant (Token.scan text)).map Token.unplaced := by
  rw [significant_map_unplaced, significant_map_unplaced, h]

theorem stmt_unplaced_eq {s s' : Tree.Stmt} {rest rest' d d' : List Token} {f f' : List Diagnostic}
    (h : (Token.scan text').map Token.unplaced = (Token.scan text).map Token.unplaced)
    (hread : ReadsStmt (endToken text) (significant (Token.scan text)) s rest f d)
    (hread' : ReadsStmt (endToken text') (significant (Token.scan text')) s' rest' f' d') :
    s'.unplaced = s.unplaced ∧ rest'.map Token.unplaced = rest.map Token.unplaced ∧
      f'.map Diagnostic.cause = f.map Diagnostic.cause := by
  have hread' := hread'.unplaced
  rw [significant_unplaced h] at hread'
  obtain ⟨hs, hrest, hf⟩ := Parsed.stmt_of_reads hread.unplaced
  obtain ⟨hs', hrest', hf'⟩ := Parsed.stmt_of_reads hread'
  refine ⟨hs'.symm.trans hs, hrest'.symm.trans hrest, ?_⟩
  rw [← Diagnostic.causes_unplaced f', ← Diagnostic.causes_unplaced f]
  exact congrArg _ (hf'.symm.trans hf)

/-- Where reading stops at tokens with as many significant tokens behind them, the same complaints
about tokens are made. -/
theorem causes_readUpTo {used used' rest rest' : List Token}
    (h : (Token.scan text').map Token.unplaced = (Token.scan text).map Token.unplaced)
    (hstop : significant (Token.scan text) = used ++ found :: rest)
    (hstop' : significant (Token.scan text') = used' ++ found' :: rest')
    (hlength : rest'.length = rest.length) :
    (Token.faults (readUpTo found' (Token.scan text'))).map Diagnostic.cause =
      (Token.faults (readUpTo found (Token.scan text))).map Diagnostic.cause := by
  obtain ⟨a, b, hsplit, hb, hfound⟩ := exists_split_of_significant hstop
  have hordered := Token.scan_ordered text
  have hordered' := Token.scan_ordered text'
  rw [hsplit] at h hordered ⊢
  obtain ⟨a', b', hsplit', hmap⟩ :=
    exists_split_of_unplaced h hfound hstop' (hlength.trans (congrArg List.length hb).symm)
  rw [hsplit'] at hordered' ⊢
  rw [readUpTo_eq hordered, readUpTo_eq hordered', ← Token.causes_faults_unplaced, hmap,
    Token.causes_faults_unplaced]

theorem readUpTo_endToken (text : List Char) :
    readUpTo (endToken text) (Token.scan text) = Token.scan text := by
  have hordered := Token.scan_ordered text
  rw [(Token.scan_eq text).1] at hordered ⊢
  exact readUpTo_eq hordered

/-- Texts whose tokens agree up to positions are parsed as the same tree, up to positions, and with
the same causes of complaint. -/
theorem parse_unplaced
    (h : (Token.scan text').map Token.unplaced = (Token.scan text).map Token.unplaced) :
    (parse text').program.unplaced = (parse text).program.unplaced ∧
      (parse text').diagnostics.map Diagnostic.cause =
        (parse text).diagnostics.map Diagnostic.cause := by
  have hread := reads_parse text
  have hread' := reads_parse text'
  generalize parse text = src at hread
  generalize parse text' = src' at hread'
  cases hread with
  | whole hs =>
    cases hread' with
    | whole hs' =>
      obtain ⟨hphrase, -, hcauses⟩ := stmt_unplaced_eq h hs hs'
      refine ⟨by rw [Tree.Program.unplaced, Tree.Program.unplaced, hphrase]; rfl, ?_⟩
      rw [List.map_append, List.map_append, hcauses, readUpTo_endToken, readUpTo_endToken,
        ← Token.causes_faults_unplaced, h, Token.causes_faults_unplaced]
    | part hs' => cases (stmt_unplaced_eq h hs hs').2.1
  | @part s found rest f hs =>
    cases hread' with
    | whole hs' => cases (stmt_unplaced_eq h hs hs').2.1
    | @part s' found' rest' f' hs' =>
      obtain ⟨hphrase, hrests, hcauses⟩ := stmt_unplaced_eq h hs hs'
      obtain ⟨hfound, hrest⟩ := List.cons.inj hrests
      obtain ⟨used, hused, -⟩ := (hs.accounts (noneMissing_significant text)).exists_used
      obtain ⟨used', hused', -⟩ := (hs'.accounts (noneMissing_significant text')).exists_used
      have hscanned := causes_readUpTo h hused hused' (by simpa using congrArg List.length hrest)
      have hkind : found'.unplaced.kind = found.unplaced.kind := congrArg Token.kind hfound
      change found'.kind = found.kind at hkind
      refine ⟨by rw [Tree.Program.unplaced, Tree.Program.unplaced, hphrase]; rfl, ?_⟩
      simp only [List.map_append, hscanned, hcauses, List.map_cons, List.map_nil,
        Parsed.unexpected, hkind]

end Source

end Lumen
