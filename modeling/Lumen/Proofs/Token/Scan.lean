import Lumen.Source

/-!
# The tokens of a text

The tokens of a text come in the order of their positions. All but the last one have characters
and are not of the kind of the end token; the last one is the end token, which stands at the end
of the text.
-/

namespace Lumen

theorem TokenKind.ofKeyword?_ne_endOfFile (text : String) :
    ofKeyword? text ≠ some .endOfFile := by
  intro h
  have hspelling := List.find?_some h
  cases of_decide_eq_true hspelling

structure Token.Proper (t : Token) : Prop where
  text_ne : t.text ≠ ""
  kind_ne : t.kind ≠ .endOfFile

namespace Lexeme

theorem singleSign?_ne_endOfFile (c : Char) : singleSign? c ≠ some .endOfFile := by
  unfold singleSign?
  split <;> simp

theorem doubleSign?_ne_endOfFile (c d : Char) : doubleSign? c d ≠ some .endOfFile := by
  unfold doubleSign?
  split <;> simp

theorem single_kind_ne_endOfFile (c : Char) (cs : List Char) :
    (single c cs).kind ≠ .endOfFile := by
  have hsign := singleSign?_ne_endOfFile c
  rw [single]
  cases h : singleSign? c with
  | none => simp
  | some kind =>
    rw [h] at hsign
    simpa using hsign

theorem sign_kind_ne_endOfFile (c : Char) (cs : List Char) : (sign c cs).kind ≠ .endOfFile := by
  cases cs with
  | nil => exact single_kind_ne_endOfFile c []
  | cons d ds =>
    have hsign := doubleSign?_ne_endOfFile c d
    rw [sign]
    cases h : doubleSign? c d with
    | none => exact single_kind_ne_endOfFile c (d :: ds)
    | some kind =>
      rw [h] at hsign
      simpa using hsign

variable [Xid]

theorem head_kind_ne_endOfFile (c : Char) (cs : List Char) : (head c cs).kind ≠ .endOfFile := by
  rw [head]
  split
  · simp
  · split
    · have hword :=
        TokenKind.ofKeyword?_ne_endOfFile (String.ofList (c :: cs.takeWhile Text.isIdentifierPart))
      dsimp only
      rw [wordKind]
      cases h : TokenKind.ofKeyword? _ with
      | none => simp
      | some kind =>
        rw [h] at hword
        simpa using hword
    · exact sign_kind_ne_endOfFile c cs

theorem head_proper (start : Nat) (c : Char) (cs : List Char) :
    ((head c cs).toToken start).Proper where
  text_ne h := head_text_ne_nil c cs (by simpa [toToken] using h)
  kind_ne := head_kind_ne_endOfFile c cs

end Lexeme

namespace Cursor

theorem stop_skipLayout (c : Cursor) :
    c.skipLayout.position + Text.size c.skipLayout.rest = c.position + Text.size c.rest := by
  have hsplit := congrArg Text.size
    (List.takeWhile_append_dropWhile (p := Text.isLayout) (l := c.rest))
  rw [Text.size_append] at hsplit
  simp only [skipLayout]
  omega

theorem position_le_skipLayout (c : Cursor) : c.position ≤ c.skipLayout.position :=
  Nat.le_add_right _ _

variable [Xid] {c : Cursor} {d : Char} {ds : List Char}

theorem tokens_of_nil (h : c.skipLayout.rest = []) :
    c.tokens = [endToken c.skipLayout.position] := by
  rw [tokens]
  split
  · rfl
  · next hcons => cases h.symm.trans hcons

theorem tokens_of_cons (h : c.skipLayout.rest = d :: ds) :
    c.tokens = (Lexeme.head d ds).toToken c.skipLayout.position ::
      (behind c.skipLayout.position (Lexeme.head d ds)).tokens := by
  rw [tokens]
  split
  · next hnil => cases h.symm.trans hnil
  · next hcons =>
    cases h.symm.trans hcons
    rfl

theorem stop_behind (start : Nat) (d : Char) (ds : List Char) :
    (behind start (Lexeme.head d ds)).position + Text.size (behind start (Lexeme.head d ds)).rest =
      start + Text.size (d :: ds) := by
  rw [← Lexeme.head_append d ds, Text.size_append]
  simp only [behind]
  omega

theorem exists_tokens_eq (c : Cursor) : ∃ inner,
    c.tokens = inner ++ [endToken (c.position + Text.size c.rest)] ∧ ∀ t ∈ inner, t.Proper := by
  induction c using tokens.induct with
  | case1 c s hread =>
    refine ⟨[], ?_, List.forall_mem_nil _⟩
    rw [tokens_of_nil hread, ← stop_skipLayout, hread]
    rfl
  | case2 c s d ds hread l ih =>
    obtain ⟨inner, htokens, hinner⟩ := ih
    refine ⟨l.toToken s.position :: inner, ?_,
      List.forall_mem_cons.mpr ⟨Lexeme.head_proper _ d ds, hinner⟩⟩
    rw [tokens_of_cons hread, htokens, stop_behind, ← stop_skipLayout, ← hread]
    rfl

theorem tokens_ordered (c : Cursor) :
    (∀ t ∈ c.tokens, c.position ≤ t.start) ∧ c.tokens.Pairwise (·.stop ≤ ·.start) := by
  induction c using tokens.induct with
  | case1 c s hread =>
    rw [tokens_of_nil hread]
    exact ⟨List.forall_mem_singleton.mpr c.position_le_skipLayout, List.pairwise_singleton ..⟩
  | case2 c s d ds hread l ih =>
    obtain ⟨hbehind, hordered⟩ := ih
    have hstop : (behind s.position l).position = (l.toToken s.position).stop := by
      simp [behind, Token.stop, Lexeme.toToken]
    rw [hstop] at hbehind
    have hskip : c.position ≤ s.position := c.position_le_skipLayout
    rw [tokens_of_cons hread]
    refine ⟨List.forall_mem_cons.mpr ⟨hskip, fun t ht => ?_⟩,
      List.pairwise_cons.mpr ⟨hbehind, hordered⟩⟩
    have hfirst : s.position ≤ (l.toToken s.position).stop := Nat.le_add_right _ _
    exact Nat.le_trans hskip (Nat.le_trans hfirst (hbehind t ht))

end Cursor

namespace Token

theorem start_lt_stop {t : Token} (h : t.text ≠ "") : t.start < t.stop := by
  obtain ⟨d, ds, hd⟩ := List.exists_cons_of_ne_nil (mt String.toList_eq_nil_iff.mp h)
  have hsize := d.utf8Size_pos
  rw [stop, hd, Text.size_cons]
  omega

variable [Xid]

/-- A text is scanned to tokens with characters and then the end token. -/
theorem scan_eq (text : List Char) :
    scan text = scanInner text ++ [Source.endToken text] ∧
      ∀ t ∈ scanInner text, t.Proper := by
  obtain ⟨inner, htokens, hinner⟩ := Cursor.exists_tokens_eq (.ofText text)
  rw [Cursor.ofText, Nat.zero_add] at htokens
  have hscan : scanInner text = inner := by
    rw [scanInner, scan, Cursor.ofText, htokens, List.dropLast_concat]
  rw [hscan]
  exact ⟨htokens, hinner⟩

theorem scan_apart (text : List Char) : (scan text).Pairwise (·.stop ≤ ·.start) :=
  (Cursor.tokens_ordered (.ofText text)).2

theorem scan_ordered (text : List Char) : (scan text).Pairwise (·.start < ·.start) := by
  have hordered := scan_apart text
  obtain ⟨hscan, hinner⟩ := scan_eq text
  rw [hscan, List.pairwise_append] at hordered ⊢
  obtain ⟨hpairs, hlast, hbefore⟩ := hordered
  refine ⟨hpairs.imp_of_mem fun ht _ h => ?_, List.pairwise_singleton .., fun t ht u hu => ?_⟩
  · exact Nat.lt_of_lt_of_le (start_lt_stop (hinner _ ht).text_ne) h
  · exact Nat.lt_of_lt_of_le (start_lt_stop (hinner t ht).text_ne) (hbefore t ht u hu)

end Token

end Lumen
