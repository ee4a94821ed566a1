import Lumen.Proofs.Token.Tiling
import Lumen.Scanner.Bytes
import Lumen.Text.Identifier.Table

/-!
# Scanning by byte positions reads the prescribed tokens

A scanner that counts bytes stands between two pieces of its text, and has been at such places
only: this is what each advance preserves, since the bytes that it passes are those of whole
characters. So no step is without result, and a scan reads the token that the cursor at this place
reads. Scanning on and on tiles the text.
-/

namespace Lumen

namespace Lexeme

variable {text rest : List Char} {start : Nat}

theorem span_toToken (l : Lexeme) : (l.toToken start).span = ⟨start, Text.size l.text⟩ := by
  rw [Token.span, toToken, String.toList_ofList]

theorem fault?_of_stray : (toToken ⟨.unknown, text, rest⟩ start).fault? =
    some ⟨⟨start, Text.size text⟩, .badCharacter (String.ofList text)⟩ := by
  rw [Token.fault?, span_toToken]
  rfl

theorem fault?_of_int64? {n : Int64} (h : Text.int64? text = some n) :
    (toToken ⟨.number, text, rest⟩ start).fault? = none := by
  have hvalue : (toToken ⟨.number, text, rest⟩ start).value = some (.int n) := by
    rw [toToken, value?, h]
    rfl
  rw [Token.fault?, hvalue]
  rfl

theorem fault?_of_beyond (h : Text.int64? text = none) :
    (toToken ⟨.number, text, rest⟩ start).fault? =
      some ⟨⟨start, Text.size text⟩, .invalidNumber (String.ofList text) "Int"⟩ := by
  have hvalue : (toToken ⟨.number, text, rest⟩ start).value = none := by
    rw [toToken, value?, h]
    rfl
  rw [Token.fault?, hvalue, span_toToken]
  rfl

end Lexeme

namespace ByteScanner

variable {s t : ByteScanner} {before rest piece : List Char} {c a : Char} {cs : List Char}

/-- Whether a scanner stands between two pieces of its text, and was between characters all the
time. -/
structure Stands (before rest : List Char) (s : ByteScanner) : Prop where
  text_eq : s.text = before ++ rest
  pos_eq : s.pos = Text.size before
  pos_mem : s.pos ∈ s.visited
  visited : ∀ pos ∈ s.visited, Text.IsBoundary s.text pos

/-- Whether a scanner differs from another one in its place, and in no other way that matters. -/
structure Moved (s t : ByteScanner) : Prop where
  text_eq : t.text = s.text
  tokenStart_eq : t.tokenStart = s.tokenStart
  value_eq : t.value = s.value
  diagnostics_eq : t.diagnostics = s.diagnostics

theorem Moved.trans {u : ByteScanner} (hst : Moved s t) (htu : Moved t u) : Moved s u where
  text_eq := htu.text_eq.trans hst.text_eq
  tokenStart_eq := htu.tokenStart_eq.trans hst.tokenStart_eq
  value_eq := htu.value_eq.trans hst.value_eq
  diagnostics_eq := htu.diagnostics_eq.trans hst.diagnostics_eq

theorem moved_advance (n : Nat) (s : ByteScanner) : Moved s (s.advance n) := ⟨rfl, rfl, rfl, rfl⟩

theorem stands_ofText (text : List Char) : (ofText text).Stands [] text where
  text_eq := rfl
  pos_eq := rfl
  pos_mem := List.mem_singleton_self 0
  visited := List.forall_mem_singleton.mpr ⟨[], text, rfl, rfl⟩

namespace Stands

theorem current?_eq (h : s.Stands before rest) : s.current? = some rest.head? := by
  rw [current?, h.text_eq, h.pos_eq, Text.dropBytes?_append, Option.map_some]

/-- Passing the bytes of a piece leads behind the piece. -/
theorem advance {n : Nat} (h : s.Stands before (piece ++ rest)) (hn : n = Text.size piece) :
    (s.advance n).Stands (before ++ piece) rest := by
  have hpos : s.pos + n = Text.size (before ++ piece) := by
    rw [h.pos_eq, hn, Text.size_append]
  have htext : s.text = before ++ piece ++ rest := by rw [h.text_eq, List.append_assoc]
  refine ⟨htext, hpos, List.mem_append_right _ (List.mem_singleton_self _), fun pos hmem => ?_⟩
  rcases List.mem_append.mp hmem with hmem | hmem
  · exact h.visited pos hmem
  · rw [List.mem_singleton.mp hmem]
    exact ⟨before ++ piece, rest, htext, hpos⟩

/-- The byte behind a character of one byte tells whether an ASCII character follows. -/
theorem byteAt?_one (h : s.Stands before (c :: cs)) (hc : c.utf8Size = 1) (ha : a.toNat < 128) :
    s.byteAt? 1 = some a.toUInt8 ↔ cs.head? = some a := by
  have hlength : (Text.bytes before ++ String.utf8EncodeChar c).length = s.pos + 1 := by
    rw [List.length_append, Text.length_bytes, String.length_utf8EncodeChar, hc, h.pos_eq]
  have hbyte : s.byteAt? 1 = (Text.bytes cs).head? := by
    rw [byteAt?, h.text_eq, Text.bytes_append, Text.bytes_cons, ← List.append_assoc, ← hlength,
      List.getElem?_append_right (Nat.le_refl _), Nat.sub_self, List.head?_eq_getElem?]
  rw [hbyte, Text.head?_bytes_eq_some ha]

theorem tokenText?_eq (h : s.Stands (before ++ piece) rest)
    (hstart : s.tokenStart = Text.size before) : s.tokenText? = some piece := by
  have hpos : s.pos = s.tokenStart + Text.size piece := by
    rw [h.pos_eq, hstart, Text.size_append]
  rw [tokenText?, if_pos (by omega), hpos, Nat.add_sub_cancel_left, hstart, h.text_eq,
    List.append_assoc, Text.dropBytes?_append, Option.bind_some, Text.takeBytes?_append]

theorem pos_le_size (h : s.Stands before rest) : s.pos ≤ Text.size s.text := by
  rw [h.pos_eq, h.text_eq, Text.size_append]
  exact Nat.le_add_right _ _

theorem of_place (h : s.Stands before rest) (htext : t.text = s.text) (hpos : t.pos = s.pos)
    (hvisited : t.visited = s.visited) : t.Stands before rest := by
  refine ⟨htext.trans h.text_eq, hpos.trans h.pos_eq, ?_, ?_⟩
  · rw [hpos, hvisited]
    exact h.pos_mem
  · rw [htext, hvisited]
    exact h.visited

/-- In a short text the words of 32 bits are the positions. -/
theorem toNat_ofNat {n : Nat} (h : s.Stands before rest) (hn : n ≤ s.pos)
    (hshort : Text.size s.text < 0x100000000) : (UInt32.ofNat n).toNat = n :=
  UInt32.toNat_ofNat_of_lt' (Nat.lt_of_le_of_lt (Nat.le_trans hn h.pos_le_size) hshort)

theorem tokenStart_le (h : s.Stands (before ++ piece) rest)
    (hstart : s.tokenStart = Text.size before) : s.tokenStart ≤ s.pos := by
  rw [h.pos_eq, hstart, Text.size_append]
  exact Nat.le_add_right _ _

theorem tokenSpan?_eq (h : s.Stands (before ++ piece) rest)
    (hstart : s.tokenStart = Text.size before) (hshort : Text.size s.text < 0x100000000) :
    s.tokenSpan? = some ⟨Text.size before, Text.size piece⟩ := by
  have hstartWord := h.toNat_ofNat (h.tokenStart_le hstart) hshort
  have hendWord := h.toNat_ofNat (Nat.le_refl _) hshort
  have hle : UInt32.ofNat s.tokenStart ≤ UInt32.ofNat s.pos := by
    rw [UInt32.le_iff_toNat_le, hstartWord, hendWord]
    exact h.tokenStart_le hstart
  rw [tokenSpan?, if_pos hle, UInt32.toNat_sub_of_le _ _ hle, hstartWord, hendWord, hstart,
    h.pos_eq, Text.size_append, Nat.add_sub_cancel_left]

theorem token?_eq (h : s.Stands (before ++ piece) rest)
    (hstart : s.tokenStart = Text.size before) (hshort : Text.size s.text < 0x100000000) :
    s.token? = some ⟨s.kind, Text.size before, String.ofList piece, s.value⟩ := by
  rw [token?, h.tokenText?_eq hstart, Option.map_some,
    h.toNat_ofNat (h.tokenStart_le hstart) hshort, hstart]

end Stands

section Loops

variable {p : Char → Bool} {stride : Stride}

theorem skipWhile?_of_stop {x : Option Char} (h : s.current? = some x)
    (hx : ∀ c ∈ x, p c = false) : skipWhile? p stride s = some s := by
  rw [skipWhile?]
  split
  · next hnone => cases h.symm.trans hnone
  · rfl
  · next c hcurrent =>
    cases h.symm.trans hcurrent
    rw [if_neg (Bool.eq_false_iff.mp (hx c rfl))]

theorem skipWhile?_of_pass (h : s.current? = some (some c)) (hc : p c = true) :
    skipWhile? p stride s = skipWhile? p stride (s.advance (stride.width c)) := by
  rw [skipWhile?]
  split
  · next hnone => cases h.symm.trans hnone
  · next hnone => cases h.symm.trans hnone
  · next hcurrent =>
    cases h.symm.trans hcurrent
    rw [if_pos hc]

/-- A loop goes behind the run of its characters if it passes each by its width. -/
theorem Stands.exists_skipWhile? {run : List Char} (h : s.Stands before (run ++ rest))
    (hrun : ∀ c ∈ run, p c = true ∧ stride.width c = c.utf8Size) (hrest : Text.EndsRun p rest) :
    ∃ t, skipWhile? p stride s = some t ∧ t.Stands (before ++ run) rest ∧ Moved s t := by
  induction run generalizing before s with
  | nil =>
    rw [List.append_nil]
    exact ⟨s, skipWhile?_of_stop h.current?_eq hrest, h, rfl, rfl, rfl, rfl⟩
  | cons c run ih =>
    obtain ⟨⟨hc, hwidth⟩, hrun⟩ := List.forall_mem_cons.mp hrun
    have hfirst : s.Stands before ([c] ++ (run ++ rest)) := h
    have hstep := hfirst.advance hwidth
    obtain ⟨t, hskip, hstands, hmoved⟩ := ih hstep hrun
    rw [List.append_assoc] at hstands
    exact ⟨t, (skipWhile?_of_pass h.current?_eq hc).trans hskip, hstands,
      (moved_advance _ s).trans hmoved⟩

end Loops

/-- Whether a scanner stands where a token starts, and knows nothing about the token yet. -/
structure Begins (before rest : List Char) (s : ByteScanner) : Prop
    extends s.Stands before rest where
  tokenStart_eq : s.tokenStart = Text.size before
  value_eq : s.value = none
  short : Text.size s.text < 0x100000000

/-- Whether a scanner has read a piece that starts behind another one, coming from a scanner at the
start of it. -/
structure Reads (before : List Char) (l : Lexeme) (s t : ByteScanner) : Prop
    extends t.Stands (before ++ l.text) l.rest where
  tokenStart_eq : t.tokenStart = Text.size before
  kind_eq : t.kind = l.kind
  value_eq : t.value = l.value?
  diagnostics_eq : t.diagnostics =
    s.diagnostics ++ (l.toToken (Text.size before)).fault?.toList

namespace Begins

variable {kind single double : TokenKind} {next : Char} {n : Nat}

/-- A scanner that has moved behind a piece has read it once it notes what the piece means. -/
theorem reads_of_moved {l : Lexeme} {value : Option Value} {found : List Diagnostic}
    (h : s.Begins before rest) (hmoved : Moved s t) (hstands : t.Stands (before ++ l.text) l.rest)
    (hvalue : value = l.value?)
    (hfound : found = t.diagnostics ++ (l.toToken (Text.size before)).fault?.toList) :
    Reads before l s { t with kind := l.kind, value, diagnostics := found } where
  toStands := hstands.of_place rfl rfl rfl
  tokenStart_eq := hmoved.tokenStart_eq.trans h.tokenStart_eq
  kind_eq := rfl
  value_eq := hvalue
  diagnostics_eq := hfound.trans (congrArg (· ++ _) hmoved.diagnostics_eq)

theorem reads_sign {text : String} (h : s.Begins before (piece ++ rest))
    (hkind : kind.punctuationText? = some text) (hn : n = Text.size piece) :
    Reads before ⟨kind, piece, rest⟩ s { s.advance n with kind } := by
  have hnone : (Lexeme.toToken ⟨kind, piece, rest⟩ (Text.size before)).fault? = none := by
    apply Token.fault?_eq_none
    · rintro rfl
      cases hkind
    · rintro rfl
      cases hkind
  apply h.reads_of_moved (moved_advance n s) (h.toStands.advance hn)
  · exact h.value_eq.trans (Lexeme.value?_of_punctuation hkind).symm
  · rw [hnone]
    exact (List.append_nil _).symm

theorem reads_single (h : s.Begins before (c :: cs)) (hc : c.utf8Size = 1)
    (hsingle : Lexeme.singleSign? c = some kind)
    (hshort : ∀ d ∈ cs.head?, Lexeme.doubleSign? c d = none) :
    Reads before (Lexeme.sign c cs) s (s.sign kind) := by
  have hpiece : s.Begins before ([c] ++ cs) := h
  rw [Lexeme.sign_eq_single hshort, Lexeme.single, hsingle]
  exact hpiece.reads_sign (Lexeme.punctuationText?_of_singleSign? hsingle) hc.symm

theorem reads_followedBy (h : s.Begins before (c :: cs)) (hc : c.utf8Size = 1)
    (hnext : next.toNat < 128) (hsingle : Lexeme.singleSign? c = some single)
    (hdouble : ∀ d, Lexeme.doubleSign? c d = if d = next then some double else none) :
    Reads before (Lexeme.sign c cs) s (s.followedBy next single double) := by
  unfold followedBy
  by_cases hahead : cs.head? = some next
  · obtain ⟨ds, rfl⟩ := List.head?_eq_some_iff.mp hahead
    have hsign : Lexeme.doubleSign? c next = some double := by rw [hdouble, if_pos rfl]
    have hwidth : next.utf8Size = 1 := Char.utf8Size_eq_one_iff.mpr (Nat.le_of_lt_succ hnext)
    have hpiece : s.Begins before ([c, next] ++ ds) := h
    rw [if_pos ((h.byteAt?_one hc hnext).mpr hahead), Lexeme.sign, hsign]
    refine hpiece.reads_sign (Lexeme.punctuationText?_of_doubleSign? hsign) ?_
    rw [Text.size_cons, Text.size_cons, hc, hwidth]
    rfl
  · rw [if_neg (mt (h.byteAt?_one hc hnext).mp hahead)]
    refine reads_single h hc hsingle fun d hd => ?_
    rw [hdouble, if_neg]
    rintro rfl
    exact hahead hd

/-- The token of a run of characters ends where the run ends. -/
theorem exists_run? {p : Char → Bool} {stride : Stride} (h : s.Begins before (c :: cs))
    (hc : p c = true) (hwidth : ∀ d, p d = true → stride.width d = d.utf8Size) :
    ∃ t, skipWhile? p stride s = some t ∧ Moved s t ∧
      t.Stands (before ++ c :: cs.takeWhile p) (cs.dropWhile p) ∧
      t.tokenText? = some (c :: cs.takeWhile p) ∧
      t.tokenSpan? = some ⟨Text.size before, Text.size (c :: cs.takeWhile p)⟩ := by
  have hrun : ∀ d ∈ c :: cs.takeWhile p, p d = true ∧ stride.width d = d.utf8Size := by
    intro d hd
    have hd : p d = true := by
      rcases List.mem_cons.mp hd with rfl | hd
      · exact hc
      · exact List.mem_takeWhile_imp hd
    exact ⟨hd, hwidth d hd⟩
  have hstands : s.Stands before (c :: cs.takeWhile p ++ cs.dropWhile p) := by
    rw [List.cons_append, List.takeWhile_append_dropWhile]
    exact h.toStands
  obtain ⟨t, hskip, hbehind, hmoved⟩ :=
    hstands.exists_skipWhile? hrun (Text.endsRun_dropWhile _ _)
  have hstart := hmoved.tokenStart_eq.trans h.tokenStart_eq
  have hshort : Text.size t.text < 0x100000000 := by
    rw [hmoved.text_eq]
    exact h.short
  exact ⟨t, hskip, hmoved, hbehind, hbehind.tokenText?_eq hstart,
    hbehind.tokenSpan?_eq hstart hshort⟩

theorem exists_number? (h : s.Begins before (c :: cs)) (hc : c.isDigit = true) : ∃ t,
    s.number? = some t ∧
      Reads before ⟨.number, c :: cs.takeWhile Char.isDigit, cs.dropWhile Char.isDigit⟩ s t := by
  have hwidth : ∀ d : Char, d.isDigit = true → Stride.byte.width d = d.utf8Size := by
    intro d hd
    have hbound : d.val ≤ 57 := (of_decide_eq_true (Bool.and_eq_true_iff.mp hd).2 : d.val ≤ 57)
    exact (Char.utf8Size_eq_one_iff.mpr (Nat.le_trans hbound (by decide))).symm
  obtain ⟨t, hskip, hmoved, hstands, htext, hspan⟩ := h.exists_run? hc hwidth
  unfold number?
  simp only [hskip, Option.bind_eq_bind, Option.bind_some, htext, hspan]
  cases hn : Text.int64? (c :: cs.takeWhile Char.isDigit) with
  | some n =>
    refine ⟨_, rfl, h.reads_of_moved hmoved hstands ?_ ?_⟩
    · rw [Lexeme.value?, hn]
      rfl
    · rw [Lexeme.fault?_of_int64? hn]
      exact (List.append_nil _).symm
  | none =>
    refine ⟨_, rfl, h.reads_of_moved hmoved hstands ?_ ?_⟩
    · rw [Lexeme.value?, hn]
      exact hmoved.value_eq.trans h.value_eq
    · rw [Lexeme.fault?_of_beyond hn]
      rfl

theorem exists_stray? (h : s.Begins before (c :: cs)) :
    ∃ t, s.stray? c = some t ∧ Reads before ⟨.unknown, [c], cs⟩ s t := by
  have hpiece : s.Stands before ([c] ++ cs) := h.toStands
  have hstands : (s.advance c.utf8Size).Stands (before ++ [c]) cs := hpiece.advance rfl
  have hspan := hstands.tokenSpan?_eq h.tokenStart_eq h.short
  unfold stray?
  simp only [hspan, Option.bind_eq_bind, Option.bind_some]
  refine ⟨_, rfl, h.reads_of_moved (moved_advance _ s) hstands h.value_eq ?_⟩
  rw [Lexeme.fault?_of_stray, ← String.singleton_eq_ofList]
  rfl

variable [Xid]

theorem exists_word? (h : s.Begins before (c :: cs)) (hc : Text.isIdentifierStart c = true) :
    ∃ t, s.word? = some t ∧
      Reads before ⟨Lexeme.wordKind (c :: cs.takeWhile Text.isIdentifierPart),
        c :: cs.takeWhile Text.isIdentifierPart, cs.dropWhile Text.isIdentifierPart⟩ s t := by
  have hwidth : ∀ d : Char, Text.isIdentifierPart d = true →
      Stride.character.width d = d.utf8Size := fun _ _ => rfl
  obtain ⟨t, hskip, hmoved, hstands, htext, -⟩ :=
    h.exists_run? (Text.isIdentifierPart_of_start hc) hwidth
  generalize hword : c :: cs.takeWhile Text.isIdentifierPart = word at hstands htext ⊢
  have hvalue := hmoved.value_eq.trans h.value_eq
  have hreads : ∀ (kind : TokenKind) (value : Option Value), kind ≠ .unknown → kind ≠ .number →
      value = Lexeme.value? ⟨kind, word, cs.dropWhile Text.isIdentifierPart⟩ →
      Reads before ⟨kind, word, cs.dropWhile Text.isIdentifierPart⟩ s { t with kind, value } := by
    intro kind value hunknown hnumber hvalue
    apply h.reads_of_moved hmoved hstands hvalue
    rw [Token.fault?_eq_none hunknown hnumber]
    exact (List.append_nil _).symm
  unfold word? Lexeme.wordKind
  simp only [hskip, Option.bind_eq_bind, Option.bind_some, htext]
  split
  · next hkind =>
    rw [hkind]
    exact ⟨_, rfl, hreads .trueKeyword _ nofun nofun rfl⟩
  · next hkind =>
    rw [hkind]
    exact ⟨_, rfl, hreads .falseKeyword _ nofun nofun rfl⟩
  · next kind htrue hfalse hkind =>
    have hspelled := TokenKind.ofKeyword?_eq_some_iff.mp hkind
    rw [hkind]
    refine ⟨_, rfl, hreads kind t.value ?_ ?_ ?_⟩
    · rintro rfl
      cases hspelled
    · rintro rfl
      cases hspelled
    · rw [hvalue, Lexeme.value?_of_keyword hspelled]
      exact (TokenKind.truth?_eq_none htrue hfalse).symm
  · next hkind =>
    rw [hkind]
    exact ⟨_, rfl, hreads .identifier t.value nofun nofun hvalue⟩

theorem exists_read? (h : s.Begins before (c :: cs)) :
    ∃ t, s.read? c = some t ∧ Reads before (Lexeme.head c cs) s t := by
  unfold read?
  split
  case h_17 =>
    have hnone : Lexeme.singleSign? c = none := by
      unfold Lexeme.singleSign?
      split
      case h_17 => rfl
      all_goals contradiction
    rw [Lexeme.head]
    split
    · next hdigit => exact h.exists_number? hdigit
    · split
      · next hstart => exact h.exists_word? hstart
      · rw [Lexeme.sign_eq_stray hnone]
        exact h.exists_stray?
  all_goals
    rw [Lexeme.head_of_singleSign? rfl]
  case h_1 | h_2 | h_3 | h_4 | h_5 | h_6 | h_7 | h_8 | h_9 | h_10 =>
    exact ⟨_, rfl, h.reads_single rfl rfl fun _ _ => rfl⟩
  all_goals
    refine ⟨_, rfl, h.reads_followedBy rfl (by decide) rfl fun d => ?_⟩
    split
    · next hd =>
      subst hd
      rfl
    · next hd => simp [Lexeme.doubleSign?, hd]

end Begins

theorem Reads.token?_eq {l : Lexeme} (h : Reads before l s t)
    (hshort : Text.size t.text < 0x100000000) :
    t.token? = some (l.toToken (Text.size before)) := by
  rw [h.toStands.token?_eq h.tokenStart_eq hshort, h.kind_eq, h.value_eq]
  rfl

/-- Whether a scanner by byte positions is where a scanner of the text is, and has found the
same. -/
structure Mirrors (text : List Char) (r : Scanner) (s : ByteScanner) : Prop where
  text_eq : s.text = text
  stands : ∃ before, s.Stands before r.cursor.rest ∧ r.cursor.position = Text.size before
  token?_eq : s.token? = some r.token
  diagnostics_eq : s.diagnostics = r.diagnostics

variable {text : List Char} {r : Scanner}

theorem mirrors_ofText (text : List Char) : Mirrors text (.ofText text) (ofText text) where
  text_eq := rfl
  stands := ⟨[], stands_ofText text, rfl⟩
  token?_eq := by
    have hstands : (ofText text).Stands ([] ++ []) text := stands_ofText text
    rw [token?, hstands.tokenText?_eq rfl]
    rfl
  diagnostics_eq := rfl

theorem kind_of_token? {u : Token} (h : s.token? = some u) : s.kind = u.kind := by
  obtain ⟨piece, -, rfl⟩ := Option.map_eq_some_iff.mp h
  rfl

/-- Layout is passed to the start of the next token. -/
theorem Stands.exists_begins (h : s.Stands before rest)
    (hshort : Text.size s.text < 0x100000000) :
    ∃ t, skipWhile? Text.isLayout .character { s with value := none } = some t ∧
      t.text = s.text ∧ t.diagnostics = s.diagnostics ∧
      Begins (before ++ rest.takeWhile Text.isLayout) (rest.dropWhile Text.isLayout)
        { t with tokenStart := t.pos } := by
  have hstands : Stands before (rest.takeWhile Text.isLayout ++ rest.dropWhile Text.isLayout)
      { s with value := none } := by
    rw [List.takeWhile_append_dropWhile]
    exact h.of_place rfl rfl rfl
  have hgap : ∀ c ∈ rest.takeWhile Text.isLayout,
      Text.isLayout c = true ∧ Stride.character.width c = c.utf8Size :=
    fun c hc => ⟨List.mem_takeWhile_imp hc, rfl⟩
  obtain ⟨t, hskip, hbehind, hmoved⟩ :=
    hstands.exists_skipWhile? hgap (Text.endsRun_dropWhile _ _)
  have hshort : Text.size t.text < 0x100000000 := by
    rw [hmoved.text_eq]
    exact hshort
  exact ⟨t, hskip, hmoved.text_eq, hmoved.diagnostics_eq, hbehind.of_place rfl rfl rfl,
    hbehind.pos_eq, hmoved.value_eq, hshort⟩

section

variable [Xid]

/-- A scan has a result, and it is where the scan of the cursor is. -/
theorem Mirrors.exists_scan? (h : Mirrors text r s) (hshort : Text.size text < 0x100000000) :
    ∃ t, s.scan? = some t ∧ Mirrors text r.scan t := by
  obtain ⟨before, hstands, hposition⟩ := h.stands
  obtain ⟨t, hskip, htext, hdiagnostics, hbegins⟩ :=
    hstands.exists_begins (h.text_eq ▸ hshort)
  have hcurrent := hbegins.toStands.current?_eq
  have hlayout : r.cursor.skipLayout =
      ⟨Text.size (before ++ r.cursor.rest.takeWhile Text.isLayout),
        r.cursor.rest.dropWhile Text.isLayout⟩ := by
    rw [Cursor.skipLayout, hposition, Text.size_append]
  rw [scan?, hskip]
  simp only [Option.bind_eq_bind, Option.bind_some, hcurrent]
  generalize before ++ r.cursor.rest.takeWhile Text.isLayout = place at hbegins hlayout
  have hall : t.text = text := htext.trans h.text_eq
  cases hrest : r.cursor.rest.dropWhile Text.isLayout with
  | nil =>
    rw [hrest] at hbegins hlayout
    have hend : Stands (place ++ []) [] { t with tokenStart := t.pos, kind := .endOfFile } := by
      rw [List.append_nil]
      exact hbegins.toStands.of_place rfl rfl rfl
    rw [Scanner.scan, Cursor.next_of_nil hlayout]
    refine ⟨_, rfl, hall, ⟨place, hbegins.toStands.of_place rfl rfl rfl, rfl⟩, ?_, ?_⟩
    · rw [hend.token?_eq hbegins.tokenStart_eq hbegins.short]
      exact congrArg some (congrArg (Token.mk .endOfFile (Text.size place) "") hbegins.value_eq)
    · rw [← h.diagnostics_eq]
      exact hdiagnostics.trans (List.append_nil _).symm
  | cons d ds =>
    rw [hrest] at hbegins hlayout
    obtain ⟨u, hread, hreads⟩ := hbegins.exists_read?
    have hsame : u.text = text := by
      rw [hreads.text_eq, List.append_assoc, Lexeme.head_append, ← hbegins.text_eq]
      exact hall
    rw [Scanner.scan, Cursor.next_of_cons hlayout]
    refine ⟨u, hread, hsame, ⟨_, hreads.toStands, (Text.size_append _ _).symm⟩,
      hreads.token?_eq (hsame ▸ hshort), ?_⟩
    rw [hreads.diagnostics_eq, ← h.diagnostics_eq]
    exact congrArg (· ++ _) hdiagnostics

def after? (text : List Char) : Nat → Option ByteScanner
  | 0 => some (.ofText text)
  | n + 1 => (after? text n).bind scan?

theorem exists_after? (hshort : Text.size text < 0x100000000) (n : Nat) :
    ∃ s, after? text n = some s ∧ Mirrors text (Scanner.after text n) s := by
  induction n with
  | zero => exact ⟨_, rfl, mirrors_ofText text⟩
  | succ n ih =>
    obtain ⟨s, hs, hmirrors⟩ := ih
    obtain ⟨t, ht, hnext⟩ := hmirrors.exists_scan? hshort
    refine ⟨t, ?_, hnext⟩
    rw [after?, hs, Option.bind_some, ht]

/-- What holds of tokens if a scanner by byte positions tiles a text with them. Every reading has
a result, and the readings give the tokens and then the end token, again and again. -/
structure Tiles (text : List Char) (tokens : List Token) : Prop where
  token?_eq : ∀ n, (after? text (n + 1)).bind token? = some (tokens.getD n (Source.endToken text))
  ends_iff : ∀ n, (after? text (n + 1)).map kind = some .endOfFile ↔ tokens.length ≤ n
  visits : ∀ n, ∃ s, after? text n = some s ∧ s.pos ∈ s.visited ∧
    ∀ pos ∈ s.visited, Text.IsBoundary text pos
  tiled_iff : ∀ ts, Token.Tiled 0 text ts ↔ ts = tokens
  prescribed : ∀ t ∈ tokens, ∃ before behind, text = before ++ t.text.toList ++ behind ∧
    t.start = Text.size before ∧ Prescribed behind t.kind t.text.toList t.value
  nonempty : ∀ t ∈ tokens, t.start < t.stop
  ordered : tokens.Pairwise (·.stop ≤ ·.start)
  solid : Xid.ApartFromLayout → ∀ t ∈ tokens, ∀ c ∈ t.text.toList, Text.isLayout c = false
  diagnostics_eq : ∀ n, (after? text n).map diagnostics =
    some (((tokens.take n).filter Token.isFaulty).map Token.complaint)

theorem ends_iff_scanInner (hshort : Text.size text < 0x100000000) (n : Nat) :
    (after? text (n + 1)).map kind = some .endOfFile ↔ (Token.scanInner text).length ≤ n := by
  obtain ⟨s, hs, hmirrors⟩ := exists_after? hshort (n + 1)
  rw [hs, Option.map_some, kind_of_token? hmirrors.token?_eq, Scanner.token_after,
    List.getD_eq_getElem?_getD, Option.some.injEq]
  by_cases hn : n < (Token.scanInner text).length
  · have hkind := ((Token.scan_eq text).2 _ (List.getElem_mem hn)).kind_ne
    rw [List.getElem?_eq_getElem hn, Option.getD_some]
    exact iff_of_false hkind (Nat.not_le.mpr hn)
  · rw [List.getElem?_eq_none (Nat.not_lt.mp hn), Option.getD_none]
    exact iff_of_true rfl (Nat.not_lt.mp hn)

/-- A scanner tiles a text of less than 2 ^ 32 bytes with the tokens that the grammar prescribes. -/
theorem tiles_scanInner (h : Text.size text < 0x100000000) :
    Tiles text (Token.scanInner text) where
  token?_eq n := by
    obtain ⟨s, hs, hmirrors⟩ := exists_after? h (n + 1)
    rw [hs, Option.bind_some, hmirrors.token?_eq, Scanner.token_after]
  ends_iff := ends_iff_scanInner h
  visits n := by
    obtain ⟨s, hs, hmirrors⟩ := exists_after? h n
    obtain ⟨before, hstands, -⟩ := hmirrors.stands
    refine ⟨s, hs, hstands.pos_mem, ?_⟩
    rw [← hmirrors.text_eq]
    exact hstands.visited
  tiled_iff ts := Token.tiled_iff
  prescribed t ht := Token.exists_prescribed ht
  nonempty t ht := Token.start_lt_stop ((Token.scan_eq text).2 t ht).text_ne
  ordered := by
    have hordered := Token.scan_apart text
    rw [(Token.scan_eq text).1, List.pairwise_append] at hordered
    exact hordered.1
  solid _ t ht := by
    obtain ⟨rest, hprescribed⟩ := Token.prescribed_of_mem ht
    exact hprescribed.not_isLayout
  diagnostics_eq n := by
    obtain ⟨s, hs, hmirrors⟩ := exists_after? h n
    rw [hs, Option.map_some, hmirrors.diagnostics_eq, Scanner.diagnostics_after,
      Token.faults_eq fun t ht => Token.prescribed_of_mem (List.mem_of_mem_take ht)]

end

open scoped Xid in
/-- Characters of one, two and three bytes: the double sign is passed in one step, the layout and
the stray character by their widths. -/
theorem tiles_scanInner_of_wide_characters :
    Text.size ['λ', '\u3000', '=', '=', '7', '€'] < 0x100000000 ∧
    (after? ['λ', '\u3000', '=', '=', '7', '€'] 5).map kind = some .endOfFile ∧
    (after? ['λ', '\u3000', '=', '=', '7', '€'] 5).map visited = some [0, 2, 5, 7, 8, 11] ∧
    (after? ['λ', '\u3000', '=', '=', '7', '€'] 5).map diagnostics =
      some [⟨⟨8, 3⟩, .badCharacter "€"⟩] ∧
    (after? ['λ', '\u3000', '=', '=', '7', '€'] 2).bind token? =
      some ⟨.equalsEquals, 5, "==", none⟩ := by
  have hshort : Text.size ['λ', '\u3000', '=', '=', '7', '€'] < 0x100000000 := by decide
  have htiles := tiles_scanInner hshort
  refine ⟨hshort, (htiles.ends_iff 4).mpr (by decide +kernel), by decide +kernel, ?_, ?_⟩
  · exact (htiles.diagnostics_eq 5).trans (by decide +kernel)
  · exact (htiles.token?_eq 1).trans (by decide +kernel)

end ByteScanner

end Lumen
