import Lumen.Proofs.Token.Grammar
import Lumen.Scanner

/-!
# Tilings

A text is tiled by tokens if each of them is the one that the grammar prescribes at its place and
nothing but layout stands outside of them. A text has exactly one tiling, and reading it token by
token finds that tiling; then the end token is read, again and again. Every place that is visited on
the way is between two characters.
-/

namespace Lumen

namespace Prescribed

variable {rest text : List Char} {kind : TokenKind} {value : Option Value}

theorem not_isLayout_of_sign (h : kind.punctuationText? = some (String.ofList text)) :
    ∀ c ∈ text, Text.isLayout c = false := by
  intro c hc
  refine Bool.eq_false_iff.mpr fun hlayout => ?_
  obtain ⟨a, htext, -⟩ | ⟨a, b, htext, hsign⟩ := Lexeme.sign_of_punctuationText? h
  · cases String.ofList_injective htext
    cases List.mem_singleton.mp hc
    exact Bool.eq_false_iff.mp (Lexeme.not_isLayout_of_punctuationText? h) hlayout
  · cases String.ofList_injective htext
    rcases List.mem_cons.mp hc with rfl | hc
    · exact Bool.eq_false_iff.mp (Lexeme.not_isLayout_of_punctuationText? h) hlayout
    · cases List.mem_singleton.mp hc
      cases (Lexeme.doubleSign?_of_isLayout a hlayout).symm.trans hsign

variable [Xid]

theorem isIdentifierPart_of_mem_word {c d : Char} {cs : List Char}
    (hc : Text.isIdentifierStart c = true) (hcs : ∀ d ∈ cs, Text.isIdentifierPart d = true)
    (hd : d ∈ c :: cs) : Text.isIdentifierPart d = true := by
  rcases List.mem_cons.mp hd with rfl | hd
  · exact Text.isIdentifierPart_of_start hc
  · exact hcs d hd

/-- Layout that continues no identifier is not inside a token. -/
theorem not_mem_of_isLayout {c : Char} (h : Prescribed rest kind text value)
    (hlayout : Text.isLayout c = true) (hpart : Text.isIdentifierPart c = false) : c ∉ text := by
  intro hmem
  cases h with
  | number _ hdigits =>
    exact Bool.eq_false_iff.mp (Text.not_isDigit_of_isLayout hlayout) (hdigits c hmem)
  | keyword _ hstart hparts =>
    exact Bool.eq_false_iff.mp hpart (isIdentifierPart_of_mem_word hstart hparts hmem)
  | name _ hstart hparts =>
    exact Bool.eq_false_iff.mp hpart (isIdentifierPart_of_mem_word hstart hparts hmem)
  | sign hkind => exact Bool.eq_false_iff.mp (not_isLayout_of_sign hkind c hmem) hlayout
  | stray hstray =>
    cases List.mem_singleton.mp hmem
    exact Bool.eq_false_iff.mp hstray hlayout

theorem not_isLayout [Xid.ApartFromLayout] (h : Prescribed rest kind text value) :
    ∀ c ∈ text, Text.isLayout c = false := by
  intro c hc
  refine Bool.eq_false_iff.mpr fun hlayout => ?_
  exact h.not_mem_of_isLayout hlayout (Text.not_isIdentifierPart_of_isLayout hlayout) hc

end Prescribed

namespace Token

/-- Whether a token is to be complained about: a stray character, or a numeral without a word for
its number. -/
def isFaulty (t : Token) : Bool :=
  t.kind = .unknown ||
    (t.kind = .number && decide (Int64.maxValue.toInt < Text.numeralValue t.text.toList))

def complaint (t : Token) : Diagnostic :=
  ⟨t.span, if t.kind = .unknown then .badCharacter t.text else .invalidNumber t.text "Int"⟩

theorem fault?_eq_none {t : Token} (hunknown : t.kind ≠ .unknown) (hnumber : t.kind ≠ .number) :
    t.fault? = none := by
  rw [fault?]
  split
  · next hkind => exact absurd hkind hunknown
  · next hkind _ => exact absurd hkind hnumber
  · rfl

theorem fault?_of_kind {t : Token} (hunknown : t.kind ≠ .unknown) (hnumber : t.kind ≠ .number) :
    t.fault? = if t.isFaulty then some t.complaint else none := by
  have hfaulty : t.isFaulty = false := by simp [isFaulty, hunknown, hnumber]
  rw [fault?_eq_none hunknown hnumber, hfaulty]
  rfl

theorem fault?_of_number {t : Token} (hkind : t.kind = .number)
    (hvalue : Text.WritesNumber t.text.toList t.value) :
    t.fault? = if t.isFaulty then some t.complaint else none := by
  have hunknown : t.kind ≠ .unknown := by simp [hkind]
  have hfaulty : t.isFaulty = decide (Int64.maxValue.toInt < Text.numeralValue t.text.toList) := by
    simp [isFaulty, hkind]
  rw [hfaulty, fault?, complaint, if_neg hunknown, hkind]
  cases hv : t.value with
  | none =>
    rw [hv] at hvalue
    have hgreat : Int64.maxValue.toInt < Text.numeralValue t.text.toList := hvalue
    rw [if_pos (decide_eq_true hgreat)]
    rfl
  | some v =>
    rw [hv] at hvalue
    cases v with
    | bool b => exact hvalue.elim
    | int n =>
      have hle : ¬ Int64.maxValue.toInt < Text.numeralValue t.text.toList := by
        rw [← hvalue]
        exact Int.not_lt.mpr n.toInt_le
      rw [if_neg (by simpa using hle)]

variable [Xid]

/-- Whether a text from a position on consists of tokens that the grammar prescribes and of layout
between them. -/
inductive Tiled : Nat → List Char → List Token → Prop
  | nil {pos : Nat} {gap : List Char} : (∀ c ∈ gap, Text.isLayout c = true) → Tiled pos gap []
  | cons {pos : Nat} {gap rest : List Char} {t : Token} {ts : List Token} :
    (∀ c ∈ gap, Text.isLayout c = true) → t.start = pos + Text.size gap →
      Prescribed rest t.kind t.text.toList t.value → Tiled t.stop rest ts →
      Tiled pos (gap ++ t.text.toList ++ rest) (t :: ts)

/-- The tokens that tile a text are those that are read from it. -/
theorem Tiled.tokens_eq {pos : Nat} {text : List Char} {ts : List Token} (h : Tiled pos text ts) :
    (Cursor.mk pos text).tokens = ts ++ [Cursor.endToken (pos + Text.size text)] := by
  induction h with
  | @nil pos gap hgap =>
    have hread : (Cursor.mk pos gap).skipLayout.rest = [] := List.dropWhile_eq_nil_iff.mpr hgap
    rw [Cursor.tokens_of_nil hread, Cursor.skipLayout, List.takeWhile_eq_self_iff.mpr hgap]
    rfl
  | @cons pos gap rest t ts hgap hstart hprescribed _ ih =>
    obtain ⟨c, cs, htext, hc, hhead, hvalue⟩ := Lexeme.head_of_prescribed hprescribed
    have hread : (Cursor.mk pos (gap ++ t.text.toList ++ rest)).skipLayout =
        ⟨t.start, c :: (cs ++ rest)⟩ := by
      simp [Cursor.skipLayout, htext, List.dropWhile_append_of_pos hgap,
        List.takeWhile_append_of_pos hgap, hc, hstart]
    have htoken : (Lexeme.mk t.kind t.text.toList rest).toToken t.start = t := by
      rw [Lexeme.toToken, String.ofList_toList, ← hvalue]
    have hbehind : Cursor.behind t.start ⟨t.kind, t.text.toList, rest⟩ = ⟨t.stop, rest⟩ := rfl
    have hstop : t.stop + Text.size rest = pos + Text.size (gap ++ t.text.toList ++ rest) := by
      rw [stop, hstart, Text.size_append, Text.size_append]
      omega
    rw [Cursor.tokens_of_cons (congrArg Cursor.rest hread), hread, hhead, htoken, hbehind, ih,
      List.cons_append, hstop]

theorem exists_tiled (c : Cursor) : ∃ ts, Tiled c.position c.rest ts := by
  induction c using Cursor.tokens.induct with
  | case1 c s hread => exact ⟨[], .nil (List.dropWhile_eq_nil_iff.mp hread)⟩
  | case2 c s d ds hread l ih =>
    obtain ⟨ts, hts⟩ := ih
    have hd : Text.isLayout d = false := by
      refine Text.endsRun_dropWhile Text.isLayout c.rest d ?_
      rw [show c.rest.dropWhile Text.isLayout = d :: ds from hread]
      rfl
    have htext : (l.toToken s.position).text.toList = l.text := String.toList_ofList
    have hsplit : c.rest =
        c.rest.takeWhile Text.isLayout ++ (l.toToken s.position).text.toList ++ l.rest := by
      rw [htext, List.append_assoc, Lexeme.head_append, ← hread]
      exact List.takeWhile_append_dropWhile.symm
    have hstop : (l.toToken s.position).stop = (Cursor.behind s.position l).position := by
      rw [stop, htext]
      rfl
    refine ⟨l.toToken s.position :: ts, ?_⟩
    rw [hsplit]
    refine .cons (fun e he => List.mem_takeWhile_imp he) rfl ?_ (hstop ▸ hts)
    rw [htext]
    exact Lexeme.prescribed_head hd

/-- A text has one tiling, which is read from it. -/
theorem tiled_iff {text : List Char} {ts : List Token} :
    Tiled 0 text ts ↔ ts = scanInner text := by
  have heq : ∀ ts, Tiled 0 text ts → ts = scanInner text := by
    intro ts hts
    rw [scanInner, scan, Cursor.ofText, hts.tokens_eq, List.dropLast_concat]
  refine ⟨heq ts, ?_⟩
  rintro rfl
  obtain ⟨ts, hts⟩ := exists_tiled (.ofText text)
  exact heq ts hts ▸ hts

/-- A token of a tiling stands between two pieces of the text, and the grammar prescribes it in
front of the second one. -/
theorem Tiled.exists_split {pos : Nat} {text : List Char} {ts : List Token}
    (h : Tiled pos text ts) : ∀ t ∈ ts, ∃ before behind,
      text = before ++ t.text.toList ++ behind ∧ t.start = pos + Text.size before ∧
        Prescribed behind t.kind t.text.toList t.value := by
  induction h with
  | nil => exact List.forall_mem_nil _
  | @cons pos gap rest t ts _ hstart hprescribed _ ih =>
    refine List.forall_mem_cons.mpr ⟨⟨gap, rest, rfl, hstart, hprescribed⟩, fun u hu => ?_⟩
    obtain ⟨before, behind, rfl, hu, hbehind⟩ := ih u hu
    refine ⟨gap ++ t.text.toList ++ before, behind, ?_, ?_, hbehind⟩
    · simp only [List.append_assoc]
    · rw [hu, stop, hstart, Text.size_append, Text.size_append]
      omega

/-- A token of a text is the one that the grammar prescribes where it stands. -/
theorem exists_prescribed {text : List Char} {t : Token} (h : t ∈ scanInner text) :
    ∃ before behind, text = before ++ t.text.toList ++ behind ∧ t.start = Text.size before ∧
      Prescribed behind t.kind t.text.toList t.value := by
  obtain ⟨before, behind, hsplit, hstart, hprescribed⟩ := (tiled_iff.mpr rfl).exists_split t h
  exact ⟨before, behind, hsplit, hstart.trans (Nat.zero_add _), hprescribed⟩

theorem prescribed_of_mem {text : List Char} {t : Token} (h : t ∈ scanInner text) :
    ∃ rest, Prescribed rest t.kind t.text.toList t.value := by
  obtain ⟨-, behind, -, -, hprescribed⟩ := exists_prescribed h
  exact ⟨behind, hprescribed⟩

theorem fault?_of_prescribed {t : Token} {rest : List Char}
    (h : Prescribed rest t.kind t.text.toList t.value) :
    t.fault? = if t.isFaulty then some t.complaint else none := by
  generalize hkind : t.kind = kind at h
  generalize htext : t.text.toList = text at h
  generalize hvalue : t.value = value at h
  cases h with
  | number _ _ _ hwrites => exact fault?_of_number hkind (htext ▸ hvalue ▸ hwrites)
  | keyword _ _ _ _ hspelled =>
    refine fault?_of_kind ?_ ?_ <;> (rw [hkind]; rintro rfl; cases hspelled)
  | name => exact fault?_of_kind (by simp [hkind]) (by simp [hkind])
  | sign hspelled =>
    refine fault?_of_kind ?_ ?_ <;> (rw [hkind]; rintro rfl; cases hspelled)
  | stray =>
    have hfaulty : t.isFaulty = true := by simp [isFaulty, hkind]
    rw [if_pos hfaulty, fault?, complaint, hkind]
    rfl

theorem faults_eq {ts : List Token}
    (h : ∀ t ∈ ts, ∃ rest, Prescribed rest t.kind t.text.toList t.value) :
    faults ts = (ts.filter isFaulty).map complaint := by
  induction ts with
  | nil => rfl
  | cons t ts ih =>
    obtain ⟨⟨rest, ht⟩, hts⟩ := List.forall_mem_cons.mp h
    have ih := ih hts
    rw [faults] at ih
    rw [faults, List.filterMap_cons, fault?_of_prescribed ht, List.filter_cons]
    split
    · next hfaulty =>
      split at hfaulty
      · cases hfaulty
      · next hnot => rw [if_neg hnot, ih]
    · next hfaulty =>
      split at hfaulty
      · next hyes =>
        cases hfaulty
        rw [if_pos hyes, ih, List.map_cons]
      · cases hfaulty

end Token

namespace Cursor

variable [Xid] {c : Cursor} {t : Token} {ts : List Token} {pos : Nat} {d : Char} {ds : List Char}

theorem next_of_nil (h : c.skipLayout = ⟨pos, []⟩) : c.next = (endToken pos, ⟨pos, []⟩) := by
  rw [next, h]

theorem next_of_cons (h : c.skipLayout = ⟨pos, d :: ds⟩) :
    c.next = ((Lexeme.head d ds).toToken pos, behind pos (Lexeme.head d ds)) := by
  rw [next, h]

theorem next_of_tokens (h : c.tokens = t :: ts) :
    c.next.1 = t ∧ c.next.2.tokens = if ts = [] then [t] else ts := by
  cases hread : c.skipLayout.rest with
  | nil =>
    have hend : c.skipLayout = ⟨c.skipLayout.position, []⟩ := by rw [← hread]
    rw [tokens_of_nil hread] at h
    cases h
    rw [next_of_nil hend, if_pos rfl]
    exact ⟨rfl, tokens_of_nil rfl⟩
  | cons d ds =>
    have hword : c.skipLayout = ⟨c.skipLayout.position, d :: ds⟩ := by rw [← hread]
    rw [tokens_of_cons hread] at h
    obtain ⟨rfl, rfl⟩ := List.cons.inj h
    rw [next_of_cons hword]
    refine ⟨rfl, (if_neg ?_).symm⟩
    obtain ⟨inner, hinner, -⟩ := exists_tokens_eq (behind c.skipLayout.position (Lexeme.head d ds))
    rw [hinner]
    exact List.append_ne_nil_of_right_ne_nil _ (List.cons_ne_nil _ _)

end Cursor

namespace Scanner

variable [Xid]

def after (text : List Char) : Nat → Scanner
  | 0 => .ofText text
  | n + 1 => (after text n).scan

variable (text : List Char) (n : Nat)

theorem tokens_after : (after text n).cursor.tokens =
    (Token.scanInner text).drop n ++ [Source.endToken text] := by
  induction n with
  | zero => exact (Token.scan_eq text).1
  | succ n ih =>
    have htail : (Token.scanInner text).drop (n + 1) = ((Token.scanInner text).drop n).tail :=
      List.tail_drop.symm
    rw [after, scan, htail]
    dsimp only
    cases hrest : (Token.scanInner text).drop n with
    | nil =>
      rw [hrest] at ih
      exact (Cursor.next_of_tokens ih).2
    | cons t ts =>
      rw [hrest, List.cons_append] at ih
      have hnext := (Cursor.next_of_tokens ih).2
      rwa [if_neg (List.append_ne_nil_of_right_ne_nil _ (List.cons_ne_nil _ _))] at hnext

theorem token_after : (after text (n + 1)).token =
    (Token.scanInner text).getD n (Source.endToken text) := by
  have htokens := tokens_after text n
  have hread := List.head?_drop (l := Token.scanInner text) (i := n)
  rw [after, scan, List.getD_eq_getElem?_getD, ← hread]
  dsimp only
  cases hrest : (Token.scanInner text).drop n with
  | nil =>
    rw [hrest] at htokens
    exact (Cursor.next_of_tokens htokens).1
  | cons t ts =>
    rw [hrest, List.cons_append] at htokens
    exact (Cursor.next_of_tokens htokens).1

theorem diagnostics_after : (after text n).diagnostics =
    Token.faults ((Token.scanInner text).take n) := by
  induction n with
  | zero => rfl
  | succ n ih =>
    have htoken := token_after text n
    rw [after, scan] at htoken ⊢
    dsimp only at htoken ⊢
    rw [ih, htoken, List.take_add_one, Token.faults, Token.faults, List.filterMap_append,
      List.getD_eq_getElem?_getD]
    cases (Token.scanInner text)[n]? <;> rfl

end Scanner

end Lumen
