import Lumen.Proofs.Token.Scan
import Mathlib.Data.List.TakeWhile

/-!
# Spelling tokens

A token is genuine if its own text is scanned to it. A text that consists of the texts of genuine
tokens, with layout between them, is scanned to these tokens again: a layout character continues no
numeral, no word and no sign, so the first piece of the text behind a gap is the text of the next
token and nothing more. Only the positions of the tokens depend on the layout.
-/

namespace Lumen

namespace Text

/-- Whether a text is empty or starts with layout. -/
def StartsBlank (text : List Char) : Prop := ∀ c ∈ text.head?, isLayout c = true

/-- Whether a text is empty or goes on with a character that is not of a class. -/
def EndsRun (p : Char → Bool) (rest : List Char) : Prop := ∀ c ∈ rest.head?, p c = false

theorem run_append {p : Char → Bool} {word rest : List Char} (hword : ∀ c ∈ word, p c = true)
    (hrest : EndsRun p rest) :
    (word ++ rest).takeWhile p = word ∧ (word ++ rest).dropWhile p = rest := by
  rw [List.takeWhile_append_of_pos hword, List.dropWhile_append_of_pos hword]
  cases rest with
  | nil => simp
  | cons c cs =>
    have hc : p c = false := hrest c rfl
    simp [hc]

theorem run_append_of_startsBlank {p : Char → Bool}
    (hp : ∀ c, isLayout c = true → p c = false) {word rest : List Char}
    (hword : word.dropWhile p = []) (hrest : StartsBlank rest) :
    (word ++ rest).takeWhile p = word.takeWhile p ∧ (word ++ rest).dropWhile p = rest := by
  have hall : ∀ c ∈ word, p c = true := List.dropWhile_eq_nil_iff.mp hword
  rw [List.takeWhile_eq_self_iff.mpr hall]
  exact run_append hall fun c hc => hp c (hrest c hc)

end Text

namespace Lexeme

theorem doubleSign?_of_isLayout (c : Char) {d : Char} (h : Text.isLayout d = true) :
    doubleSign? c d = none := by
  have hnot : (d != '=' && d != '&' && d != '|') = true :=
    Text.forall_isLayout (p := fun d => d != '=' && d != '&' && d != '|') (by decide) (by decide) h
  unfold doubleSign?
  split <;> simp_all

theorem sign_append_of_startsBlank {c : Char} {word rest : List Char}
    (h : (sign c word).rest = []) (hrest : Text.StartsBlank rest) :
    sign c (word ++ rest) = { sign c word with rest := rest } := by
  cases word with
  | nil =>
    cases rest with
    | nil => rfl
    | cons d ds =>
      have hd : doubleSign? c d = none := doubleSign?_of_isLayout c (hrest d rfl)
      simp only [List.nil_append, sign, hd]
      rfl
  | cons d ds =>
    simp only [List.cons_append, sign] at h ⊢
    cases hd : doubleSign? c d with
    | none =>
      rw [hd] at h
      cases h
    | some kind =>
      rw [hd] at h
      cases h
      rfl

/-- A piece of a text that leaves nothing is the first piece of every text that goes on with
layout. -/
theorem head_append_of_startsBlank [Xid] [Xid.ApartFromLayout] {c : Char} {word rest : List Char}
    (h : (head c word).rest = []) (hrest : Text.StartsBlank rest) :
    head c (word ++ rest) = { head c word with rest := rest } := by
  unfold head at h ⊢
  by_cases hdigit : c.isDigit
  · simp only [hdigit, if_true] at h ⊢
    obtain ⟨htake, hdrop⟩ := Text.run_append_of_startsBlank
      (fun _ => Text.not_isDigit_of_isLayout) h hrest
    rw [htake, hdrop]
  · by_cases hletter : Text.isIdentifierStart c
    · simp only [hdigit, hletter, if_true, Bool.false_eq_true, if_false] at h ⊢
      obtain ⟨htake, hdrop⟩ := Text.run_append_of_startsBlank
        (fun _ => Text.not_isIdentifierPart_of_isLayout) h hrest
      rw [htake, hdrop]
    · simp only [hdigit, hletter, Bool.false_eq_true, if_false] at h ⊢
      exact sign_append_of_startsBlank h hrest

end Lexeme

namespace Token

def unplaced (t : Token) : Token := { t with start := 0 }

@[simp] theorem text_unplaced (t : Token) : t.unplaced.text = t.text := rfl

theorem fault?_unplaced_eq_none {t : Token} : t.unplaced.fault? = none ↔ t.fault? = none := by
  obtain ⟨kind, start, text, value⟩ := t
  cases kind <;> cases value <;> simp [fault?, unplaced]

/-- Whether a text consists of the texts of tokens, with layout between them; layout may stand
before them and behind them, too. -/
inductive Spaced : List Token → List Char → Prop
  | nil {gap : List Char} : (∀ c ∈ gap, Text.isLayout c = true) → Spaced [] gap
  | cons {gap rest : List Char} {t : Token} {ts : List Token} :
    (∀ c ∈ gap, Text.isLayout c = true) → Text.StartsBlank rest → Spaced ts rest →
      Spaced (t :: ts) (gap ++ t.text.toList ++ rest)

def spell (ts : List Token) : List Char := ts.flatMap fun t => ' ' :: t.text.toList

theorem spaced_spell (ts : List Token) : Spaced ts (spell ts) := by
  induction ts with
  | nil => exact .nil (List.forall_mem_nil _)
  | cons t ts ih =>
    have hblank : Text.StartsBlank (spell ts) := by
      cases ts with
      | nil => exact nofun
      | cons u us =>
        rintro c ⟨⟩
        decide
    exact @Spaced.cons [' '] _ t ts (List.forall_mem_singleton.mpr rfl) hblank ih

/-- The end token has no text, so layout is all that stands before it. -/
theorem Spaced.of_concat {ts : List Token} {last : Token} {text : List Char}
    (h : Spaced (ts ++ [last]) text) (hlast : last.text = "") : Spaced ts text := by
  induction ts generalizing text with
  | nil =>
    cases h with
    | @cons gap rest _ _ hgap _ hrest =>
      cases hrest with
      | nil hbehind =>
        rw [hlast]
        refine .nil ?_
        simpa using List.forall_mem_append.mpr ⟨hgap, hbehind⟩
  | cons t ts ih =>
    cases h with
    | cons hgap hblank hrest => exact .cons hgap hblank (ih hrest)

variable [Xid]

/-- Whether a token is what its own text is scanned to, without complaint. -/
def Genuine (t : Token) : Prop :=
  (scan t.text.toList).head? = some t.unplaced ∧ t.fault? = none

instance (t : Token) : Decidable t.Genuine :=
  inferInstanceAs (Decidable ((scan t.text.toList).head? = some t.unplaced ∧ t.fault? = none))

theorem Genuine.exists_head {t : Token} (h : t.Genuine) (ht : t.kind ≠ .endOfFile) :
    ∃ c cs, t.text.toList = c :: cs ∧ Text.isLayout c = false ∧ (Lexeme.head c cs).rest = [] ∧
      (Lexeme.head c cs).toToken 0 = t.unplaced := by
  obtain ⟨hscan, -⟩ := h
  rw [scan] at hscan
  cases hread : (Cursor.ofText t.text.toList).skipLayout.rest with
  | nil =>
    rw [Cursor.tokens_of_nil hread] at hscan
    have hkind := congrArg kind (Option.some.inj hscan)
    exact absurd hkind.symm ht
  | cons c cs =>
    rw [Cursor.tokens_of_cons hread] at hscan
    have htoken := Option.some.inj hscan
    have htext : (Lexeme.head c cs).text = t.text.toList := by
      have h := congrArg (String.toList ∘ text) htoken
      simpa [Lexeme.toToken] using h
    -- the piece is all of the text, so neither layout before it nor anything behind it is left
    have hread : t.text.toList.dropWhile Text.isLayout = c :: cs := hread
    have hsplit := List.takeWhile_append_dropWhile (p := Text.isLayout) (l := t.text.toList)
    have hlength := congrArg List.length hsplit
    rw [hread, ← Lexeme.head_append c cs, htext, List.length_append, List.length_append] at hlength
    have hgap : t.text.toList.takeWhile Text.isLayout = [] := List.length_eq_zero_iff.mp (by omega)
    have hrest : (Lexeme.head c cs).rest = [] := List.length_eq_zero_iff.mp (by omega)
    have hall : t.text.toList = c :: cs := by rw [← hsplit, hgap, hread, List.nil_append]
    have hfirst := List.dropWhile_eq_self_iff.mp (hread.trans hall.symm)
    refine ⟨c, cs, hall, ?_, hrest, ?_⟩
    · simpa [hall] using hfirst
    · exact congrArg unplaced htoken

/-- A genuine token of the kind of the end token is the end token of some text. -/
theorem Genuine.eq_endToken {t : Token} (h : t.Genuine) (ht : t.kind = .endOfFile) :
    t.unplaced = Cursor.endToken 0 := by
  obtain ⟨hscan, -⟩ := h
  rw [scan] at hscan
  cases hread : (Cursor.ofText t.text.toList).skipLayout.rest with
  | nil =>
    rw [Cursor.tokens_of_nil hread] at hscan
    have htoken := congrArg unplaced (Option.some.inj hscan)
    exact htoken.symm
  | cons c cs =>
    rw [Cursor.tokens_of_cons hread] at hscan
    have hkind := congrArg kind (Option.some.inj hscan)
    exact absurd (hkind.trans ht) (Lexeme.head_kind_ne_endOfFile c cs)

/-- A text that spells genuine tokens is scanned to them, whatever the layout. -/
theorem tokens_of_spaced [Xid.ApartFromLayout] {ts : List Token} {text : List Char} (h : Spaced ts text)
    (hts : ∀ t ∈ ts, t.Genuine ∧ t.kind ≠ .endOfFile) (pos : Nat) :
    (Cursor.mk pos text).tokens.map unplaced = ts.map unplaced ++ [Cursor.endToken 0] := by
  induction h generalizing pos with
  | @nil gap hgap =>
    have hread : (Cursor.mk pos gap).skipLayout.rest = [] := List.dropWhile_eq_nil_iff.mpr hgap
    rw [Cursor.tokens_of_nil hread]
    rfl
  | @cons gap rest t ts hgap hblank _ ih =>
    obtain ⟨⟨hgenuine, hkind⟩, hothers⟩ := List.forall_mem_cons.mp hts
    obtain ⟨c, cs, htext, hc, hwhole, htoken⟩ := hgenuine.exists_head hkind
    have hread : (Cursor.mk pos (gap ++ t.text.toList ++ rest)).skipLayout.rest =
        c :: (cs ++ rest) := by
      simp [Cursor.skipLayout, htext, List.dropWhile_append_of_pos hgap, hc]
    have hrest := ih hothers
    rw [Cursor.tokens_of_cons hread, Lexeme.head_append_of_startsBlank hwhole hblank, List.map_cons,
      List.map_cons, List.cons_append, Cursor.behind, hrest, ← htoken]
    rfl

end Token

end Lumen
