import Lumen.CommandLine
import Lumen.Proofs.Text.LineTable

/-!
# Decoding line by line

The bytes of a text may be cut into lines before they are decoded: no byte of another character has
the value of a line feed. So the lines of an input that is a text are the lines of the text.
-/

namespace Lumen

namespace Text

/-- The lines of a text, each with the line feed that ends it. -/
def lines : List Char → List (List Char)
  | [] => []
  | c :: cs =>
    if c = '\n' then [c] :: lines cs
    else
      match lines cs with
      | [] => [[c]]
      | l :: ls => (c :: l) :: ls

theorem ne_feed_of_mem_utf8EncodeChar {c : Char} (hc : c ≠ '\n') :
    ∀ b ∈ String.utf8EncodeChar c, b ≠ 10 := by
  rintro b hb rfl
  exact hc (eq_of_mem_utf8EncodeChar (a := '\n') (by decide) hb)

end Text

namespace CommandLine

open Text

theorem decode?_eq_some_iff {bs : List UInt8} {text : List Char} :
    decode? bs = some text ↔ bs = bytes text := by
  have hbytes : ByteArray.mk bs.toArray = bs.toByteArray := ByteArray.ext List.data_toByteArray.symm
  rw [decode?, hbytes, Option.map_eq_some_iff]
  constructor
  · rintro ⟨s, hs, rfl⟩
    have hcode : s.toByteArray = bs.toByteArray := by
      unfold String.fromUTF8? at hs
      split at hs
      · cases hs
        rfl
      · cases hs
    rw [← String.utf8Encode_toList] at hcode
    exact (List.toByteArray_inj.mp hcode).symm
  · rintro rfl
    have hcode : (String.ofList text).toByteArray = (bytes text).toByteArray :=
      String.toByteArray_ofList
    refine ⟨String.ofList text, ?_, String.toList_ofList⟩
    rw [← hcode, String.fromUTF8?, dif_pos (String.ofList text).isValidUTF8]
    rfl

theorem splitLines_append {bs rest : List UInt8} (hne : bs ≠ []) (h : ∀ b ∈ bs, b ≠ 10) :
    splitLines (bs ++ rest) = match splitLines rest with
      | [] => [bs]
      | l :: ls => (bs ++ l) :: ls := by
  induction bs with
  | nil => exact absurd rfl hne
  | cons b bs ih =>
    obtain ⟨hb, hbs⟩ := List.forall_mem_cons.mp h
    rw [List.cons_append, splitLines, if_neg hb]
    cases bs with
    | nil => rfl
    | cons b' bs =>
      rw [ih (List.cons_ne_nil _ _) hbs]
      cases splitLines rest <;> rfl

theorem splitLines_bytes (text : List Char) :
    splitLines (bytes text) = (lines text).map bytes := by
  induction text with
  | nil => rfl
  | cons c cs ih =>
    rw [bytes_cons, lines]
    split
    next hc =>
      subst hc
      rw [List.map_cons, ← ih]
      rfl
    next hc =>
      have hplain := ne_feed_of_mem_utf8EncodeChar hc
      rw [splitLines_append String.utf8EncodeChar_ne_nil hplain, ih]
      cases lines cs with
      | nil => simp
      | cons l ls => simp

theorem map_decode?_splitLines {input : List UInt8} {text : List Char}
    (h : decode? input = some text) : (splitLines input).map decode? = (lines text).map some := by
  rw [decode?_eq_some_iff.mp h, splitLines_bytes, List.map_map]
  exact List.map_congr_left fun l _ => decode?_eq_some_iff.mpr rfl

end CommandLine

end Lumen
