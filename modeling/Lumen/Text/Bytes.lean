import Lumen.Text.Span

/-!
# Texts in bytes

The UTF-8 form of a text. An ASCII character is one byte of the same value, and no other character
has a byte of such a value, so a program that looks for ASCII characters may look at single bytes.
-/

namespace Lumen.Text

/-- The UTF-8 form of a text. -/
def bytes (text : List Char) : List UInt8 := text.flatMap String.utf8EncodeChar

@[simp] theorem bytes_nil : bytes [] = [] := rfl

@[simp] theorem bytes_cons (c : Char) (cs : List Char) :
    bytes (c :: cs) = String.utf8EncodeChar c ++ bytes cs := List.flatMap_cons

@[simp] theorem bytes_append (as bs : List Char) : bytes (as ++ bs) = bytes as ++ bytes bs :=
  List.flatMap_append

theorem length_bytes (text : List Char) : (bytes text).length = size text := by
  induction text with
  | nil => rfl
  | cons c cs ih => rw [bytes_cons, List.length_append, String.length_utf8EncodeChar, ih, size_cons]

/-- A character is one byte of its own value, or all its bytes are beyond ASCII. -/
theorem utf8EncodeChar_cases (c : Char) :
    (c.toNat < 128 ∧ String.utf8EncodeChar c = [c.toUInt8]) ∨
      (128 ≤ c.toNat ∧ ∀ b ∈ String.utf8EncodeChar c, 128 ≤ b.toNat) := by
  have hbeyond : ∀ n, 128 ≤ n → n < 256 → 128 ≤ (UInt8.ofNat n).toNat := by
    intro n hle hlt
    rwa [UInt8.toNat_ofNat_of_lt' hlt]
  unfold String.utf8EncodeChar
  dsimp only
  split
  · next h => exact Or.inl ⟨Nat.lt_succ_of_le h, rfl⟩
  · next h =>
    refine Or.inr ⟨Nat.lt_of_not_le h, ?_⟩
    split
    · simp only [List.forall_mem_cons]
      exact ⟨hbeyond _ (by omega) (by omega), hbeyond _ (by omega) (by omega), nofun⟩
    · split
      · simp only [List.forall_mem_cons]
        exact ⟨hbeyond _ (by omega) (by omega), hbeyond _ (by omega) (by omega),
          hbeyond _ (by omega) (by omega), nofun⟩
      · simp only [List.forall_mem_cons]
        exact ⟨hbeyond _ (by omega) (by omega), hbeyond _ (by omega) (by omega),
          hbeyond _ (by omega) (by omega), hbeyond _ (by omega) (by omega), nofun⟩

variable {a c : Char}

theorem toNat_toUInt8 (ha : a.toNat < 128) : a.toUInt8.toNat = a.toNat :=
  UInt8.toNat_ofNat_of_lt' (Nat.lt_trans ha (by decide))

/-- The byte of an ASCII character is a byte of no other character. -/
theorem eq_of_mem_utf8EncodeChar (ha : a.toNat < 128)
    (h : a.toUInt8 ∈ String.utf8EncodeChar c) : c = a := by
  obtain ⟨hc, hbytes⟩ | ⟨-, hbeyond⟩ := utf8EncodeChar_cases c
  · rw [hbytes] at h
    have hsame := congrArg UInt8.toNat (List.mem_singleton.mp h)
    rw [toNat_toUInt8 ha, toNat_toUInt8 hc] at hsame
    exact Char.toNat_inj.mp hsame.symm
  · have hle := hbeyond _ h
    rw [toNat_toUInt8 ha] at hle
    exact absurd ha (Nat.not_lt.mpr hle)

theorem head?_bytes_eq_some (ha : a.toNat < 128) {text : List Char} :
    (bytes text).head? = some a.toUInt8 ↔ text.head? = some a := by
  cases text with
  | nil => exact iff_of_false nofun nofun
  | cons c cs =>
    rw [bytes_cons, List.head?_append, List.head?_eq_some_head String.utf8EncodeChar_ne_nil,
      Option.some_or, List.head?_cons, Option.some.injEq, Option.some.injEq]
    constructor
    · intro h
      exact eq_of_mem_utf8EncodeChar ha (h ▸ List.head_mem String.utf8EncodeChar_ne_nil)
    · rintro rfl
      obtain ⟨-, hbytes⟩ | ⟨hle, -⟩ := utf8EncodeChar_cases c
      · simp only [hbytes, List.head_cons]
      · exact absurd ha (Nat.not_lt.mpr hle)

end Lumen.Text
