import Lumen.Text.Blank

/-!
# Characters of identifiers

An identifier starts with an underscore, an ASCII letter or a letter of another script, and goes
on with these, with digits and with combining marks. Beyond ASCII the Unicode properties `XID_Start`
and `XID_Continue` decide. What is said of programs holds for any such properties, as long as the
second covers the first; where the layout between tokens matters, also as long as no layout
continues an identifier.
-/

namespace Lumen

/-- The Unicode properties of the characters of identifiers. -/
class Xid where
  isStart : Char → Bool
  isContinue : Char → Bool
  isContinue_of_isStart : ∀ {c : Char}, isStart c = true → isContinue c = true

class Xid.ApartFromLayout [Xid] : Prop where
  not_isContinue_of_isLayout : ∀ {c : Char}, Text.isLayout c = true → Xid.isContinue c = false

namespace Text

variable [Xid] {c : Char}

def isIdentifierStart (c : Char) : Bool :=
  c = '_' || c.isAlpha || (c.toNat > 0x7F && Xid.isStart c)

def isIdentifierPart (c : Char) : Bool :=
  c = '_' || c.isAlphanum || (c.toNat > 0x7F && Xid.isContinue c)

theorem isIdentifierPart_of_start (h : isIdentifierStart c = true) :
    isIdentifierPart c = true := by
  simp only [isIdentifierStart, isIdentifierPart, Char.isAlphanum, Bool.or_eq_true,
    Bool.and_eq_true] at h ⊢
  obtain (hscore | hletter) | ⟨hbeyond, hstart⟩ := h
  · exact Or.inl (Or.inl hscore)
  · exact Or.inl (Or.inr (Or.inl hletter))
  · exact Or.inr ⟨hbeyond, Xid.isContinue_of_isStart hstart⟩

theorem not_isIdentifierPart_of_isLayout [Xid.ApartFromLayout] (h : isLayout c = true) :
    isIdentifierPart c = false := by
  have hascii : (!(decide (c = '_') || c.isAlphanum)) = true :=
    forall_isLayout (p := fun c => !(decide (c = '_') || c.isAlphanum)) (by decide) (by decide) h
  have hcontinue : Xid.isContinue c = false := Xid.ApartFromLayout.not_isContinue_of_isLayout h
  simp only [Bool.not_eq_true'] at hascii
  rw [isIdentifierPart, hascii, hcontinue, Bool.and_false, Bool.or_false]

end Text

end Lumen
