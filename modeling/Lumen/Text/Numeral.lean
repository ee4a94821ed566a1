/-!
# Numerals

A numeral is a run of ASCII digits. It stands for the number that it writes in base ten; whether
that number fits a machine word is a separate question.
-/

namespace Lumen.Text

def numeralValue (digits : List Char) : Nat := Nat.ofDigitChars 10 digits 0

/-- The word that a run of digits writes, if it is within the range of signed 64-bit words. -/
def int64? (digits : List Char) : Option Int64 :=
  let n := numeralValue digits
  if n < 0x8000000000000000 then some (Int64.ofNat n) else none

/-- The number that an unsigned numeral writes, if it is within the range of unsigned 64-bit words;
one plus sign may precede the digits. -/
def index? (cs : List Char) : Option Nat :=
  let digits := match cs with
    | '+' :: ds => ds
    | ds => ds
  let n := numeralValue digits
  if digits ≠ [] && digits.all Char.isDigit && n < 0x10000000000000000 then some n else none

end Lumen.Text
