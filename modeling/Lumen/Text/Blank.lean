/-!
# Blank characters

Two classes of blank characters are in use. Layout is what may stand between the tokens of a
program; white space is what is trimmed from the ends of a line that is read from a terminal.
They differ in a few characters: a byte order mark is layout only, a next-line control is white
space only.
-/

namespace Lumen.Text

def isLineBreak (c : Char) : Bool :=
  c = '\n' || c = '\r' || c = '\u2028' || c = '\u2029'

/-- Characters that may stand between tokens. -/
def isLayout (c : Char) : Bool :=
  isLineBreak c || c = ' ' || c = '\t' || c = '\x0b' || c = '\x0c' || c = '\u00a0' ||
    c = '\u1680' || ('\u2000' ≤ c && c ≤ '\u200a') || c = '\u202f' || c = '\u205f' ||
    c = '\u3000' || c = '\ufeff'

/-- Characters with the Unicode property of white space. -/
def isWhiteSpace (c : Char) : Bool :=
  ('\t' ≤ c && c ≤ '\r') || c = ' ' || c = '\u0085' || c = '\u00a0' || c = '\u1680' ||
    ('\u2000' ≤ c && c ≤ '\u200a') || c = '\u2028' || c = '\u2029' || c = '\u202f' ||
    c = '\u205f' || c = '\u3000'

def trim (cs : List Char) : List Char :=
  ((cs.dropWhile isWhiteSpace).reverse.dropWhile isWhiteSpace).reverse

def trimLineEnd (cs : List Char) : List Char :=
  (cs.reverse.dropWhile fun c => c = '\r' || c = '\n').reverse

/-- The layout characters that stand alone in the table of characters. -/
def layoutSigns : List Char :=
  ['\n', '\r', '\u2028', '\u2029', ' ', '\t', '\x0b', '\x0c', '\u00a0', '\u1680', '\u202f',
    '\u205f', '\u3000', '\ufeff']

/-- What holds of each layout character holds of all of them. -/
theorem forall_isLayout {p : Char → Bool} (hsigns : layoutSigns.all p = true)
    (hspaces : (List.range' 0x2000 11).all (fun n => p (Char.ofNat n)) = true) {c : Char}
    (h : isLayout c = true) : p c = true := by
  by_cases hspace : '\u2000' ≤ c ∧ c ≤ '\u200a'
  · have hlow : 0x2000 ≤ c.toNat := hspace.1
    have hhigh : c.toNat ≤ 0x200a := hspace.2
    have hc := List.all_eq_true.mp hspaces c.toNat (List.mem_range'_1.mpr ⟨hlow, by omega⟩)
    rwa [Char.ofNat_toNat] at hc
  · refine List.all_eq_true.mp hsigns c ?_
    simp only [isLayout, isLineBreak, Bool.or_eq_true, Bool.and_eq_true, decide_eq_true_eq,
      hspace, or_false] at h
    simp only [layoutSigns, List.mem_cons, List.not_mem_nil, or_false]
    simp only [or_assoc] at h
    exact h

theorem not_isDigit_of_isLayout {c : Char} (h : isLayout c = true) : c.isDigit = false := by
  have hnot : (!c.isDigit) = true :=
    forall_isLayout (p := fun c => !c.isDigit) (by decide) (by decide) h
  simpa using hnot

end Lumen.Text
