import Lumen.Text.Bytes
import Lumen.Text.LineMap

/-!
# Line tables in machine words

A line table keeps the start of every line as a word of 32 bits. One pass over the bytes of the
UTF-8 form of a text fills it, and a search by halving finds the line of a position: the slot of
the start itself, or else the slot before the one where the position would be put in. Three steps
could be without result: stepping back from the first slot, reading a slot that the table does not
have, and subtracting the start of a line from a position before it.
-/

namespace Lumen

/-- Where a search in an ascending array ends: at the value, or at the slot where it is missing. -/
inductive Slot where
  | found (i : Nat)
  | missing (i : Nat)
  deriving DecidableEq

namespace Slot

/-- Searches a value among the slots from `lo` to `hi` by halving. -/
def search (xs : Array UInt32) (x : UInt32) (lo hi : Nat) (hhi : hi ≤ xs.size) : Slot :=
  if h : lo < hi then
    let mid := lo + (hi - lo) / 2
    have hmid : mid < hi := by omega
    if xs[mid] = x then found mid
    else if xs[mid] < x then search xs x (mid + 1) hi hhi
    else search xs x lo mid (by omega)
  else missing lo
termination_by hi - lo

end Slot

structure LineTable where
  starts : Array UInt32

namespace LineTable

/-- The starts of the lines that begin behind the terminators of a text in UTF-8 form, when its
first byte is at place `i`. -/
def startsFrom (i : Nat) : List UInt8 → List UInt32
  | [] => []
  | 13 :: 10 :: bs => UInt32.ofNat (i + 2) :: startsFrom (i + 2) bs
  | b :: bs =>
    if b = 10 ∨ b = 13 then UInt32.ofNat (i + 1) :: startsFrom (i + 1) bs
    else startsFrom (i + 1) bs

def ofText (text : List Char) : LineTable := ⟨(0 :: startsFrom 0 (Text.bytes text)).toArray⟩

def lineOf? (t : LineTable) (pos : UInt32) : Option UInt32 :=
  match Slot.search t.starts pos 0 t.starts.size (Nat.le_refl _) with
  | .found i => some (UInt32.ofNat i)
  | .missing 0 => none
  | .missing (i + 1) => some (UInt32.ofNat i)

/-- Line and column of a position in the text of the table. The width of the piece between the
start of the line and the position is taken in any case, also when the piece has characters to
count. -/
def position? (t : LineTable) (text : List Char) (pos : UInt32) : Option Position := do
  let line ← t.lineOf? pos
  let start ← t.starts[line.toNat]?
  let stop := min pos.toNat (Text.size text)
  let width ← if start.toNat ≤ stop then some (stop - start.toNat) else none
  let column :=
    match (Text.dropBytes? start.toNat text).bind (Text.takeBytes? width) with
    | some cs => cs.length
    | none => width
  some ⟨line.toNat, (UInt32.ofNat column).toNat⟩

end LineTable

end Lumen
