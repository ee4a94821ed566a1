import Lumen.Text.Span

/-!
# Lines and columns

A line map stores a text together with the positions where its lines after the first one start.
A line feed, a carriage return, and a carriage return followed by a line feed each end a line.
The positions ascend, so the line of a position is the number of starts that do not lie behind
it.
-/

namespace Lumen

/-- Zero-based line and column; the column counts characters. -/
structure Position where
  line : Nat
  column : Nat
  deriving DecidableEq, Inhabited

/-- A text and the starts of its lines after the first one. -/
structure LineMap where
  text : List Char
  starts : List Nat

namespace LineMap

/-- The starts of the lines that begin inside a text whose own first position is `pos`. -/
def startsFrom (pos : Nat) : List Char → List Nat
  | [] => []
  | '\r' :: '\n' :: cs => (pos + 2) :: startsFrom (pos + 2) cs
  | c :: cs =>
    if c = '\n' ∨ c = '\r' then (pos + 1) :: startsFrom (pos + 1) cs
    else startsFrom (pos + c.utf8Size) cs

def ofText (text : List Char) : LineMap := ⟨text, startsFrom 0 text⟩

/-- The zero-based line that holds a position; a position behind the end is on the last line. -/
def lineOf (m : LineMap) (pos : Nat) : Nat := m.starts.countP (· ≤ pos)

def startOf (m : LineMap) (line : Nat) : Nat := (0 :: m.starts).getD line 0

/-- Line and column of a position. The column of a position inside a character counts bytes, and
a position behind the end of the text is taken for the end. -/
def position (m : LineMap) (pos : Nat) : Position :=
  let line := m.lineOf pos
  let start := m.startOf line
  let stop := min pos (Text.size m.text)
  let column :=
    match (Text.dropBytes? start m.text).bind (Text.takeBytes? (stop - start)) with
    | some cs => cs.length
    | none => stop - start
  ⟨line, column⟩

end LineMap

end Lumen
