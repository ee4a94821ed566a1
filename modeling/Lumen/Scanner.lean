import Lumen.Token.Cursor

/-!
# Scanners

A scanner reads a text token by token. It stores a cursor, the token read last and the complaints
about the tokens read so far. Its place can be saved and restored; restoring also forgets the
complaints found since, so looking ahead leaves no trace.
-/

namespace Lumen

structure Scanner where
  cursor : Cursor
  token : Token
  diagnostics : List Diagnostic

namespace Scanner

structure Mark where
  cursor : Cursor
  token : Token
  found : Nat

def ofText (text : List Char) : Scanner := ⟨.ofText text, ⟨.unknown, 0, "", none⟩, []⟩

def scan [Xid] (s : Scanner) : Scanner :=
  let (t, c) := s.cursor.next
  ⟨c, t, s.diagnostics ++ t.fault?.toList⟩

def mark (s : Scanner) : Mark := ⟨s.cursor, s.token, s.diagnostics.length⟩

/-- Returns to a marked place and keeps as many complaints as there were then. -/
def restore (s : Scanner) (m : Mark) : Scanner := ⟨m.cursor, m.token, s.diagnostics.take m.found⟩

/-- What a procedure on scanners finds, and the scanner back at its place. -/
def lookAhead {α : Type} (f : Scanner → α × Scanner) (s : Scanner) : α × Scanner :=
  let (a, s') := f s
  (a, s'.restore s.mark)

def takeDiagnostics (s : Scanner) : List Diagnostic × Scanner :=
  (s.diagnostics, { s with diagnostics := [] })

theorem restore_mark (s : Scanner) : s.restore s.mark = s := by
  simp [restore, mark]

end Scanner

end Lumen
