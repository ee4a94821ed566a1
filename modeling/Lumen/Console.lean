import Lumen.Renderer
import Lumen.Value

/-!
# Console output

Output goes to two streams, results to the first and complaints to the second. With colours on,
values, dumps and the word for an error are wrapped in the control sequences of terminals.
-/

namespace Lumen

/-- What is written to the two streams of a terminal. -/
structure Output where
  out : String
  err : String
  deriving DecidableEq

namespace Output

def empty : Output := ⟨"", ""⟩

instance : Append Output := ⟨fun a b => ⟨a.out ++ b.out, a.err ++ b.err⟩⟩

@[simp] theorem append_out (a b : Output) : (a ++ b).out = a.out ++ b.out := rfl

@[simp] theorem append_err (a b : Output) : (a ++ b).err = a.err ++ b.err := rfl

@[simp] theorem append_empty (a : Output) : a ++ empty = a := by
  obtain ⟨out, err⟩ := a
  change Output.mk (out ++ "") (err ++ "") = ⟨out, err⟩
  rw [String.append_empty, String.append_empty]

def result (text : String) : Output := ⟨text, ""⟩

def complaint (text : String) : Output := ⟨"", text⟩

def all (outputs : List Output) : Output := outputs.foldr (· ++ ·) empty

end Output

namespace Console

def red : String := "\x1b[31m"

def magenta : String := "\x1b[35m"

def gray : String := "\x1b[90m"

def bold : String := "\x1b[1m"

def reset : String := "\x1b[0m"

/-- A text, between a control sequence and the one that ends it if colours are on. -/
def tinted (color : Bool) (tint text : String) : String :=
  if color then tint ++ text ++ reset else text

def dump (color : Bool) (text : String) : Output := .result (tinted color gray text)

def value (color : Bool) (v : Value) : Output := .result (tinted color magenta v.text ++ "\n")

def error (color : Bool) (message : String) : Output :=
  .complaint (tinted color (bold ++ red) "error" ++ ": " ++ message ++ "\n")

def diagnostics [Graphics] (r : Renderer) (ds : List Diagnostic) : Output :=
  .all (ds.map fun d => .complaint (r.render d ++ "\n"))

/-- The line that counts complaints, behind an empty line. -/
def summary (color : Bool) (count : Nat) : Output :=
  let plural := if count = 1 then "" else "s"
  .complaint ("\n" ++ tinted color red s!"Found {count} error{plural}." ++ "\n")

end Console

end Lumen
