import Lumen.Repl

/-!
# Command line

The program is called with options and at most one file name. With a file name it runs the file
once; without one it starts an interactive session on its input. The code it ends with is zero
after success, one after complaints about the program text and two after any other failure. How the
options are spelled and how a file is read is left to the system.
-/

namespace Lumen

inductive ColorChoice
  | auto
  | always
  | never
  deriving DecidableEq

/-- The colours to use, given whether the stream of complaints is a terminal. -/
def ColorChoice.enabled (terminal : Bool) : ColorChoice → Bool
  | auto => terminal
  | always => true
  | never => false

structure Arguments where
  file : Option String := none
  showTree : Bool := false
  showProgram : Bool := false
  color : ColorChoice := .auto
  deriving DecidableEq

def Arguments.display (a : Arguments) (terminal : Bool) : Display :=
  ⟨a.showTree, a.showProgram, a.color.enabled terminal⟩

namespace CommandLine

/-- The bytes of a text, if they are valid. -/
def decode? (bytes : List UInt8) : Option (List Char) :=
  (String.fromUTF8? ⟨bytes.toArray⟩).map String.toList

/-- Bytes cut behind each line feed. -/
def splitLines : List UInt8 → List (List UInt8)
  | [] => []
  | b :: bs =>
    if b = 10 then [b] :: splitLines bs
    else
      match splitLines bs with
      | [] => [[b]]
      | l :: ls => (b :: l) :: ls

@[simp] theorem flatten_splitLines (bs : List UInt8) : (splitLines bs).flatten = bs := by
  induction bs with
  | nil => rfl
  | cons b bs ih =>
    unfold splitLines
    split
    · simp [ih]
    · split
      · next h => simp_all
      · next l ls h => simp_all

variable [Xid] [Graphics]

def runText (budget : Nat) (display : Display) (name : String) (text : List Char) :
    Option Repl.Finish :=
  let s := (Submission.compile [] 0 text).submission
  let shown := Repl.dumps display s
  (s.evaluate budget ∅).map fun e =>
    match e.verdict with
    | .rejected =>
      ⟨shown ++ Console.diagnostics ⟨name, s.source, display.color⟩ s.diagnostics ++
        Console.summary display.color s.diagnostics.length, 1⟩
    | .finished (some v) => ⟨shown ++ Console.value display.color v, 0⟩
    | .finished none => ⟨shown, 0⟩
    | .faulted cause => ⟨shown ++ Console.error display.color cause.message, 2⟩

/-- Runs the bytes of a file with a name, or tells why there are none. -/
def runFile (budget : Nat) (display : Display) (name : String)
    (content : Except String (List UInt8)) : Option Repl.Finish :=
  let failed (reason : String) : Repl.Finish :=
    ⟨Console.error display.color s!"Failed to read '{name}': {reason}", 2⟩
  match content with
  | .error reason => some (failed reason)
  | .ok bytes =>
    match decode? bytes with
    | none => some (failed Repl.undecodable)
    | some text => runText budget display name text

/-- Runs the program on its arguments and its input, given how a file is read. -/
def run (budget : Nat) (terminal : Bool) (read : String → Except String (List UInt8))
    (a : Arguments) (input : List UInt8) : Option Repl.Finish :=
  let display := a.display terminal
  match a.file with
  | some name => runFile budget display name (read name)
  | none => (Repl.start display).run budget ((splitLines input).map decode?)

end CommandLine

end Lumen
