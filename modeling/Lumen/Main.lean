import Lumen.CommandLine
import Lumen.Text.Identifier.Table

/-!
# The program

Connects the command line to files and standard streams. Sessions are fed as their lines arrive.
Here complaints are never drawn.
-/

namespace Lumen.Terminal

open scoped Xid Graphics

def write (o : Output) : IO Unit := do
  (← IO.getStdout).putStr o.out
  (← IO.getStdout).flush
  (← IO.getStderr).putStr o.err

/-- Gives a computation more and more steps until it has a result. -/
partial def outlast {α : Type} (f : Nat → Option α) (budget : Nat) : IO α :=
  match f budget with
  | some a => return a
  | none => outlast f (2 * budget)

def firstBudget : Nat := 0x10000

/-- Why a reading failed; the number of the error may come with the sign changed. -/
def reason : IO.Error → String
  | .noFileOrDirectory _ code details
  | .permissionDenied _ code details
  | .inappropriateType _ code details
  | .invalidArgument _ code details
  | .resourceExhausted _ code details
  | .noSuchThing _ code details
  | .resourceBusy code details
  | .illegalOperation code details
  | .hardwareFault code details
  | .otherError code details => s!"{details.capitalize} (os error {min code (0 - code)})"
  | e => toString e

def readFile (name : String) : IO (Except String (List UInt8)) := do
  try
    return .ok (← IO.FS.readBinFile name).toList
  catch e =>
    return .error (reason e)

/-- The next line of a stream with its line feed; empty at the end. -/
partial def readLine (stream : IO.FS.Stream) (line : ByteArray) : IO ByteArray := do
  let bytes ← stream.read 1
  if bytes.isEmpty then return line
  else if bytes.toList = [10] then return line ++ bytes
  else readLine stream (line ++ bytes)

/-- What a session does with a line, if that ends within a number of steps. -/
def reply? (r : Repl) (line : List Char) (budget : Nat) : Option Repl.Reply :=
  let reply := r.feed budget line
  if reply.step = .hangs then none else some reply

/-- Feeds a session until its input ends or a line ends it. -/
partial def interact (r : Repl) : IO UInt32 := do
  write r.prompt
  let line ← readLine (← IO.getStdin) .empty
  if line.isEmpty then return 0
  match CommandLine.decode? line.toList with
  | none =>
    write (Console.error r.display.color s!"Failed to read input: {Repl.undecodable}")
    return 2
  | some text =>
    let reply ← outlast (reply? r (Text.trimLineEnd text)) firstBudget
    write reply.output
    if reply.step = .exits then return 0 else interact reply.repl

def run (a : Arguments) : IO UInt32 := do
  let display := a.display (← (← IO.getStderr).isTty)
  match a.file with
  | none => interact (.start display)
  | some name =>
    let content ← readFile name
    let finish ← outlast (CommandLine.runFile · display name content) firstBudget
    write finish.output
    return finish.code.toUInt32

end Lumen.Terminal
