import Lumen.Bound.Node
import Lumen.Console
import Lumen.Submission
import Lumen.Tree.Node

/-!
# Interactive sessions

A session is fed line by line. Lines are collected until their text has no complaint of reading, or
until a blank line; then the text is submitted. A line that starts with a hash sign while nothing
is collected is a command to the session itself. A submission that runs to its end without a
complaint joins the chain that later submissions see. What is still collected at the end of the
input is dropped.
-/

namespace Lumen

structure Display where
  tree : Bool := false
  program : Bool := false
  color : Bool := false
  deriving DecidableEq

inductive Command
  | showTree
  | showProgram
  | clearScreen
  | reset
  | exit
  deriving DecidableEq

def Command.ofName? : String → Option Command
  | "showTree" => some showTree
  | "showProgram" => some showProgram
  | "cls" => some clearScreen
  | "reset" => some reset
  | "exit" => some exit
  | _ => none

/-- The command that a line writes: a hash sign and the name of the command. -/
def Command.ofLine? (line : List Char) : Option Command :=
  match Text.trim line with
  | '#' :: name => ofName? (String.ofList name)
  | _ => none

/-- The state of a session. The chain lists the submissions that later ones see, newest first. -/
structure Repl where
  display : Display
  chain : List Submission
  fresh : Nat
  store : Store
  buffer : List Char

namespace Repl

def start (display : Display) : Repl := ⟨display, [], 0, ∅, []⟩

/-- How it goes on behind a line: with the next one, not at all, or never, since the line has
completed a submission that does not end within the steps it is given. -/
inductive Step
  | goesOn
  | exits
  | hangs
  deriving DecidableEq

structure Reply where
  repl : Repl
  output : Output
  step : Step := .goesOn

def dumps (display : Display) (s : Submission) : Output :=
  let tree := if display.tree then
    Console.dump display.color (Tree.dump {} s.source.program.rose) else .empty
  let program := if display.program then
    Console.dump display.color (Bound.dumpProgram {} s.program) else .empty
  tree ++ program

def obey (r : Repl) : Command → Reply
  | .showTree =>
    let on := !r.display.tree
    let said := if on then "Showing parse trees.\n" else "Not showing parse trees.\n"
    ⟨{ r with display := { r.display with tree := on } }, .result said, .goesOn⟩
  | .showProgram =>
    let on := !r.display.program
    let said := if on then "Showing bound tree.\n" else "Not showing bound tree.\n"
    ⟨{ r with display := { r.display with program := on } }, .result said, .goesOn⟩
  | .clearScreen => ⟨r, .result "\x1b[2J\x1b[H", .goesOn⟩
  | .reset => ⟨{ r with chain := [], store := ∅ }, .empty, .goesOn⟩
  | .exit => ⟨r, .empty, .exits⟩

/-- Takes a line that is not part of a submission. -/
def command (r : Repl) (line : List Char) : Reply :=
  match Command.ofLine? line with
  | some c => r.obey c
  | none =>
    let complaint := s!"Invalid command {String.ofList (Text.trim line)}."
    ⟨r, Console.error r.display.color complaint, .goesOn⟩

def prompt (r : Repl) : Output := .result (if r.buffer = [] then "» " else "· ")

variable [Xid] [Graphics]

def submit (budget : Nat) (r : Repl) (text : List Char) : Reply :=
  let c := Submission.compile r.chain r.fresh text
  let shown := dumps r.display c.submission
  let r := { r with fresh := c.fresh }
  match c.submission.evaluate budget r.store with
  | none => ⟨r, shown, .hangs⟩
  | some e =>
    let r := { r with store := e.store }
    match e.verdict with
    | .finished value =>
      let written := match value with
        | some v => Console.value r.display.color v
        | none => .empty
      ⟨{ r with chain := c.submission :: r.chain }, shown ++ written, .goesOn⟩
    | .rejected =>
      let renderer : Renderer := ⟨"", c.submission.source, r.display.color⟩
      ⟨r, shown ++ Console.diagnostics renderer c.submission.diagnostics, .goesOn⟩
    | .faulted cause => ⟨r, shown ++ Console.error r.display.color cause.message, .goesOn⟩

/-- Adds a line to the text that is being collected, and submits the text if it is complete. -/
def collect (budget : Nat) (r : Repl) (line : List Char) : Reply :=
  let text := r.buffer ++ line ++ ['\n']
  if !line.all Text.isWhiteSpace && (Source.parse text).diagnostics ≠ [] then
    ⟨{ r with buffer := text }, .empty, .goesOn⟩
  else submit budget { r with buffer := [] } text

/-- Takes a line, without the characters that end it. -/
def feed (budget : Nat) (r : Repl) (line : List Char) : Reply :=
  if r.buffer ≠ [] then r.collect budget line
  else if line.all Text.isWhiteSpace then ⟨r, .empty, .goesOn⟩
  else if line.head? = some '#' then r.command line
  else r.collect budget line

def undecodable : String := "stream did not contain valid UTF-8"

/-- All that a session writes, and how it ends. -/
structure Finish where
  output : Output
  code : Nat
  deriving DecidableEq

/-- Runs a session on the lines of its input; a line that is not text ends it. There is no result if
a submission does not end. -/
def run (budget : Nat) (r : Repl) : List (Option (List Char)) → Option Finish
  | [] => some ⟨r.prompt, 0⟩
  | none :: _ =>
    some ⟨r.prompt ++ Console.error r.display.color s!"Failed to read input: {undecodable}", 2⟩
  | some line :: lines =>
    let reply := r.feed budget (Text.trimLineEnd line)
    match reply.step with
    | .hangs => none
    | .exits => some ⟨r.prompt ++ reply.output, 0⟩
    | .goesOn =>
      (run budget reply.repl lines).map fun rest =>
        ⟨r.prompt ++ reply.output ++ rest.output, rest.code⟩

end Repl

end Lumen
