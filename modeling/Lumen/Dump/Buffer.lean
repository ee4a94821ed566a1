import Lumen.Dump

/-!
# Dumps in one buffer

A dump can be written into one buffer, walking down the trees once. Each node goes behind what is in
the buffer already, on a line of its own unless it is the first one. What stands in front of its label
is known from its ancestors: the indent past their guides and, except for a root, a guide of its own.
-/

namespace Lumen.Dump

/-- The guide of a node and what indents the lines below it. -/
def guides (isLast : Bool) : String × String := if isLast then ("└── ", "    ") else ("├── ", "│   ")

/-- Begins a line, unless nothing is written yet. -/
def beginLine (newLine out : String) : String := if out.isEmpty then out else out ++ newLine

mutual

/-- Writes a tree that hangs at an indent, as the last one there or not. -/
def hangInto (newLine out indent : String) (isLast : Bool) : Rose String → String
  | .node label children =>
    let guide := guides isLast
    let out := beginLine newLine out ++ indent ++ guide.1 ++ label
    branchInto newLine out (indent ++ guide.2) children

def branchInto (newLine out indent : String) : List (Rose String) → String
  | [] => out
  | t :: ts => branchInto newLine (hangInto newLine out indent ts.isEmpty t) indent ts

end

def rootInto (newLine out : String) : Rose String → String
  | .node label children => branchInto newLine (beginLine newLine out ++ label) "" children

def renderInBuffer (format : Format) (roots : List (Rose String)) : String :=
  let out := roots.foldl (rootInto format.newLine) ""
  if format.trailing && !out.isEmpty then out ++ format.newLine else out

end Lumen.Dump
