import Lumen.Rose

/-!
# Dumps of trees

A tree of labels is written one label a line, a node before its children. Guides in front of a
label show where it hangs: the guide of a child says whether it is the last one, and the lines
below a child are indented past its guide. Several trees are written below each other without a
common guide.
-/

namespace Lumen.Dump

/-- How the lines of a dump become one text. -/
structure Format where
  newLine : String := "\n"
  trailing : Bool := true

/-- Puts one guide in front of the first line and another in front of the lines below it. -/
def hang (first below : String) : List String → List String
  | [] => []
  | l :: ls => (first ++ l) :: ls.map (below ++ ·)

mutual

def lines : Rose String → List String
  | .node label children => label :: branches children

/-- The lines of sibling trees below their parent. -/
def branches : List (Rose String) → List String
  | [] => []
  | [t] => hang "└── " "    " (lines t)
  | t :: u :: ts => hang "├── " "│   " (lines t) ++ branches (u :: ts)

end

/-- Lines as one text; no line gives the empty text. -/
def joinLines (format : Format) (ls : List String) : String :=
  if ls.isEmpty then ""
  else format.newLine.intercalate ls ++ if format.trailing then format.newLine else ""

def render (format : Format) (roots : List (Rose String)) : String :=
  joinLines format (roots.flatMap lines)

end Lumen.Dump
