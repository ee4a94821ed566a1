import Lumen.Proofs.Dump.Buffer
import Mathlib.Data.List.Forall2

/-!
# Reading dumps back

A dump is read line by line. The guides in front of a label are four characters for each level, so
how deep a node stands is seen from its line alone, if its label does not begin with a character that
guides are made of. Labels without line feeds give one line for each node. Then the lines of a dump
are the rows of its trees, and so the text of a dump determines the trees.
-/

namespace Lumen.Dump

open Lumen.Rose (Row)

def textLines : List Char → List (List Char)
  | [] => []
  | c :: cs =>
    if c = '\n' then [] :: textLines cs
    else
      match textLines cs with
      | [] => [[c]]
      | l :: ls => (c :: l) :: ls

def isGuide (c : Char) : Bool := c = '│' || c = '├' || c = '└' || c = '─' || c = ' '

/-- The label on a line of a dump, and how deep its node stands. -/
def readLine (line : List Char) : Row String :=
  ⟨(line.takeWhile isGuide).length / 4, String.ofList (line.dropWhile isGuide)⟩

/-- The labels of a dump with their depths, one for each line. -/
def read (text : String) : List (Row String) := (textLines text.toList).map readLine

def OneLine (text : String) : Prop := '\n' ∉ text.toList

instance (text : String) : Decidable (OneLine text) := inferInstanceAs (Decidable ('\n' ∉ _))

theorem OneLine.append {text more : String} (h : OneLine text) (hmore : OneLine more) :
    OneLine (text ++ more) := by
  rw [OneLine, String.toList_append, List.mem_append, not_or]
  exact ⟨h, hmore⟩

/-- Whether a label fills one line and is told from the guides in front of it. -/
structure Solid (label : String) : Prop where
  exists_head : ∃ c cs, label.toList = c :: cs ∧ isGuide c = false
  oneLine : OneLine label

theorem Solid.ne_empty {label : String} (h : Solid label) : label ≠ "" := by
  rintro rfl
  obtain ⟨c, cs, hlabel, -⟩ := h.exists_head
  cases hlabel

theorem Solid.append {label more : String} (h : Solid label) (hmore : OneLine more) :
    Solid (label ++ more) := by
  obtain ⟨c, cs, hlabel, hc⟩ := h.exists_head
  refine ⟨⟨c, cs ++ more.toList, ?_, hc⟩, h.oneLine.append hmore⟩
  rw [String.toList_append, hlabel, List.cons_append]

theorem textLines_append {line : List Char} (h : '\n' ∉ line) (rest : List Char) :
    textLines (line ++ '\n' :: rest) = line :: textLines rest := by
  induction line with
  | nil => simp [textLines]
  | cons c cs ih =>
    have hc : c ≠ '\n' := fun heq => h (heq ▸ List.mem_cons_self)
    have hcs : '\n' ∉ cs := fun hmem => h (List.mem_cons_of_mem _ hmem)
    simp [textLines, hc, ih hcs]

theorem textLines_flatMap {ls : List (List Char)} (h : ∀ l ∈ ls, '\n' ∉ l) :
    textLines (ls.flatMap (· ++ ['\n'])) = ls := by
  induction ls with
  | nil => rfl
  | cons l ls ih =>
    obtain ⟨hl, hls⟩ := List.forall_mem_cons.mp h
    rw [List.flatMap_cons, List.append_assoc, List.singleton_append, textLines_append hl, ih hls]

theorem toList_joinLines (ls : List String) :
    (joinLines {} ls).toList = (ls.map String.toList).flatMap (· ++ ['\n']) := by
  induction ls with
  | nil => rfl
  | cons l ls ih =>
    cases ls with
    | nil => simp [joinLines]
    | cons m ms =>
      simp [joinLines] at ih ⊢
      exact ih

/-- Whether a line tells the label and the depth of a row, where the lines around it have their
guides behind an indent of some depth. -/
def Tells (indent : Nat) (line : String) (row : Row String) : Prop :=
  ∃ guide, line.toList = guide ++ row.value.toList ∧ (∀ c ∈ guide, isGuide c = true) ∧
    4 * indent + guide.length = 4 * row.depth

theorem guides_wide (isLast : Bool) :
    ((guides isLast).1.toList.all isGuide = true ∧ (guides isLast).1.toList.length = 4) ∧
      (guides isLast).2.toList.all isGuide = true ∧ (guides isLast).2.toList.length = 4 := by
  cases isLast <;> decide

/-- Lines that tell rows inside an indent tell them with a guide more one level further out. -/
theorem tells_hang {depth : Nat} {isLast : Bool} {ls : List String} {rows : List (Row String)}
    (h : List.Forall₂ (Tells (depth + 1)) ls rows) :
    List.Forall₂ (Tells depth) (hang (guides isLast).1 (guides isLast).2 ls) rows := by
  have hlonger (guide line : String) (row : Row String)
      (hwide : guide.toList.all isGuide = true ∧ guide.toList.length = 4)
      (htells : Tells (depth + 1) line row) : Tells depth (guide ++ line) row := by
    obtain ⟨hguide, hlength⟩ := hwide
    rw [List.all_eq_true] at hguide
    obtain ⟨inner, hline, hinner, hdepth⟩ := htells
    refine ⟨guide.toList ++ inner, ?_, List.forall_mem_append.mpr ⟨hguide, hinner⟩, ?_⟩
    · rw [String.toList_append, hline, List.append_assoc]
    · rw [List.length_append]
      omega
  cases h with
  | nil => exact .nil
  | @cons line row ls rows hline hls =>
    refine .cons (hlonger _ line row (guides_wide isLast).1 hline) ?_
    rw [List.forall₂_map_left_iff]
    exact hls.imp fun line row hline => hlonger _ line row (guides_wide isLast).2 hline

mutual

theorem tells_lines (depth : Nat) : ∀ t : Rose String,
    List.Forall₂ (Tells depth) (lines t) (t.rows depth)
  | .node label children => by
    rw [lines, Rose.rows]
    exact .cons ⟨[], rfl, List.forall_mem_nil _, rfl⟩ (tells_branches depth children)

theorem tells_branches (depth : Nat) : ∀ ts : List (Rose String),
    List.Forall₂ (Tells depth) (branches ts) (Rose.forestRows (depth + 1) ts)
  | [] => .nil
  | t :: ts => by
    rw [branches_cons, Rose.forestRows]
    exact List.rel_append (tells_hang (tells_lines (depth + 1) t)) (tells_branches depth ts)

end

theorem tells_flatMap (roots : List (Rose String)) :
    List.Forall₂ (Tells 0) (roots.flatMap lines) (Rose.forestRows 0 roots) := by
  induction roots with
  | nil => exact .nil
  | cons t ts ih =>
    rw [List.flatMap_cons, Rose.forestRows]
    exact List.rel_append (tells_lines 0 t) ih

section

variable {line : String} {row : Row String}

theorem Tells.oneLine (h : Tells 0 line row) (hrow : Solid row.value) : OneLine line := by
  obtain ⟨guide, hline, hguide, -⟩ := h
  rw [OneLine, hline, List.mem_append, not_or]
  exact ⟨fun hmem => absurd (hguide _ hmem) (by decide), hrow.oneLine⟩

/-- A line that tells a row with a solid label is read as that row. -/
theorem Tells.readLine_eq (h : Tells 0 line row) (hrow : Solid row.value) :
    readLine line.toList = row := by
  obtain ⟨guide, hline, hguide, hdepth⟩ := h
  obtain ⟨c, cs, hlabel, hc⟩ := hrow.exists_head
  have htake : row.value.toList.takeWhile isGuide = [] := by
    rw [hlabel, List.takeWhile_cons_of_neg (by simp [hc])]
  have hdrop : row.value.toList.dropWhile isGuide = row.value.toList := by
    rw [hlabel, List.dropWhile_cons_of_neg (by simp [hc])]
  have hlength : guide.length / 4 = row.depth := by omega
  rw [readLine, hline, List.takeWhile_append_of_pos hguide, List.dropWhile_append_of_pos hguide,
    htake, hdrop, List.append_nil, hlength, String.ofList_toList]

end

theorem read_lines {ls : List String} {rows : List (Row String)}
    (h : List.Forall₂ (Tells 0) ls rows) (hrows : ∀ row ∈ rows, Solid row.value) :
    (∀ l ∈ ls.map String.toList, '\n' ∉ l) ∧ (ls.map String.toList).map readLine = rows := by
  induction h with
  | nil => exact ⟨List.forall_mem_nil _, rfl⟩
  | cons hline _ ih =>
    obtain ⟨hrow, hothers⟩ := List.forall_mem_cons.mp hrows
    obtain ⟨honeLine, hread⟩ := ih hothers
    refine ⟨List.forall_mem_cons.mpr ⟨hline.oneLine hrow, honeLine⟩, ?_⟩
    rw [List.map_cons, List.map_cons, hline.readLine_eq hrow, hread]

theorem read_render {roots : List (Rose String)} (h : ∀ t ∈ roots, t.All Solid) :
    read (render {} roots) = Rose.forestRows 0 roots := by
  have hsolid : ∀ row ∈ Rose.forestRows 0 roots, Solid row.value := by
    rw [Rose.forestRows_eq_flatMap, List.forall_mem_flatMap]
    exact h
  obtain ⟨honeLine, hread⟩ := read_lines (tells_flatMap roots) hsolid
  rw [read, render, toList_joinLines, textLines_flatMap honeLine, hread]

/-- Trees with solid labels that have the same dump are the same. -/
theorem render_injective {roots roots' : List (Rose String)} (h : ∀ t ∈ roots, t.All Solid)
    (h' : ∀ t ∈ roots', t.All Solid) (heq : render {} roots = render {} roots') :
    roots = roots' := by
  have hrows := congrArg read heq
  rw [read_render h, read_render h'] at hrows
  exact Rose.forestRows_injective hrows

end Lumen.Dump
