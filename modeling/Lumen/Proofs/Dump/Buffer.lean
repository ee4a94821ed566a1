import Lumen.Dump.Buffer
import Lumen.Proofs.Rose.Rows

/-!
# One buffer gives the same dumps

The buffer holds the lines written so far. If no label is empty then the buffer is empty only before
the first line, so each line is begun where it should be, and writing a tree appends its lines.
-/

namespace Lumen.Dump

theorem map_hang (indent first below : String) (ls : List String) :
    (hang first below ls).map (indent ++ ·) = hang (indent ++ first) (indent ++ below) ls := by
  cases ls with
  | nil => rfl
  | cons l ls => simp [hang, String.append_assoc]

/-- The lines of sibling trees, each with a guide of its own. -/
theorem branches_cons (t : Rose String) (ts : List (Rose String)) :
    branches (t :: ts) =
      hang (guides ts.isEmpty).1 (guides ts.isEmpty).2 (lines t) ++ branches ts := by
  cases ts with
  | nil => simp [branches, guides]
  | cons u us => simp [branches, guides]

theorem ne_empty_of_mem_hang {first below : String} {ls : List String} (h : ∀ l ∈ ls, l ≠ "") :
    ∀ l ∈ hang first below ls, l ≠ "" := by
  intro l hl
  cases ls with
  | nil => cases hl
  | cons m ms =>
    obtain ⟨hm, hms⟩ := List.forall_mem_cons.mp h
    simp only [hang, List.mem_cons, List.mem_map] at hl
    rcases hl with rfl | ⟨k, hk, rfl⟩
    · simp [hm]
    · simp [hms k hk]

mutual

theorem ne_empty_of_mem_lines : ∀ {t : Rose String}, t.All (· ≠ "") → ∀ l ∈ lines t, l ≠ ""
  | .node label children, h, l, hl => by
    obtain ⟨hlabel, hchildren⟩ := Rose.all_node.mp h
    rw [lines, List.mem_cons] at hl
    rcases hl with rfl | hbelow
    · exact hlabel
    · exact ne_empty_of_mem_branches hchildren l hbelow

theorem ne_empty_of_mem_branches : ∀ {ts : List (Rose String)}, (∀ t ∈ ts, t.All (· ≠ "")) →
    ∀ l ∈ branches ts, l ≠ ""
  | [], _, l, hl => by cases hl
  | t :: ts, h, l, hl => by
    obtain ⟨ht, hts⟩ := List.forall_mem_cons.mp h
    rw [branches_cons, List.mem_append] at hl
    rcases hl with hfirst | hothers
    · exact ne_empty_of_mem_hang (ne_empty_of_mem_lines ht) l hfirst
    · exact ne_empty_of_mem_branches hts l hothers

end

section

variable (newLine : String)

theorem isEmpty_intercalate {ls : List String} (h : ∀ l ∈ ls, l ≠ "") :
    (newLine.intercalate ls).isEmpty = ls.isEmpty := by
  cases ls with
  | nil => simp
  | cons l ls =>
    have hl : l ≠ "" := h l List.mem_cons_self
    cases ls with
    | nil => simp [hl]
    | cons m ms => simp [hl]

theorem beginLine_append {ls : List String} (h : ∀ l ∈ ls, l ≠ "") (l : String) :
    beginLine newLine (newLine.intercalate ls) ++ l = newLine.intercalate (ls ++ [l]) := by
  rw [beginLine, isEmpty_intercalate newLine h]
  cases ls with
  | nil => simp
  | cons m ms =>
    rw [String.intercalate_append_of_ne_nil (List.cons_ne_nil m ms) (List.cons_ne_nil l [])]
    simp

mutual

/-- Writing a tree that hangs at an indent appends its lines behind the indent. -/
theorem hangInto_eq {ls : List String} (hls : ∀ l ∈ ls, l ≠ "") (indent : String) (isLast : Bool) :
    ∀ {t : Rose String}, t.All (· ≠ "") →
      hangInto newLine (newLine.intercalate ls) indent isLast t = newLine.intercalate
        (ls ++ (hang (guides isLast).1 (guides isLast).2 (lines t)).map (indent ++ ·))
  | .node label children, h => by
    obtain ⟨hlabel, hchildren⟩ := Rose.all_node.mp h
    have hnext : ∀ l ∈ ls ++ [indent ++ (guides isLast).1 ++ label], l ≠ "" :=
      List.forall_mem_append.mpr ⟨hls, List.forall_mem_singleton.mpr (by simp [hlabel])⟩
    have hline := beginLine_append newLine hls (indent ++ (guides isLast).1 ++ label)
    rw [← String.append_assoc, ← String.append_assoc] at hline
    rw [hangInto, hline, branchInto_eq hnext _ hchildren, lines, hang]
    simp [String.append_assoc, Function.comp_def]

theorem branchInto_eq {ls : List String} (hls : ∀ l ∈ ls, l ≠ "") (indent : String) :
    ∀ {ts : List (Rose String)}, (∀ t ∈ ts, t.All (· ≠ "")) →
      branchInto newLine (newLine.intercalate ls) indent ts =
        newLine.intercalate (ls ++ (branches ts).map (indent ++ ·))
  | [], _ => by simp [branchInto, branches]
  | t :: ts, h => by
    obtain ⟨ht, hts⟩ := List.forall_mem_cons.mp h
    have hhung : ∀ l ∈ (hang (guides ts.isEmpty).1 (guides ts.isEmpty).2 (lines t)).map (indent ++ ·),
        l ≠ "" := by
      rw [map_hang]
      exact ne_empty_of_mem_hang (ne_empty_of_mem_lines ht)
    have hnext := List.forall_mem_append.mpr ⟨hls, hhung⟩
    rw [branchInto, hangInto_eq hls indent ts.isEmpty ht, branchInto_eq hnext indent hts,
      branches_cons, List.map_append, List.append_assoc]

end

theorem rootInto_eq {ls : List String} (hls : ∀ l ∈ ls, l ≠ "") {t : Rose String}
    (ht : t.All (· ≠ "")) :
    rootInto newLine (newLine.intercalate ls) t = newLine.intercalate (ls ++ lines t) := by
  cases t with
  | node label children =>
    obtain ⟨hlabel, hchildren⟩ := Rose.all_node.mp ht
    have hnext : ∀ l ∈ ls ++ [label], l ≠ "" :=
      List.forall_mem_append.mpr ⟨hls, List.forall_mem_singleton.mpr hlabel⟩
    rw [rootInto, beginLine_append newLine hls, branchInto_eq newLine hnext _ hchildren, lines]
    simp

theorem foldl_rootInto_eq {ls : List String} (hls : ∀ l ∈ ls, l ≠ "") {roots : List (Rose String)}
    (h : ∀ t ∈ roots, t.All (· ≠ "")) :
    roots.foldl (rootInto newLine) (newLine.intercalate ls) =
      newLine.intercalate (ls ++ roots.flatMap lines) := by
  induction roots generalizing ls with
  | nil => simp
  | cons t ts ih =>
    obtain ⟨ht, hts⟩ := List.forall_mem_cons.mp h
    have hnext := List.forall_mem_append.mpr ⟨hls, ne_empty_of_mem_lines ht⟩
    rw [List.foldl_cons, rootInto_eq newLine hls ht, ih hnext hts, List.flatMap_cons, List.append_assoc]

end

/-- Trees without an empty label are written alike into one buffer and line by line. -/
theorem renderInBuffer_eq (format : Format) {roots : List (Rose String)}
    (h : ∀ t ∈ roots, t.All (· ≠ "")) : renderInBuffer format roots = render format roots := by
  have hfold := foldl_rootInto_eq format.newLine (List.forall_mem_nil _) h
  rw [String.intercalate_nil, List.nil_append] at hfold
  have hlines : ∀ l ∈ roots.flatMap lines, l ≠ "" :=
    List.forall_mem_flatMap.mpr fun t ht => ne_empty_of_mem_lines (h t ht)
  rw [renderInBuffer, hfold, render, joinLines, isEmpty_intercalate _ hlines]
  cases hempty : (roots.flatMap lines).isEmpty with
  | true => simp [List.isEmpty_iff.mp hempty]
  | false =>
    cases format.trailing with
    | true => simp
    | false => simp

end Lumen.Dump
