import Lumen.Message
import Lumen.Text.Span

/-!
# Templates filled in by slices

A template can be filled in by slices instead of characters. Each round searches the next opening
brace and copies the text before it; the text behind it, up to the next closing brace, is the number
of an argument, or else the brace stands for itself. The slices are cut at byte positions, and a cut
inside a character would be without result.
-/

namespace Lumen

namespace Text

/-- The position at which a character first occurs in a text. -/
def find? (c : Char) : List Char → Option Nat
  | [] => none
  | d :: cs => if d = c then some 0 else (find? c cs).map (d.utf8Size + ·)

theorem length_lt_of_dropBytes? {n : Nat} {cs rest : List Char}
    (h : dropBytes? (n + 1) cs = some rest) : rest.length < cs.length := by
  obtain ⟨before, rfl, hsize⟩ := exists_append_of_dropBytes? h
  cases before with
  | nil => cases hsize
  | cons c before =>
    rw [List.length_append, List.length_cons]
    omega

end Text

namespace Message

open Text

/-- A placeholder: its argument, and the position of its closing brace behind the opening one. -/
structure Placeholder where
  argument : String
  close : Nat

def placeholderAt? (args : List String) (after : List Char) : Option (Option Placeholder) :=
  match find? '}' after with
  | none => some none
  | some close => do
    let digits ← takeBytes? close after
    return ((index? digits).bind (args[·]?)).map (⟨·, close⟩)

/-- How far a template is filled in: the text that is written, and what is left to read. -/
structure Filling where
  written : List Char
  rest : List Char

namespace Filling

/-- Goes on behind the opening brace at a position of what is left, and behind its placeholder if it
opens one. -/
def round? (args : List String) (f : Filling) (start : Nat) : Option Filling := do
  let before ← takeBytes? start f.rest
  let after ← dropBytes? (start + 1) f.rest
  match ← placeholderAt? args after with
  | none => return ⟨f.written ++ before ++ ['\x7b'], after⟩
  | some p => return ⟨f.written ++ before ++ p.argument.toList, ← dropBytes? (p.close + 1) after⟩

theorem length_rest_round?_lt {args : List String} {f g : Filling} {start : Nat}
    (h : f.round? args start = some g) : g.rest.length < f.rest.length := by
  obtain ⟨before, -, h⟩ := Option.bind_eq_some_iff.mp h
  obtain ⟨after, hafter, h⟩ := Option.bind_eq_some_iff.mp h
  obtain ⟨found, -, h⟩ := Option.bind_eq_some_iff.mp h
  have hlt := length_lt_of_dropBytes? hafter
  cases found with
  | none =>
    cases h
    exact hlt
  | some p =>
    obtain ⟨behind, hbehind, h⟩ := Option.bind_eq_some_iff.mp h
    cases h
    exact Nat.lt_trans (length_lt_of_dropBytes? hbehind) hlt

def run? (args : List String) (f : Filling) : Option (List Char) :=
  match find? '\x7b' f.rest with
  | none => some (f.written ++ f.rest)
  | some start =>
    match _went : f.round? args start with
    | none => none
    | some g => g.run? args
termination_by f.rest.length
decreasing_by exact length_rest_round?_lt _went

end Filling

/-- A template with its placeholders replaced by arguments, made of slices of the template. -/
def formatSlices? (template : String) (args : List String) : Option String :=
  (Filling.run? args ⟨[], template.toList⟩).map String.ofList

end Message

end Lumen
