import Lumen.Text.Numeral

/-!
# Message templates

A template is a text with placeholders, which are argument numbers in braces. Filling it in is one
pass from left to right: an argument is copied as it is, so braces inside it mean nothing. A brace
that opens no placeholder stands for itself, and reading goes on right behind it.
-/

namespace Lumen.Message

/-- The argument that a placeholder stands for, and the template behind its closing brace. The
text given is the one behind the opening brace. -/
def placeholder? (args : List String) (cs : List Char) : Option (String × List Char) :=
  match cs.dropWhile (· ≠ '}') with
  | [] => none
  | _ :: rest =>
    ((Text.index? (cs.takeWhile (· ≠ '}'))).bind (args[·]?)).map (·, rest)

theorem length_lt_of_placeholder? {args : List String} {cs rest : List Char} {arg : String}
    (h : placeholder? args cs = some (arg, rest)) : rest.length < cs.length := by
  unfold placeholder? at h
  split at h
  · cases h
  · next d r hd =>
    obtain ⟨a, -, ha⟩ := Option.map_eq_some_iff.mp h
    cases ha
    have hle := (List.dropWhile_suffix (l := cs) (· ≠ '}')).length_le
    rw [hd, List.length_cons] at hle
    omega

def fill (args : List String) : List Char → List Char
  | [] => []
  | c :: cs =>
    if c = '\x7b' then
      match _found : placeholder? args cs with
      | some (arg, rest) => arg.toList ++ fill args rest
      | none => c :: fill args cs
    else c :: fill args cs
termination_by cs => cs.length
decreasing_by
  · have := length_lt_of_placeholder? _found
    simp only [List.length_cons]
    omega
  all_goals simp

/-- A template with its placeholders replaced by arguments. -/
def format (template : String) (args : List String) : String :=
  String.ofList (fill args template.toList)

end Lumen.Message
