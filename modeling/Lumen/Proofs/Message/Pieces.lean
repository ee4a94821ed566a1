import Lumen.Message.Slices

/-!
# Templates are read once

A template is read without its arguments: for each number of arguments it is one list of pieces, and
filling it in puts an argument at the place of each piece that stands for one. So the braces of an
argument are never read. Filling by slices does the same, since each slice ends before a brace that
was searched for, and a brace is one byte.
-/

namespace Lumen

namespace Text

variable {c : Char} {cs : List Char} {n : Nat}

theorem find?_append (h : c ∉ cs) (after : List Char) :
    find? c (cs ++ c :: after) = some (size cs) := by
  induction cs with
  | nil => exact if_pos rfl
  | cons d cs ih =>
    obtain ⟨hd, hcs⟩ := List.ne_and_not_mem_of_not_mem_cons h
    rw [List.cons_append, find?, if_neg hd.symm, ih hcs]
    rfl

theorem find?_eq_none_iff : find? c cs = none ↔ c ∉ cs := by
  induction cs with
  | nil => exact iff_of_true rfl List.not_mem_nil
  | cons d cs ih =>
    rw [find?, List.mem_cons, not_or, ← ih]
    by_cases hd : d = c
    · simp [hd]
    · simp [hd, Ne.symm hd]

theorem exists_of_find? (h : find? c cs = some n) :
    ∃ before after, cs = before ++ c :: after ∧ c ∉ before ∧ size before = n := by
  have hc : c ∈ cs := by
    apply Classical.not_not.mp
    intro hc
    cases (find?_eq_none_iff.mpr hc).symm.trans h
  obtain ⟨before, after, rfl, hbefore⟩ := List.eq_append_cons_of_mem hc
  rw [find?_append hbefore] at h
  exact ⟨before, after, rfl, hbefore, Option.some.inj h⟩

theorem dropBytes?_behind (before after : List Char) (hc : c.utf8Size = 1) :
    dropBytes? (size before + 1) (before ++ c :: after) = some after := by
  have hcut := dropBytes?_append (before ++ [c]) after
  rwa [size_append, size_cons, size_nil, hc, List.append_assoc] at hcut

/-- Whether a text is a run of digits that writes a number below 2 ^ 64 in base ten. -/
structure Digits (cs : List Char) (n : Nat) : Prop where
  nonempty : cs ≠ []
  digits : ∀ c ∈ cs, '0' ≤ c ∧ c ≤ '9'
  value : numeralValue cs = n
  fits : n < 0x10000000000000000

/-- Whether a text is an unsigned numeral of a number: digits, perhaps behind a plus sign. -/
inductive Numeral : List Char → Nat → Prop
  | plain {cs : List Char} {n : Nat} : Digits cs n → Numeral cs n
  | signed {cs : List Char} {n : Nat} : Digits cs n → Numeral ('+' :: cs) n

theorem isDigit_iff : c.isDigit = true ↔ '0' ≤ c ∧ c ≤ '9' := by
  simp only [Char.isDigit, Bool.and_eq_true, decide_eq_true_eq]
  exact Iff.rfl

theorem digits_iff : Digits cs n ↔
    (decide (cs ≠ []) && cs.all Char.isDigit && decide (numeralValue cs < 0x10000000000000000)) =
        true ∧ numeralValue cs = n := by
  simp only [Bool.and_eq_true, decide_eq_true_eq, List.all_eq_true, isDigit_iff]
  constructor
  · rintro ⟨hne, hdigits, rfl, hfits⟩
    exact ⟨⟨⟨hne, hdigits⟩, hfits⟩, rfl⟩
  · rintro ⟨⟨⟨hne, hdigits⟩, hfits⟩, rfl⟩
    exact ⟨hne, hdigits, rfl, hfits⟩

theorem Digits.not_plus (h : Digits ('+' :: cs) n) : False :=
  absurd (h.digits '+' List.mem_cons_self) (by decide)

theorem index?_eq_some_iff : index? cs = some n ↔ Numeral cs n := by
  unfold index?
  split
  · next ds =>
    rw [Option.ite_none_right_eq_some, Option.some.injEq, ← digits_iff]
    constructor
    · exact .signed
    · intro h
      cases h with
      | plain h => exact h.not_plus.elim
      | signed h => exact h
  · next hplus =>
    rw [Option.ite_none_right_eq_some, Option.some.injEq, ← digits_iff]
    constructor
    · exact .plain
    · intro h
      cases h with
      | plain h => exact h
      | signed => exact absurd rfl (hplus _)

end Text

namespace Message

open Text

/-- A piece of a template for `k` arguments: a character, or the place of an argument. -/
inductive Piece (k : Nat)
  | literal (c : Char)
  | argument (i : Fin k)
  deriving DecidableEq

def Piece.fill {k : Nat} (args : Vector String k) : Piece k → List Char
  | literal c => [c]
  | argument i => args[i].toList

/-- Whether the text behind an opening brace makes it a placeholder for one of `k` arguments: up to
the first closing brace it is a numeral of the argument, and `rest` is behind that brace. -/
def Opens {k : Nat} (after : List Char) (i : Fin k) (rest : List Char) : Prop :=
  ∃ digits, after = digits ++ '\x7d' :: rest ∧ '\x7d' ∉ digits ∧ Numeral digits i

/-- Whether a template for `k` arguments reads as pieces from left to right: a brace that opens a
placeholder is the place of its argument, and every other character stands for itself. -/
inductive Reads {k : Nat} : List Char → List (Piece k) → Prop
  | nil : Reads [] []
  | argument {cs rest : List Char} {i : Fin k} {ps : List (Piece k)} :
    Opens cs i rest → Reads rest ps → Reads ('\x7b' :: cs) (.argument i :: ps)
  | literal {c : Char} {cs : List Char} {ps : List (Piece k)} :
    (c = '\x7b' → ∀ (i : Fin k) rest, ¬ Opens cs i rest) → Reads cs ps →
      Reads (c :: cs) (.literal c :: ps)

variable {k : Nat} {cs rest written : List Char} {i : Fin k} {ps : List (Piece k)}

/-- What is in front of the first closing brace, and what is behind it. -/
theorem takeWhile_append_close {digits : List Char} (h : '\x7d' ∉ digits) (rest : List Char) :
    (digits ++ '\x7d' :: rest).takeWhile (· ≠ '\x7d') = digits ∧
      (digits ++ '\x7d' :: rest).dropWhile (· ≠ '\x7d') = '\x7d' :: rest := by
  have hdigits : ∀ c ∈ digits, decide (c ≠ '\x7d') = true := by
    intro c hc
    exact decide_eq_true fun hbrace => h (hbrace ▸ hc)
  rw [List.takeWhile_append_of_pos hdigits, List.dropWhile_append_of_pos hdigits]
  simp

theorem Opens.unique {j : Fin k} {rest' : List Char} (h : Opens cs i rest) (h' : Opens cs j rest') :
    i = j ∧ rest = rest' := by
  obtain ⟨digits, rfl, hdigits, hi⟩ := h
  obtain ⟨digits', hcs, hdigits', hj⟩ := h'
  obtain ⟨hfront, hback⟩ := takeWhile_append_close hdigits rest
  obtain ⟨hfront', hback'⟩ := takeWhile_append_close hdigits' rest'
  rw [hcs] at hfront hback
  obtain rfl : digits = digits' := hfront.symm.trans hfront'
  have hindex : some i.val = some j.val :=
    (index?_eq_some_iff.mpr hi).symm.trans (index?_eq_some_iff.mpr hj)
  exact ⟨Fin.ext (Option.some.inj hindex), (List.cons.inj (hback.symm.trans hback')).2⟩

theorem Opens.length_lt (h : Opens cs i rest) : rest.length < cs.length := by
  obtain ⟨digits, rfl, -, -⟩ := h
  rw [List.length_append, List.length_cons]
  omega

theorem placeholder?_append {digits : List Char} (h : '\x7d' ∉ digits) (args : List String)
    (rest : List Char) : placeholder? args (digits ++ '\x7d' :: rest) =
      ((index? digits).bind (args[·]?)).map (·, rest) := by
  obtain ⟨hfront, hback⟩ := takeWhile_append_close h rest
  rw [placeholder?, hfront, hback]

theorem placeholder?_of_not_mem (h : '\x7d' ∉ cs) (args : List String) :
    placeholder? args cs = none := by
  have hplain : ∀ c ∈ cs, decide (c ≠ '\x7d') = true := by
    intro c hc
    exact decide_eq_true fun hbrace => h (hbrace ▸ hc)
  have hback : (cs ++ []).dropWhile (· ≠ '\x7d') = ([] : List Char).dropWhile (· ≠ '\x7d') :=
    List.dropWhile_append_of_pos hplain
  rw [List.append_nil, List.dropWhile_nil] at hback
  rw [placeholder?, hback]

theorem Opens.placeholder?_eq (h : Opens cs i rest) (args : Vector String k) :
    placeholder? args.toList cs = some (args[i], rest) := by
  obtain ⟨digits, rfl, hdigits, hi⟩ := h
  rw [placeholder?_append hdigits, index?_eq_some_iff.mpr hi]
  simp

/-- A brace that opens no placeholder stands for itself, whatever the arguments are. -/
theorem placeholder?_eq_none (h : ∀ (i : Fin k) rest, ¬ Opens cs i rest) (args : Vector String k) :
    placeholder? args.toList cs = none := by
  by_cases hclose : '\x7d' ∈ cs
  · obtain ⟨digits, rest, rfl, hdigits⟩ := List.eq_append_cons_of_mem hclose
    rw [placeholder?_append hdigits, Option.map_eq_none_iff, Option.bind_eq_none_iff]
    intro n hn
    rw [List.getElem?_eq_none_iff, Vector.length_toList]
    apply Nat.not_lt.mp
    intro hlt
    exact h ⟨n, hlt⟩ rest ⟨digits, rfl, hdigits, index?_eq_some_iff.mp hn⟩
  · exact placeholder?_of_not_mem hclose args.toList

theorem fill_open (args : List String) (cs : List Char) : fill args ('\x7b' :: cs) =
    match placeholder? args cs with
    | none => '\x7b' :: fill args cs
    | some (arg, rest) => arg.toList ++ fill args rest := by
  rw [fill, if_pos rfl]
  split
  next arg rest hfound => rw [hfound]
  next hfound => rw [hfound]

theorem Reads.unique {qs : List (Piece k)} (h : Reads cs ps) (h' : Reads cs qs) : ps = qs := by
  induction h generalizing qs with
  | nil =>
    cases h'
    rfl
  | argument hopens _ ih =>
    cases h' with
    | argument hopens' h' =>
      obtain ⟨rfl, rfl⟩ := hopens.unique hopens'
      rw [ih h']
    | literal hliteral _ => exact absurd hopens (hliteral rfl _ _)
  | literal hliteral _ ih =>
    cases h' with
    | argument hopens' _ => exact absurd hopens' (hliteral rfl _ _)
    | literal _ h' => rw [ih h']

theorem exists_reads (k : Nat) (cs : List Char) : ∃ ps : List (Piece k), Reads cs ps := by
  match cs with
  | [] => exact ⟨[], .nil⟩
  | c :: cs =>
    by_cases hopens : c = '\x7b' ∧ ∃ (i : Fin k) (rest : List Char), Opens cs i rest
    · obtain ⟨rfl, i, rest, hopens⟩ := hopens
      have hlt := hopens.length_lt
      obtain ⟨ps, hps⟩ := exists_reads k rest
      exact ⟨.argument i :: ps, .argument hopens hps⟩
    · obtain ⟨ps, hps⟩ := exists_reads k cs
      refine ⟨.literal c :: ps, .literal (fun hc i rest h => hopens ⟨hc, i, rest, h⟩) hps⟩
termination_by cs.length
decreasing_by
  · simp only [List.length_cons]
    omega
  · simp

theorem Reads.fill_eq (h : Reads cs ps) (args : Vector String k) :
    fill args.toList cs = ps.flatMap (·.fill args) := by
  induction h with
  | nil => rw [fill, List.flatMap_nil]
  | argument hopens _ ih =>
    rw [fill_open, hopens.placeholder?_eq args, List.flatMap_cons, ← ih]
    rfl
  | @literal c cs ps hliteral _ ih =>
    rw [List.flatMap_cons, ← ih]
    by_cases hc : c = '\x7b'
    · rw [hc, fill_open, placeholder?_eq_none (hliteral hc) args]
      rfl
    · rw [fill, if_neg hc]
      rfl

/-- A round of filling by slices goes on where reading by characters goes on. -/
theorem Filling.round?_eq {f : Filling} {before after : List Char}
    (hrest : f.rest = before ++ '\x7b' :: after) (args : List String) :
    f.round? args (size before) = some (match placeholder? args after with
      | none => ⟨f.written ++ before ++ ['\x7b'], after⟩
      | some (arg, rest) => ⟨f.written ++ before ++ arg.toList, rest⟩) := by
  have hbehind := dropBytes?_behind before after (c := '\x7b') (by decide)
  rw [round?, hrest, takeBytes?_append, hbehind]
  by_cases hclose : '\x7d' ∈ after
  · obtain ⟨digits, rest, rfl, hdigits⟩ := List.eq_append_cons_of_mem hclose
    rw [placeholder?_append hdigits]
    have hat : placeholderAt? args (digits ++ '\x7d' :: rest) =
        some (((index? digits).bind (args[·]?)).map (⟨·, size digits⟩)) := by
      rw [placeholderAt?, find?_append hdigits]
      dsimp only
      rw [takeBytes?_append]
      rfl
    simp only [Option.bind_eq_bind, Option.bind_some, hat]
    cases (index? digits).bind (args[·]?) with
    | none => rfl
    | some arg => simp [dropBytes?_behind digits rest (c := '\x7d') (by decide)]
  · have hat : placeholderAt? args after = some none := by
      rw [placeholderAt?, find?_eq_none_iff.mpr hclose]
    rw [placeholder?_of_not_mem hclose]
    simp only [Option.bind_eq_bind, Option.bind_some, hat]
    rfl

theorem fill_append {before : List Char} (h : '\x7b' ∉ before) (args : List String)
    (after : List Char) : fill args (before ++ after) = before ++ fill args after := by
  induction before with
  | nil => rfl
  | cons c before ih =>
    obtain ⟨hc, hbefore⟩ := List.ne_and_not_mem_of_not_mem_cons h
    rw [List.cons_append, fill, if_neg hc.symm, ih hbefore]
    rfl

/-- No slice is cut inside a character, and the text is that of filling in character by
character. -/
theorem Filling.run?_eq (args : List String) (f : Filling) :
    f.run? args = some (f.written ++ fill args f.rest) := by
  fun_induction run? args f with
  | case1 f hfind =>
    have hplain := fill_append (find?_eq_none_iff.mp hfind) args []
    rw [List.append_nil, fill, List.append_nil] at hplain
    rw [hplain]
  | case2 f start hfind hround =>
    obtain ⟨before, after, hrest, -, rfl⟩ := exists_of_find? hfind
    cases (round?_eq hrest args).symm.trans hround
  | case3 f start hfind g hround ih =>
    obtain ⟨before, after, hrest, hbefore, rfl⟩ := exists_of_find? hfind
    have hg := Option.some.inj ((round?_eq hrest args).symm.trans hround)
    rw [ih, hrest, fill_append hbefore, fill_open, ← hg]
    cases placeholder? args after with
    | none => simp
    | some p => simp

/-- Formatting a message is one pass. A template for `k` arguments reads as exactly one list of
pieces, and whatever the arguments are, the message is made of these pieces, with each argument at
its places. Cutting the template into slices gives the same message. -/
theorem format_reads (template : String) (k : Nat) :
    ∃ ps : List (Piece k), (∀ qs, Reads template.toList qs ↔ qs = ps) ∧
      ∀ args : Vector String k,
        format template args.toList = String.ofList (ps.flatMap (·.fill args)) ∧
          formatSlices? template args.toList = some (format template args.toList) := by
  obtain ⟨ps, hps⟩ := exists_reads k template.toList
  refine ⟨ps, fun qs => ⟨fun hqs => hqs.unique hps, fun hqs => hqs ▸ hps⟩, fun args => ?_⟩
  refine ⟨congrArg String.ofList (hps.fill_eq args), ?_⟩
  rw [formatSlices?, Filling.run?_eq]
  rfl

-- an argument that looks like a placeholder is copied; the second brace opens one, not the first
example : format "\x7b\x7b+0\x7d \x7b2\x7d" ["\x7b1\x7d", "x"] = "\x7b\x7b1\x7d \x7b2\x7d" := by
  decide +kernel

end Message

end Lumen
