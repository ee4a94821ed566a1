/-!
# Spans of a text

A text is a list of characters, and a position in it is the number of bytes that the UTF-8 form
of the characters before it takes. Hence a position may fall inside a character or behind the
end; cutting a text at such a position has no result.
-/

namespace Lumen

namespace Text

/-- The number of bytes of the UTF-8 form of a text. -/
def size : List Char → Nat
  | [] => 0
  | c :: cs => c.utf8Size + size cs

@[simp] theorem size_nil : size [] = 0 := rfl

@[simp] theorem size_cons (c : Char) (cs : List Char) : size (c :: cs) = c.utf8Size + size cs := rfl

@[simp] theorem size_append (as bs : List Char) : size (as ++ bs) = size as + size bs := by
  induction as with
  | nil => simp
  | cons c cs ih => simp [ih, Nat.add_assoc]

/-- What is left of a text after its first `n` bytes, if they end at a character boundary. -/
def dropBytes? (n : Nat) : List Char → Option (List Char)
  | [] => if n = 0 then some [] else none
  | c :: cs =>
    if n = 0 then some (c :: cs)
    else if c.utf8Size ≤ n then dropBytes? (n - c.utf8Size) cs
    else none

/-- The first `n` bytes of a text, if they end at a character boundary. -/
def takeBytes? (n : Nat) : List Char → Option (List Char)
  | [] => if n = 0 then some [] else none
  | c :: cs =>
    if n = 0 then some []
    else if c.utf8Size ≤ n then (takeBytes? (n - c.utf8Size) cs).map (c :: ·)
    else none

theorem dropBytes?_append (as bs : List Char) : dropBytes? (size as) (as ++ bs) = some bs := by
  induction as with
  | nil => cases bs <;> simp [dropBytes?]
  | cons c cs ih =>
    have hc : c.utf8Size ≠ 0 := Nat.ne_of_gt c.utf8Size_pos
    simp only [List.cons_append, size_cons, dropBytes?, Nat.add_eq_zero_iff, hc, false_and,
      if_false, Nat.le_add_right, if_true, Nat.add_sub_cancel_left, ih]

theorem takeBytes?_append (as bs : List Char) : takeBytes? (size as) (as ++ bs) = some as := by
  induction as with
  | nil => cases bs <;> simp [takeBytes?]
  | cons c cs ih =>
    have hc : c.utf8Size ≠ 0 := Nat.ne_of_gt c.utf8Size_pos
    simp only [List.cons_append, size_cons, takeBytes?, Nat.add_eq_zero_iff, hc, false_and,
      if_false, Nat.le_add_right, if_true, Nat.add_sub_cancel_left, ih, Option.map_some]

/-- Whether a position is between two characters of a text, or at one of its ends. -/
def IsBoundary (text : List Char) (pos : Nat) : Prop :=
  ∃ before behind, text = before ++ behind ∧ pos = size before

/-- A text that is cut at a position is cut between two characters. -/
theorem exists_append_of_dropBytes? {n : Nat} {text rest : List Char}
    (h : dropBytes? n text = some rest) : ∃ before, text = before ++ rest ∧ n = size before := by
  fun_induction dropBytes? n text with
  | case1 =>
    cases h
    exact ⟨[], rfl, rfl⟩
  | case2 => cases h
  | case3 c cs =>
    cases h
    exact ⟨[], rfl, rfl⟩
  | case4 n c cs hn hc ih =>
    obtain ⟨before, rfl, hsize⟩ := ih h
    refine ⟨c :: before, rfl, ?_⟩
    rw [size_cons]
    omega
  | case5 => cases h

end Text

/-- The bytes of a text from `start` on, `length` of them. -/
structure Span where
  start : Nat
  length : Nat
  deriving DecidableEq, Inhabited

namespace Span

def stop (s : Span) : Nat := s.start + s.length

def empty (pos : Nat) : Span := ⟨pos, 0⟩

def between (start stop : Nat) : Span := ⟨start, stop - start⟩

/-- The smallest span that covers two spans. -/
def union (a b : Span) : Span := between (min a.start b.start) (max a.stop b.stop)

/-- The text that a span covers; a span that cuts a character or runs past the end covers none. -/
def slice (s : Span) (text : List Char) : List Char :=
  ((Text.dropBytes? s.start text).bind (Text.takeBytes? s.length)).getD []

def bounds (s : Span) : String := s!"[{s.start}, {s.stop})"

def range (s : Span) : String := s!"{s.start}..{s.stop}"

@[simp] theorem start_union (a b : Span) : (a.union b).start = min a.start b.start := rfl

@[simp] theorem stop_union (a b : Span) : (a.union b).stop = max a.stop b.stop := by
  simp only [union, between, stop]
  omega

theorem slice_append (as bs cs : List Char) :
    (Span.mk (Text.size as) (Text.size bs)).slice (as ++ bs ++ cs) = bs := by
  rw [slice, List.append_assoc, Text.dropBytes?_append, Option.bind_some, Text.takeBytes?_append,
    Option.getD_some]

end Span

end Lumen
