import Lumen.Proofs.Source.Pointing
import Mathlib.Data.Set.Card

/-!
# The lines of a text

Where lines end is a matter of the characters on either side of a place: a line feed ends one, and
so does a carriage return unless a line feed follows it. A line map finds exactly these places, in
ascending order. So the line of a position is the number of terminators that end up to it, and the
start that a line map gives for this line is the last of these places, or the start of the text.
Columns count the characters from there, and hence grow along a line.
-/

namespace Lumen

namespace Text

variable {c d : Char} {before after cs text : List Char} {e : Nat}

/-- Whether a line terminator ends between two parts of a text. A carriage return with a line feed
behind it is only the first half of a terminator. -/
def EndsLine (before after : List Char) : Prop :=
  before.getLast? = some '\n' ∨ before.getLast? = some '\r' ∧ after.head? ≠ some '\n'

/-- The positions of a text where a line terminator ends. -/
def lineEnds (text : List Char) : Set Nat :=
  {e | ∃ before after, text = before ++ after ∧ e = size before ∧ EndsLine before after}

/-- Whether a piece of a text is the front of a line, from its start on: a terminator or the start
of the text is right before it, and no terminator ends inside the piece or right behind it. -/
structure LineFront (earlier piece after : List Char) : Prop where
  starts : earlier = [] ∨ EndsLine earlier (piece ++ after)
  unbroken : ∀ a b, piece = a ++ b → a ≠ [] → ¬ EndsLine (earlier ++ a) (b ++ after)

theorem not_endsLine_nil : ¬ EndsLine [] after := by
  simp [EndsLine]

theorem endsLine_cons_cons : EndsLine (c :: d :: cs) after ↔ EndsLine (d :: cs) after := by
  simp [EndsLine, List.getLast?_cons_cons]

theorem endsLine_singleton :
    EndsLine [c] after ↔ c = '\n' ∨ c = '\r' ∧ after.head? ≠ some '\n' := by
  simp [EndsLine]

@[simp] theorem lineEnds_nil : lineEnds [] = ∅ := by
  ext e
  simp only [lineEnds, Set.mem_ofPred_eq, Set.mem_empty_iff_false, iff_false]
  rintro ⟨before, after, hsplit, -, hends⟩
  rw [(List.append_eq_nil_iff.mp hsplit.symm).1] at hends
  exact not_endsLine_nil hends

theorem mem_lineEnds_cons : e ∈ lineEnds (c :: cs) ↔
    (EndsLine [c] cs ∧ e = c.utf8Size) ∨ ∃ n ∈ lineEnds cs, e = c.utf8Size + n := by
  constructor
  · rintro ⟨before, after, hsplit, rfl, hends⟩
    rcases before with _ | ⟨a, _ | ⟨b, bs⟩⟩
    · exact absurd hends not_endsLine_nil
    · obtain ⟨rfl, rfl⟩ := List.cons.inj hsplit
      exact .inl ⟨hends, rfl⟩
    · obtain ⟨rfl, rfl⟩ := List.cons.inj hsplit
      exact .inr ⟨size (b :: bs), ⟨b :: bs, after, rfl, rfl, endsLine_cons_cons.mp hends⟩, rfl⟩
  · rintro (⟨hends, rfl⟩ | ⟨-, ⟨before, after, rfl, rfl, hends⟩, rfl⟩)
    · exact ⟨[c], cs, rfl, rfl, hends⟩
    · cases before with
      | nil => exact absurd hends not_endsLine_nil
      | cons b bs => exact ⟨c :: b :: bs, after, rfl, rfl, endsLine_cons_cons.mpr hends⟩

theorem le_size_of_mem_lineEnds (h : e ∈ lineEnds text) : e ≤ size text := by
  obtain ⟨before, after, rfl, rfl, -⟩ := h
  rw [size_append]
  omega

theorem split_of_le {a b a' b' : List Char} (h : a ++ b = a' ++ b') (hsize : size a ≤ size a') :
    ∃ mid, a' = a ++ mid ∧ b = mid ++ b' := by
  rcases List.append_eq_append_iff.mp h with ⟨mid, ha, hb⟩ | ⟨mid, rfl, rfl⟩
  · exact ⟨mid, ha, hb⟩
  · rw [size_append] at hsize
    have hmid : mid = [] := eq_nil_of_size (by omega)
    exact ⟨[], by simp [hmid], by simp [hmid]⟩

end Text

def Position.Precedes (p q : Position) : Prop :=
  p.line < q.line ∨ p.line = q.line ∧ p.column < q.column

namespace LineMap

open Text

variable {pos e p q : Nat} {text before after : List Char}

theorem mem_startsFrom : e ∈ startsFrom pos text ↔ ∃ n ∈ lineEnds text, e = pos + n := by
  have hfeed : Char.utf8Size '\n' = 1 := rfl
  have hreturn : Char.utf8Size '\r' = 1 := rfl
  fun_induction startsFrom pos text generalizing e with
  | case1 pos => simp
  | case2 pos cs ih =>
    simp only [List.mem_cons, ih, mem_lineEnds_cons, endsLine_singleton, hfeed, hreturn]
    constructor
    · rintro (rfl | ⟨n, hn, rfl⟩)
      · exact ⟨2, .inr ⟨1, .inl (by simp), rfl⟩, rfl⟩
      · exact ⟨1 + (1 + n), .inr ⟨1 + n, .inr ⟨n, hn, rfl⟩, rfl⟩, by omega⟩
    · rintro ⟨-, (⟨hends, -⟩ | ⟨-, (⟨-, rfl⟩ | ⟨n, hn, rfl⟩), rfl⟩), rfl⟩
      · simp at hends
      · exact .inl rfl
      · exact .inr ⟨n, hn, by omega⟩
  | case3 pos c cs hpair hc ih =>
    have hends : EndsLine [c] cs := by
      rw [endsLine_singleton]
      refine hc.imp_right fun hc => ⟨hc, fun hhead => ?_⟩
      obtain ⟨rest, rfl⟩ := List.head?_eq_some_iff.mp hhead
      exact hpair rest hc rfl
    have hsize : c.utf8Size = 1 := by rcases hc with rfl | rfl <;> rfl
    simp only [List.mem_cons, ih, mem_lineEnds_cons, hends, hsize, true_and]
    constructor
    · rintro (rfl | ⟨n, hn, rfl⟩)
      · exact ⟨1, .inl rfl, rfl⟩
      · exact ⟨1 + n, .inr ⟨n, hn, rfl⟩, by omega⟩
    · rintro ⟨-, (rfl | ⟨n, hn, rfl⟩), rfl⟩
      · exact .inl rfl
      · exact .inr ⟨n, hn, by omega⟩
  | case4 pos c cs hpair hc ih =>
    have hends : ¬ EndsLine [c] cs := fun h =>
      hc ((endsLine_singleton.mp h).imp_right And.left)
    simp only [ih, mem_lineEnds_cons, hends, false_and, false_or]
    constructor
    · rintro ⟨n, hn, rfl⟩
      exact ⟨c.utf8Size + n, ⟨n, hn, rfl⟩, by omega⟩
    · rintro ⟨-, ⟨n, hn, rfl⟩, rfl⟩
      exact ⟨n, hn, by omega⟩

theorem mem_starts : e ∈ (ofText text).starts ↔ e ∈ lineEnds text := by
  simp [ofText, mem_startsFrom]

private theorem ascending_cons {n m : Nat} {xs : List Nat} (hnm : n < m)
    (h : (m :: xs).Pairwise (· < ·)) : (n :: m :: xs).Pairwise (· < ·) := by
  refine List.pairwise_cons.mpr ⟨fun x hx => ?_, h⟩
  rcases List.mem_cons.mp hx with rfl | hx
  · exact hnm
  · exact Nat.lt_trans hnm ((List.pairwise_cons.mp h).1 x hx)

theorem startsFrom_ascending : (pos :: startsFrom pos text).Pairwise (· < ·) := by
  fun_induction startsFrom pos text with
  | case1 pos => exact List.pairwise_singleton _ pos
  | case2 pos cs ih => exact ascending_cons (by omega) ih
  | case3 pos c cs hpair hc ih => exact ascending_cons (by omega) ih
  | case4 pos c cs hpair hc ih =>
    have hpos := c.utf8Size_pos
    exact (ascending_cons (by omega) ih).sublist ((List.sublist_cons_self _ _).cons_cons pos)

theorem lineOf_eq_ncard (text : List Char) (pos : Nat) :
    (ofText text).lineOf pos = {e | e ∈ lineEnds text ∧ e ≤ pos}.ncard := by
  have hascending : (ofText text).starts.Pairwise (· < ·) :=
    (List.pairwise_cons.mp startsFrom_ascending).2
  have hnodup : ((ofText text).starts.filter (· ≤ pos)).Nodup :=
    (hascending.imp Nat.ne_of_lt).filter _
  have hset : {e | e ∈ lineEnds text ∧ e ≤ pos} =
      ↑((ofText text).starts.filter (· ≤ pos)).toFinset := by
    ext e
    simp [mem_starts]
  rw [hset, Set.ncard_coe_finset, List.toFinset_card_of_nodup hnodup, lineOf,
    List.countP_eq_length_filter]

/-- In an ascending list whose first entry is not behind `pos`, the entry at the number of the
others that are not behind it is the last such entry. -/
private theorem isGreatest_getD {s : Nat} {ss : List Nat} (h : (s :: ss).Pairwise (· < ·))
    (hs : s ≤ pos) :
    IsGreatest {e | e ∈ s :: ss ∧ e ≤ pos} ((s :: ss).getD (ss.countP (· ≤ pos)) 0) := by
  induction ss generalizing s with
  | nil =>
    refine ⟨⟨List.mem_singleton_self s, hs⟩, fun e he => ?_⟩
    exact (List.mem_singleton.mp he.1).le
  | cons t ts ih =>
    obtain ⟨hlt, htail⟩ := List.pairwise_cons.mp h
    by_cases ht : t ≤ pos
    · rw [List.countP_cons_of_pos (by simpa using ht), List.getD_cons_succ]
      obtain ⟨⟨hmem, hle⟩, hgreatest⟩ := ih htail ht
      refine ⟨⟨List.mem_cons_of_mem s hmem, hle⟩, fun e ⟨he, hepos⟩ => ?_⟩
      rcases List.mem_cons.mp he with rfl | he
      · exact (hlt _ hmem).le
      · exact hgreatest ⟨he, hepos⟩
    · have hnone : (t :: ts).countP (· ≤ pos) = 0 := by
        apply List.countP_eq_zero.mpr
        intro e he
        rcases List.mem_cons.mp he with rfl | he
        · simpa using ht
        · have hte := (List.pairwise_cons.mp htail).1 e he
          simp only [decide_eq_true_eq]
          omega
      rw [hnone, List.getD_cons_zero]
      refine ⟨⟨List.mem_cons_self, hs⟩, fun e ⟨he, hepos⟩ => ?_⟩
      rcases List.mem_cons.mp he with rfl | he
      · exact Nat.le_refl e
      · exact absurd (by simpa using hepos) (List.countP_eq_zero.mp hnone e he)

/-- The start of the line of a position is the last place up to it where a terminator ends, or else
the start of the text. -/
theorem isGreatest_startOf (text : List Char) (pos : Nat) :
    IsGreatest {e | (e = 0 ∨ e ∈ lineEnds text) ∧ e ≤ pos}
      ((ofText text).startOf ((ofText text).lineOf pos)) := by
  have hascending : (0 :: (ofText text).starts).Pairwise (· < ·) := startsFrom_ascending
  have h := isGreatest_getD hascending (Nat.zero_le pos)
  simp only [List.mem_cons, mem_starts] at h
  exact h

theorem exists_start (text : List Char) (pos : Nat) :
    ∃ earlier rest, text = earlier ++ rest ∧ (earlier = [] ∨ EndsLine earlier rest) ∧
      (ofText text).startOf ((ofText text).lineOf pos) = size earlier := by
  rcases (isGreatest_startOf text pos).1.1 with hzero | ⟨earlier, rest, hsplit, hsize, hends⟩
  · exact ⟨[], text, rfl, .inl rfl, hzero⟩
  · exact ⟨earlier, rest, hsplit, .inr hends, hsize⟩

theorem column_eq_length {earlier piece : List Char} (htext : text = earlier ++ piece ++ after)
    (hpos : pos = size (earlier ++ piece))
    (h : (ofText text).startOf ((ofText text).lineOf pos) = size earlier) :
    ((ofText text).position pos).column = piece.length := by
  have hstop : min pos (size text) - size earlier = size piece := by
    simp only [hpos, htext, size_append]
    omega
  have hcut : (dropBytes? (size earlier) text).bind (takeBytes? (size piece)) = some piece := by
    rw [htext, List.append_assoc, dropBytes?_append, Option.bind_some, takeBytes?_append]
  have htext' : (ofText text).text = text := rfl
  simp only [position, h, htext', hstop, hcut]

/-- Between two characters, the line map counts the characters of the front of a line. -/
theorem exists_lineFront (before after : List Char) :
    ∃ earlier piece, before = earlier ++ piece ∧ LineFront earlier piece after ∧
      ((ofText (before ++ after)).position (size before)).column = piece.length := by
  obtain ⟨⟨-, hle⟩, hgreatest⟩ := isGreatest_startOf (before ++ after) (size before)
  obtain ⟨earlier, rest, hsplit, hends, hstart⟩ := exists_start (before ++ after) (size before)
  rw [hstart] at hle hgreatest
  obtain ⟨piece, rfl, rfl⟩ := split_of_le hsplit.symm hle
  refine ⟨earlier, piece, rfl, ⟨hends, ?_⟩,
    column_eq_length rfl rfl hstart⟩
  rintro a b rfl hne hbroken
  -- a terminator inside the piece would be a later start
  have hlater : size (earlier ++ a) ≤ size earlier := by
    refine hgreatest ⟨.inr ⟨earlier ++ a, b ++ after, by simp, rfl, hbroken⟩, ?_⟩
    simp only [size_append]
    omega
  apply hne
  apply eq_nil_of_size
  rw [size_append] at hlater
  omega

theorem position_of_size_le (h : size text ≤ pos) :
    (ofText text).position pos = (ofText text).position (size text) := by
  have hline : (ofText text).lineOf pos = (ofText text).lineOf (size text) := by
    apply List.countP_congr
    intro e he
    have hend := le_size_of_mem_lineEnds (mem_starts.mp he)
    simp only [decide_eq_true_eq]
    omega
  have hstop : min pos (size (ofText text).text) = min (size text) (size (ofText text).text) := by
    change min pos (size text) = min (size text) (size text)
    omega
  simp only [position, hline, hstop]

theorem lineOf_le (text : List Char) (h : p ≤ q) :
    (ofText text).lineOf p ≤ (ofText text).lineOf q := by
  apply List.countP_mono_left
  intro e _ he
  simp only [decide_eq_true_eq] at he ⊢
  omega

theorem position_precedes (hp : IsBoundary text p) (hq : IsBoundary text q) (hpq : p < q) :
    ((ofText text).position p).Precedes ((ofText text).position q) := by
  rcases Nat.lt_or_eq_of_le (lineOf_le text hpq.le) with hline | hline
  · exact .inl hline
  · refine .inr ⟨hline, ?_⟩
    obtain ⟨earlier, rest, hsplit, -, hstart⟩ := exists_start text p
    have hle := (isGreatest_startOf text p).1.2
    rw [hstart] at hle
    obtain ⟨before, after, hbefore, rfl⟩ := hp
    obtain ⟨before', after', hbefore', rfl⟩ := hq
    obtain ⟨piece, rfl, -⟩ := split_of_le (hsplit.symm.trans hbefore) hle
    obtain ⟨mid, rfl, rfl⟩ := split_of_le (hbefore.symm.trans hbefore') hpq.le
    have hmid : mid ≠ [] := by
      rintro rfl
      simp at hpq
    have hcolumn := column_eq_length hbefore rfl hstart
    rw [hline] at hstart
    have hwhole : text = earlier ++ (piece ++ mid) ++ after' := by simp [hbefore]
    have hcolumn' := column_eq_length hwhole (by simp) hstart
    rw [hcolumn, hcolumn', List.length_append]
    have hpos := List.length_pos_iff.mpr hmid
    omega

end LineMap

end Lumen
