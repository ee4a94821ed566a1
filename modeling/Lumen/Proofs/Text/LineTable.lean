import Lumen.Proofs.Text.Lines
import Lumen.Text.LineTable

/-!
# The line table answers as the line map does

No byte of a character other than the two that end lines has the value of one of these, so one pass
over the bytes finds the starts that the characters have. The starts of a text of less than 2 ^ 32
bytes are kept as they are, hence in ascending order, and a search by halving keeps this invariant:
what is below the window is not behind the value sought, what is above it is. The first start is
that of the text, so the search never ends before it.
-/

namespace Lumen

open Text

namespace Text

variable {c : Char} {cs text : List Char}

theorem plain_of_mem_utf8EncodeChar (hfeed : c ≠ '\n') (hreturn : c ≠ '\r') :
    ∀ b ∈ String.utf8EncodeChar c, b ≠ 10 ∧ b ≠ 13 := by
  intro b hb
  constructor
  · rintro rfl
    exact hfeed (eq_of_mem_utf8EncodeChar (a := '\n') (by decide) hb)
  · rintro rfl
    exact hreturn (eq_of_mem_utf8EncodeChar (a := '\r') (by decide) hb)

theorem eq_cons_of_bytes_eq {bs : List UInt8} (h : bytes cs = 10 :: bs) :
    ∃ rest, cs = '\n' :: rest := by
  have hhead : (bytes cs).head? = some '\n'.toUInt8 := by
    rw [h]
    rfl
  exact List.head?_eq_some_iff.mp ((head?_bytes_eq_some (by decide)).mp hhead)

theorem length_le_of_takeBytes? {n : Nat} (h : takeBytes? n text = some cs) : cs.length ≤ n := by
  fun_induction takeBytes? n text generalizing cs with
  | case1 => simp_all
  | case2 => simp_all
  | case3 => simp_all
  | case4 n c rest hn hc ih =>
    obtain ⟨taken, htaken, rfl⟩ := Option.map_eq_some_iff.mp h
    have hlength := ih htaken
    have hpos := c.utf8Size_pos
    rw [List.length_cons]
    omega
  | case5 => cases h

end Text

namespace Slot

/-- The number of slots up to where a search ends, the one with the value included. -/
def behind : Slot → Nat
  | found i => i + 1
  | missing i => i

/-- The slots up to where a search ends have the values that are not behind the one sought. -/
theorem search_cuts {xs : Array UInt32} (x : UInt32) (lo hi : Nat) (hhi : hi ≤ xs.size)
    (hxs : ∀ i j (hi : i < xs.size) (hj : j < xs.size), i < j → xs[i] < xs[j])
    (hlo : lo ≤ hi)
    (hbelow : ∀ j (hj : j < xs.size), j < lo → xs[j] ≤ x)
    (habove : ∀ j (hj : j < xs.size), hi ≤ j → x < xs[j]) :
    (search xs x lo hi hhi).behind ≤ xs.size ∧
      (∀ j (hj : j < xs.size), j < (search xs x lo hi hhi).behind → xs[j] ≤ x) ∧
      ∀ j (hj : j < xs.size), (search xs x lo hi hhi).behind ≤ j → x < xs[j] := by
  fun_induction search xs x lo hi hhi with
  | case1 lo hi hhi h mid hmid hx =>
    have hsize : mid < xs.size := by omega
    simp only [behind]
    refine ⟨hsize, fun j hj hle => ?_, fun j hj hlt => hx ▸ hxs mid j hsize hj hlt⟩
    rcases Nat.lt_or_eq_of_le (Nat.le_of_lt_succ hle) with hlt | rfl
    · exact hx ▸ UInt32.le_of_lt (hxs j mid hj hsize hlt)
    · exact UInt32.le_of_eq hx
  | case2 lo hi hhi h mid hmid hne hlt ih =>
    have hsize : mid < xs.size := by omega
    refine ih (by omega) (fun j hj hle => ?_) habove
    rcases Nat.lt_or_eq_of_le (Nat.le_of_lt_succ hle) with hbefore | rfl
    · exact UInt32.le_of_lt (UInt32.lt_trans (hxs j mid hj hsize hbefore) hlt)
    · exact UInt32.le_of_lt hlt
  | case3 lo hi hhi h mid hmid hne hlt ih =>
    have hsize : mid < xs.size := by omega
    have hgt : x < xs[mid] :=
      UInt32.lt_of_le_of_ne (UInt32.not_lt.mp hlt) fun heq => hne heq.symm
    refine ih (by omega) hbelow fun j hj hle => ?_
    rcases Nat.lt_or_eq_of_le hle with hafter | rfl
    · exact UInt32.lt_trans hgt (hxs mid j hsize hj hafter)
    · exact hgt
  | case4 lo hi hhi h =>
    exact ⟨by simp only [behind]; omega, hbelow, fun j hj hle => habove j hj (by
      simp only [behind] at hle; omega)⟩

end Slot

namespace LineTable

variable {i : Nat} {text : List Char}

theorem startsFrom_append {bs rest : List UInt8} (h : ∀ b ∈ bs, b ≠ 10 ∧ b ≠ 13) :
    startsFrom i (bs ++ rest) = startsFrom (i + bs.length) rest := by
  induction bs generalizing i with
  | nil => rfl
  | cons b bs ih =>
    have hb := h b List.mem_cons_self
    rw [List.cons_append, startsFrom, if_neg (by simp [hb]), ih fun b hb => h b (.tail _ hb),
      List.length_cons, Nat.add_assoc, Nat.add_comm 1]
    intro _ h13
    exact absurd h13 hb.2

theorem startsFrom_bytes (i : Nat) (text : List Char) :
    startsFrom i (bytes text) = (LineMap.startsFrom i text).map UInt32.ofNat := by
  fun_induction LineMap.startsFrom i text with
  | case1 i => rfl
  | case2 i cs ih =>
    rw [List.map_cons, ← ih]
    rfl
  | case3 i c cs hpair hc ih =>
    rw [List.map_cons, ← ih]
    rcases hc with rfl | rfl
    · change startsFrom i (10 :: bytes cs) = _
      rw [startsFrom, if_pos (.inl rfl)]
      intro _ h
      cases h
    · change startsFrom i (13 :: bytes cs) = _
      rw [startsFrom, if_pos (.inr rfl)]
      intro bs _ h
      obtain ⟨rest, rfl⟩ := eq_cons_of_bytes_eq h
      exact hpair rest rfl rfl
  | case4 i c cs hpair hc ih =>
    have hplain := plain_of_mem_utf8EncodeChar (mt .inl hc) (mt .inr hc)
    rw [bytes_cons, startsFrom_append hplain, String.length_utf8EncodeChar, ih]

theorem toList_starts (text : List Char) :
    (ofText text).starts.toList = (0 :: (LineMap.ofText text).starts).map UInt32.ofNat := by
  rw [List.map_cons, LineMap.ofText, ← startsFrom_bytes]
  rfl

theorem map_toNat_starts (h : size text < 2 ^ 32) :
    (ofText text).starts.toList.map UInt32.toNat = 0 :: (LineMap.ofText text).starts := by
  rw [toList_starts, List.map_map]
  have hsame : ∀ e ∈ 0 :: (LineMap.ofText text).starts, (UInt32.toNat ∘ UInt32.ofNat) e = e := by
    intro e he
    have hle : e ≤ size text := by
      rcases List.mem_cons.mp he with rfl | he
      · exact Nat.zero_le _
      · exact le_size_of_mem_lineEnds (LineMap.mem_starts.mp he)
    exact UInt32.toNat_ofNat_of_lt' (Nat.lt_of_le_of_lt hle h)
  rw [List.map_congr_left hsame, List.map_id']

theorem starts_ascending (h : size text < 2 ^ 32) (i j : Nat)
    (hi : i < (ofText text).starts.size) (hj : j < (ofText text).starts.size) (hij : i < j) :
    (ofText text).starts[i] < (ofText text).starts[j] := by
  have hascending : ((ofText text).starts.toList.map UInt32.toNat).Pairwise (· < ·) := by
    rw [map_toNat_starts h]
    exact LineMap.startsFrom_ascending
  rw [List.pairwise_map, List.pairwise_iff_getElem] at hascending
  exact hascending i j hi hj hij

private theorem countP_eq_of_cut {α : Type} {xs : List α} {chosen : α → Bool} {n : Nat}
    (hn : n ≤ xs.length) (hfront : ∀ j (hj : j < xs.length), j < n → chosen xs[j])
    (hback : ∀ j (hj : j < xs.length), n ≤ j → ¬ chosen xs[j]) : xs.countP chosen = n := by
  have htake : (xs.take n).countP chosen = (xs.take n).length := by
    apply List.countP_eq_length.mpr
    intro a ha
    obtain ⟨j, hj, rfl⟩ := List.mem_iff_getElem.mp ha
    rw [List.length_take] at hj
    rw [List.getElem_take]
    exact hfront j (by omega) (by omega)
  have hdrop : (xs.drop n).countP chosen = 0 := by
    apply List.countP_eq_zero.mpr
    intro a ha
    obtain ⟨j, hj, rfl⟩ := List.mem_iff_getElem.mp ha
    rw [List.length_drop] at hj
    rw [List.getElem_drop]
    exact hback (n + j) (by omega) (by omega)
  rw [← List.take_append_drop n xs, List.countP_append, htake, hdrop, List.length_take]
  omega

theorem behind_search (h : size text < 2 ^ 32) (pos : UInt32) :
    (Slot.search (ofText text).starts pos 0 (ofText text).starts.size (Nat.le_refl _)).behind =
      (LineMap.ofText text).lineOf pos.toNat + 1 := by
  obtain ⟨hle, hfront, hback⟩ := Slot.search_cuts pos 0 (ofText text).starts.size
    (Nat.le_refl _) (starts_ascending h) (Nat.zero_le _)
    (fun j _ hj => absurd hj (Nat.not_lt_zero j)) (fun j hj hle => absurd hj (Nat.not_lt.mpr hle))
  have hcount : ((ofText text).starts.toList.map UInt32.toNat).countP (· ≤ pos.toNat) =
      (LineMap.ofText text).lineOf pos.toNat + 1 := by
    rw [map_toNat_starts h, List.countP_cons_of_pos (by simp), LineMap.lineOf]
  rw [← hcount, List.countP_map]
  refine (countP_eq_of_cut hle (fun j hj hlt => ?_) (fun j hj hle => ?_)).symm
  · simpa [UInt32.le_iff_toNat_le] using hfront j hj hlt
  · simpa [UInt32.lt_iff_toNat_lt] using hback j hj hle

theorem lineOf?_ofText (h : size text < 2 ^ 32) (pos : UInt32) :
    (ofText text).lineOf? pos = some (UInt32.ofNat ((LineMap.ofText text).lineOf pos.toNat)) := by
  have hbehind := behind_search h pos
  unfold lineOf?
  split
  next i hslot =>
    rw [hslot] at hbehind
    rw [Nat.succ.inj hbehind]
  next hslot =>
    rw [hslot] at hbehind
    cases hbehind
  next i hslot =>
    rw [hslot] at hbehind
    rw [Nat.succ.inj hbehind]

theorem lineOf_le_size (text : List Char) (pos : Nat) :
    (LineMap.ofText text).lineOf pos ≤ size text := by
  have hlength : ∀ i, (LineMap.startsFrom i text).length ≤ size text := by
    intro i
    fun_induction LineMap.startsFrom i text with
    | case1 => exact Nat.le_refl 0
    | case2 i cs ih =>
      rw [List.length_cons, size_cons, size_cons]
      have hpos := Char.utf8Size_pos '\r'
      omega
    | case3 i c cs _ _ ih =>
      rw [List.length_cons, size_cons]
      have hpos := c.utf8Size_pos
      omega
    | case4 i c cs _ _ ih =>
      rw [size_cons]
      omega
  exact Nat.le_trans List.countP_le_length (hlength 0)

theorem startOf_le_size (text : List Char) (pos : Nat) :
    (LineMap.ofText text).startOf ((LineMap.ofText text).lineOf pos) ≤ size text := by
  rcases (LineMap.isGreatest_startOf text pos).1.1 with hzero | hmem
  · rw [hzero]
    exact Nat.zero_le _
  · exact le_size_of_mem_lineEnds hmem

theorem column_le_size (text : List Char) (pos : Nat) :
    ((LineMap.ofText text).position pos).column ≤ size text := by
  have hstop : min pos (size (LineMap.ofText text).text) ≤ size text := Nat.min_le_right ..
  simp only [LineMap.position]
  split
  next cs hcut =>
    obtain ⟨rest, -, htake⟩ := Option.bind_eq_some_iff.mp hcut
    exact Nat.le_trans (length_le_of_takeBytes? htake) (Nat.le_trans (Nat.sub_le ..) hstop)
  next => exact Nat.le_trans (Nat.sub_le ..) hstop

theorem getElem?_starts (text : List Char) (pos : Nat) :
    (ofText text).starts[(LineMap.ofText text).lineOf pos]? =
      some (UInt32.ofNat ((LineMap.ofText text).startOf ((LineMap.ofText text).lineOf pos))) := by
  have hlength : (LineMap.ofText text).lineOf pos < (0 :: (LineMap.ofText text).starts).length := by
    rw [List.length_cons]
    exact Nat.lt_succ_of_le List.countP_le_length
  rw [← Array.getElem?_toList, toList_starts, List.getElem?_map, List.getElem?_eq_getElem hlength,
    LineMap.startOf, List.getD_eq_getElem?_getD, List.getElem?_eq_getElem hlength,
    Option.map_some, Option.getD_some]

/-- No step of looking a position up is without result, and the answer is that of the line map. -/
theorem position?_ofText (h : size text < 2 ^ 32) (pos : UInt32) :
    (ofText text).position? text pos = some ((LineMap.ofText text).position pos.toNat) := by
  have hword : ∀ n, n ≤ size text → (UInt32.ofNat n).toNat = n := fun n hn =>
    UInt32.toNat_ofNat_of_lt' (Nat.lt_of_le_of_lt hn h)
  have hline := hword _ (lineOf_le_size text pos.toNat)
  have hstart := hword _ (startOf_le_size text pos.toNat)
  have hcolumn := hword _ (column_le_size text pos.toNat)
  have hslot := getElem?_starts text pos.toNat
  have hordered : (LineMap.ofText text).startOf ((LineMap.ofText text).lineOf pos.toNat) ≤
      min pos.toNat (size text) :=
    Nat.le_min.mpr ⟨(LineMap.isGreatest_startOf text pos.toNat).1.2, startOf_le_size text pos.toNat⟩
  have htext : (LineMap.ofText text).text = text := rfl
  simp only [LineMap.position, htext] at hcolumn
  simp only [position?, lineOf?_ofText h, Option.bind_eq_bind, Option.bind_some, hline, hslot,
    hstart, if_pos hordered, LineMap.position, htext]
  rw [Option.some.injEq, Position.mk.injEq]
  exact ⟨rfl, hcolumn⟩

/-- The lines and columns of a text of less than 2 ^ 32 bytes are right and in order. No step of
looking a position up is without result. The line of a position is the number of terminators that
end up to it. Between two characters its column is the number of characters since the start of the
line; past the end of the text the answer is that of the end; and of two places between characters
the earlier one has the earlier line and column. -/
theorem locates (h : size text < 2 ^ 32) :
    (∀ pos : UInt32,
      ((ofText text).lineOf? pos).map UInt32.toNat =
          some {e | e ∈ lineEnds text ∧ e ≤ pos.toNat}.ncard ∧
        (ofText text).position? text pos = some ((LineMap.ofText text).position pos.toNat) ∧
        ((LineMap.ofText text).position pos.toNat).line =
          {e | e ∈ lineEnds text ∧ e ≤ pos.toNat}.ncard) ∧
    (∀ before after, text = before ++ after →
      ∃ earlier piece, before = earlier ++ piece ∧ LineFront earlier piece after ∧
        ((LineMap.ofText text).position (size before)).column = piece.length) ∧
    (∀ pos, size text ≤ pos →
      (LineMap.ofText text).position pos = (LineMap.ofText text).position (size text)) ∧
    ∀ p q, IsBoundary text p → IsBoundary text q → p < q →
      ((LineMap.ofText text).position p).Precedes ((LineMap.ofText text).position q) := by
  refine ⟨fun pos => ⟨?_, position?_ofText h pos, LineMap.lineOf_eq_ncard text pos.toNat⟩, ?_,
    fun pos => LineMap.position_of_size_le, fun p q => LineMap.position_precedes⟩
  · rw [lineOf?_ofText h, Option.map_some, ← LineMap.lineOf_eq_ncard]
    have hline := lineOf_le_size text pos.toNat
    rw [UInt32.toNat_ofNat_of_lt' (Nat.lt_of_le_of_lt hline h)]
  · rintro before after rfl
    exact LineMap.exists_lineFront before after

/-- A character of two bytes, and lines that end in two ways: the last line starts at the sixth
byte, and the place inside the first terminator is still on the first line. -/
theorem locates_of_two_terminators :
    size ['é', '\r', '\n', 'b', '\r', 'c'] < 2 ^ 32 ∧
    (ofText ['é', '\r', '\n', 'b', '\r', 'c']).position? ['é', '\r', '\n', 'b', '\r', 'c'] 6 =
      some ⟨2, 0⟩ ∧
    ({e | e ∈ lineEnds ['é', '\r', '\n', 'b', '\r', 'c'] ∧ e ≤ 3} : Set Nat).ncard = 0 ∧
    ((LineMap.ofText ['é', '\r', '\n', 'b', '\r', 'c']).position 3).Precedes
      ((LineMap.ofText ['é', '\r', '\n', 'b', '\r', 'c']).position 4) := by
  have hsize : size ['é', '\r', '\n', 'b', '\r', 'c'] < 2 ^ 32 := by decide
  obtain ⟨hline, -, -, hordered⟩ := locates hsize
  refine ⟨hsize, (hline 6).2.1.trans (by decide), (hline 3).2.2.symm.trans (by decide), ?_⟩
  refine hordered 3 4 ⟨['é', '\r'], ['\n', 'b', '\r', 'c'], rfl, rfl⟩ ?_ (by decide)
  exact ⟨['é', '\r', '\n'], ['b', '\r', 'c'], rfl, rfl⟩

end LineTable

end Lumen
