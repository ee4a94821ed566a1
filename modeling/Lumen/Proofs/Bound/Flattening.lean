import Lumen.Bound.Passes
import Lumen.Proofs.Bound.Jumps

/-!
# Flat code is lowered to itself

A statement is plain if nothing but blocks stands around other statements in it. A plain statement
is lowered to the statements in it that are no blocks, in their order, and the two passes of
lowering are seen apart: the first one makes every statement plain, and the stack of the second one
puts the statements out in order. Lowered code has no statement inside another one, so lowering it
again changes nothing.
-/

namespace Lumen.Bound.Stmt

@[simp] theorem partsOfList_eq_flatMap (ss : List Stmt) : partsOfList ss = ss.flatMap parts := by
  induction ss with
  | nil => rfl
  | cons s ss ih => rw [partsOfList, ih, List.flatMap_cons]

/-- Whether nothing but blocks stands around other statements. -/
def Plain (s : Stmt) : Prop := ∀ t ∈ s.parts, t.kind = .block ∨ t.Flat

/-- The statements inside a statement that are no blocks, from left to right. -/
def pieces (s : Stmt) : List Stmt := s.parts.filter (·.kind ≠ .block)

@[simp] theorem plain_block {body : List Stmt} : (block body).Plain ↔ ∀ s ∈ body, s.Plain := by
  simp only [Plain, parts, partsOfList_eq_flatMap, List.forall_mem_cons, List.forall_mem_flatMap]
  exact and_iff_right (.inl rfl)

@[simp] theorem pieces_block (body : List Stmt) : (block body).pieces = body.flatMap pieces := by
  rw [pieces, parts, partsOfList_eq_flatMap, List.filter_cons_of_neg (by simp [kind]),
    List.filter_flatMap]
  rfl

section

variable {s : Stmt} {l : Label}

@[simp] theorem flat_declaration (v : Variable) (e : Expr) : (declaration v e).Flat := trivial

@[simp] theorem flat_expression (e : Expr) : (expression e).Flat := trivial

@[simp] theorem flat_jump : (jump l).Flat := trivial

@[simp] theorem flat_jumpIf (c : Expr) (onFalse : Bool) : (jumpIf l c onFalse).Flat := trivial

@[simp] theorem flat_label : (label l).Flat := trivial

theorem parts_of_flat (h : s.Flat) : s.parts = [s] := by
  cases s with
  | declaration | expression | jump | jumpIf | label => rfl
  | block | ifThen | ifElse | whileLoop | forLoop => exact h.elim

@[simp] theorem Flat.plain (h : s.Flat) : s.Plain := by
  rw [Plain, parts_of_flat h]
  exact List.forall_mem_singleton.mpr (.inr h)

@[simp] theorem pieces_of_flat (h : s.Flat) : s.pieces = [s] := by
  rw [pieces, parts_of_flat h]
  cases s with
  | declaration | expression | jump | jumpIf | label => rfl
  | block | ifThen | ifElse | whileLoop | forLoop => exact h.elim

theorem flatMap_pieces_of_flat {ss : List Stmt} (h : ∀ s ∈ ss, s.Flat) : ss.flatMap pieces = ss := by
  rw [List.flatMap_congr fun s hs => pieces_of_flat (h s hs), List.flatMap_singleton']

theorem Plain.cases (h : s.Plain) : s.Flat ∨ ∃ body, s = block body ∧ ∀ t ∈ body, t.Plain := by
  have htop : s.kind = .block ∨ s.Flat := h s (by cases s <;> simp [parts])
  rcases htop with hblock | hflat
  · cases s with
    | block body => exact .inr ⟨body, rfl, plain_block.mp h⟩
    | declaration | expression | ifThen | ifElse | whileLoop | forLoop | jump | jumpIf | label =>
      cases hblock
  · exact .inl hflat

end

/-- Taking blocks apart with a stack puts out the pieces of what is on it, from its top on. -/
theorem flattenOnto_eq (out stack : List Stmt) (h : ∀ s ∈ stack, s.Plain) :
    flattenOnto out stack = out ++ stack.flatMap pieces := by
  induction out, stack using flattenOnto.induct with
  | case1 out => rw [flattenOnto, List.flatMap_nil, List.append_nil]
  -- a plain block on top goes over into its statements, which are plain again
  | case2 out body stack ih =>
    obtain ⟨hblock, hstack⟩ := List.forall_mem_cons.mp h
    rw [pushBlock_eq] at ih
    rw [flattenOnto, pushBlock_eq, ih (List.forall_mem_append.mpr ⟨plain_block.mp hblock, hstack⟩),
      List.flatMap_append, List.flatMap_cons, pieces_block]
  | case3 out s stack hblock ih =>
    obtain ⟨hs, hstack⟩ := List.forall_mem_cons.mp h
    have hflat : s.Flat := hs.cases.resolve_right fun ⟨body, heq, _⟩ => hblock body heq
    rw [flattenOnto.eq_3 out s stack hblock, ih hstack, List.flatMap_cons, pieces_of_flat hflat,
      List.append_assoc]

mutual

theorem lowerFrom_of_plain : ∀ {s : Stmt} (k : Nat), s.Plain → s.lowerFrom k = s.pieces
  | block body, k, h => by
    rw [lowerFrom, lowerList_of_plain k (plain_block.mp h), pieces_block]
  | declaration .., _, _ => rfl
  | expression _, _, _ => rfl
  | ifThen c s, _, h => by simpa [Flat, kind] using h _ List.mem_cons_self
  | ifElse c s t, _, h => by simpa [Flat, kind] using h _ List.mem_cons_self
  | whileLoop c s, _, h => by simpa [Flat, kind] using h _ List.mem_cons_self
  | forLoop v lower upper s, _, h => by simpa [Flat, kind] using h _ List.mem_cons_self
  | jump _, _, _ => rfl
  | jumpIf .., _, _ => rfl
  | label _, _, _ => rfl

theorem lowerList_of_plain : ∀ {ss : List Stmt} (k : Nat), (∀ s ∈ ss, s.Plain) →
    lowerList k ss = ss.flatMap pieces
  | [], _, _ => rfl
  | s :: ss, k, h => by
    obtain ⟨hs, hss⟩ := List.forall_mem_cons.mp h
    rw [lowerList, lowerFrom_of_plain k hs, lowerList_of_plain _ hss, List.flatMap_cons]

end

mutual

/-- The first pass draws the labels of a statement and makes a plain one, whose pieces are the flat
form. -/
theorem toJumps_spec : ∀ (s : Stmt) (k : Nat), (s.toJumps k).2 = k + s.labelCount ∧
    (s.toJumps k).1.Plain ∧ (s.toJumps k).1.pieces = s.lowerFrom k
  | block body, k => by
    obtain ⟨hcount, hplain, hpieces⟩ := toJumpsOfList_spec body k
    rw [toJumps_block]
    refine ⟨hcount, plain_block.mpr hplain, ?_⟩
    rw [pieces_block, hpieces, lowerFrom]
  | declaration v e, k => ⟨rfl, Flat.plain trivial, rfl⟩
  | expression e, k => ⟨rfl, Flat.plain trivial, rfl⟩
  | ifThen c s, k => by
    obtain ⟨hcount, hplain, hpieces⟩ := toJumps_spec s (k + 1)
    rw [toJumps_ifThen]
    refine ⟨?_, ?_, ?_⟩
    · rw [hcount, labelCount, Nat.add_assoc]
    · simp [hplain]
    · simp [hpieces, lowerFrom]
  | ifElse c s t, k => by
    obtain ⟨hcount, hplain, hpieces⟩ := toJumps_spec s (k + 2)
    obtain ⟨hcount', hplain', hpieces'⟩ := toJumps_spec t (k + 2 + s.labelCount)
    rw [toJumps_ifElse, hcount]
    refine ⟨?_, ?_, ?_⟩
    · rw [hcount', labelCount, Nat.add_assoc, Nat.add_assoc, Nat.add_assoc]
    · simp [hplain, hplain']
    · simp [hpieces, hpieces', lowerFrom]
  | whileLoop c s, k => by
    obtain ⟨hcount, hplain, hpieces⟩ := toJumps_spec s (k + 3)
    rw [toJumps_whileLoop]
    refine ⟨?_, ?_, ?_⟩
    · rw [hcount, labelCount, Nat.add_assoc]
    · simp [loopBlock, hplain]
    · simp [loopBlock, hpieces, lowerFrom, loop]
  | forLoop v lo hi s, k => by
    obtain ⟨hcount, hplain, hpieces⟩ := toJumps_spec s (k + 3)
    rw [toJumps_forLoop]
    refine ⟨?_, ?_, ?_⟩
    · rw [hcount, labelCount, Nat.add_assoc]
    · simp [loopBlock, increment, hplain]
    · simp [loopBlock, increment, hpieces, lowerFrom, loop]
  | jump l, k => ⟨rfl, Flat.plain trivial, rfl⟩
  | jumpIf l c onFalse, k => ⟨rfl, Flat.plain trivial, rfl⟩
  | label l, k => ⟨rfl, Flat.plain trivial, rfl⟩

theorem toJumpsOfList_spec : ∀ (ss : List Stmt) (k : Nat),
    (toJumpsOfList ss k).2 = k + labelCountOfList ss ∧ (∀ t ∈ (toJumpsOfList ss k).1, t.Plain) ∧
      (toJumpsOfList ss k).1.flatMap pieces = lowerList k ss
  | [], _ => ⟨rfl, List.forall_mem_nil _, rfl⟩
  | s :: ss, k => by
    obtain ⟨hcount, hplain, hpieces⟩ := toJumps_spec s k
    obtain ⟨hcount', hplain', hpieces'⟩ := toJumpsOfList_spec ss (k + s.labelCount)
    rw [toJumpsOfList_cons, hcount]
    refine ⟨?_, List.forall_mem_cons.mpr ⟨hplain, hplain'⟩, ?_⟩
    · rw [hcount', labelCountOfList, Nat.add_assoc]
    · rw [List.flatMap_cons, hpieces, hpieces', lowerList]

end

theorem lowerInPasses_eq (s : Stmt) : s.lowerInPasses = s.lower := by
  obtain ⟨-, hplain, hpieces⟩ := toJumps_spec s 0
  rw [lowerInPasses, flattenOnto_eq [] _ (List.forall_mem_singleton.mpr hplain), List.nil_append,
    List.flatMap_singleton, hpieces, lower]

/-- Lowering is stable on flat code: it takes the blocks of a plain statement apart, keeps what is in
them as it is and in its order, and gives lowered code back unchanged. -/
theorem lower_stable (s : Stmt) :
    s.lowerInPasses = s.lower ∧
      ((∀ t ∈ s.parts, t.kind = .block ∨ t.Flat) → s.lower = s.parts.filter (·.kind ≠ .block)) ∧
        (block s.lower).lower = s.lower := by
  refine ⟨lowerInPasses_eq s, lowerFrom_of_plain 0, ?_⟩
  have hflat : ∀ t ∈ s.lower, t.Flat := flat_lowerFrom s 0
  have hplain : (block s.lower).Plain := plain_block.mpr fun t ht => (hflat t ht).plain
  rw [lower, lowerFrom_of_plain 0 hplain, pieces_block, flatMap_pieces_of_flat hflat]

/-- The statements of blocks in blocks come out as they are, the label among them too. -/
theorem lower_stable_of_nested_blocks :
    let x : Variable := ⟨1, "x", .int, false⟩
    let again : Label := ⟨"again"⟩
    let back : Stmt := block [jumpIf again (.literal (.bool true)) false, block []]
    let s : Stmt := block [label again, block [declaration x (.literal (.int 1)), back],
      expression (.variable x), jump again]
    (∀ t ∈ s.parts, t.kind = .block ∨ t.Flat) ∧
      s.lower = [label again, declaration x (.literal (.int 1)),
        jumpIf again (.literal (.bool true)) false, expression (.variable x), jump again] := by
  intro x again back s
  have hs : ∀ t ∈ s.parts, t.kind = .block ∨ t.Flat := by
    simp [s, back, parts, kind]
  obtain ⟨-, hlower, -⟩ := lower_stable s
  exact ⟨hs, hlower hs⟩

end Lumen.Bound.Stmt
