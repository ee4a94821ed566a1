import Lumen.Proofs.Bound.Writes

/-!
# Jumps of lowered code

A piece of code is aimed between labels before it and behind it if each of its jumps leads to one of
its own labels or to one of those: the check of a loop, which jumps when its condition holds, to a
label before it, and every other jump to a label behind it. Code that is put together from aimed
pieces is aimed. The flat form of a structured statement is aimed by itself, and its checks are
those of the loops of the statement.
-/

namespace Lumen.Bound.Stmt

def destination? : Stmt → Option Label
  | jump l => some l
  | jumpIf l _ _ => some l
  | _ => none

/-- The condition of a jump that is taken when its condition holds. -/
def check? : Stmt → Option Expr
  | jumpIf _ c onFalse => if onFalse then none else some c
  | _ => none

def isIfThen : Stmt → Bool
  | ifThen .. => true
  | _ => false

def isIfElse : Stmt → Bool
  | ifElse .. => true
  | _ => false

def isLoop : Stmt → Bool
  | whileLoop .. => true
  | forLoop .. => true
  | _ => false

mutual

/-- A statement and all statements inside it, each before its own parts. -/
def parts : Stmt → List Stmt
  | block body => block body :: partsOfList body
  | ifThen c s => ifThen c s :: s.parts
  | ifElse c s t => ifElse c s t :: (s.parts ++ t.parts)
  | whileLoop c s => whileLoop c s :: s.parts
  | forLoop v lower upper s => forLoop v lower upper s :: s.parts
  | s => [s]

def partsOfList : List Stmt → List Stmt
  | [] => []
  | s :: ss => s.parts ++ partsOfList ss

end

mutual

/-- The conditions of the loops in a statement; a loop comes behind the loops in its body. -/
def loopConditions : Stmt → List Expr
  | block body => loopConditionsOfList body
  | ifThen _ s => s.loopConditions
  | ifElse _ s t => s.loopConditions ++ t.loopConditions
  | whileLoop c s => s.loopConditions ++ [c]
  | forLoop v _ upper s => s.loopConditions ++ [withinBound v upper]
  | _ => []

def loopConditionsOfList : List Stmt → List Expr
  | [] => []
  | s :: ss => s.loopConditions ++ loopConditionsOfList ss

end

mutual

theorem labelCount_eq : ∀ s : Stmt,
    s.labelCount = s.parts.countP isIfThen + 2 * s.parts.countP isIfElse + 3 * s.parts.countP isLoop
  | block body => by
    have hbody := labelCountOfList_eq body
    simp only [labelCount, parts, List.countP_cons, isIfThen, isIfElse, isLoop, if_false,
      Bool.false_eq_true]
    omega
  | declaration .. => rfl
  | expression _ => rfl
  | ifThen c s => by
    have hs := labelCount_eq s
    simp only [labelCount, parts, List.countP_cons, isIfThen, isIfElse, isLoop, if_true, if_false,
      Bool.false_eq_true]
    omega
  | ifElse c s t => by
    have hs := labelCount_eq s
    have ht := labelCount_eq t
    simp only [labelCount, parts, List.countP_cons, List.countP_append, isIfThen, isIfElse, isLoop,
      if_true, if_false, Bool.false_eq_true]
    omega
  | whileLoop c s => by
    have hs := labelCount_eq s
    simp only [labelCount, parts, List.countP_cons, isIfThen, isIfElse, isLoop, if_true, if_false,
      Bool.false_eq_true]
    omega
  | forLoop v lower upper s => by
    have hs := labelCount_eq s
    simp only [labelCount, parts, List.countP_cons, isIfThen, isIfElse, isLoop, if_true, if_false,
      Bool.false_eq_true]
    omega
  | jump _ => rfl
  | jumpIf .. => rfl
  | label _ => rfl

theorem labelCountOfList_eq : ∀ ss : List Stmt,
    labelCountOfList ss = (partsOfList ss).countP isIfThen +
      2 * (partsOfList ss).countP isIfElse + 3 * (partsOfList ss).countP isLoop
  | [] => rfl
  | s :: ss => by
    have hs := labelCount_eq s
    have hss := labelCountOfList_eq ss
    simp only [labelCountOfList, partsOfList, List.countP_append]
    omega

end

mutual

theorem length_loopConditions : ∀ s : Stmt, s.loopConditions.length = s.parts.countP isLoop
  | block body => by
    simp [loopConditions, parts, isLoop, length_loopConditionsOfList body]
  | declaration .. => rfl
  | expression _ => rfl
  | ifThen c s => by
    simp [loopConditions, parts, isLoop, length_loopConditions s]
  | ifElse c s t => by
    simp [loopConditions, parts, isLoop, length_loopConditions s, length_loopConditions t]
  | whileLoop c s => by
    simp [loopConditions, parts, List.countP_cons, isLoop, length_loopConditions s]
  | forLoop v lower upper s => by
    simp [loopConditions, parts, List.countP_cons, isLoop, length_loopConditions s]
  | jump _ => rfl
  | jumpIf .. => rfl
  | label _ => rfl

theorem length_loopConditionsOfList : ∀ ss : List Stmt,
    (loopConditionsOfList ss).length = (partsOfList ss).countP isLoop
  | [] => rfl
  | s :: ss => by
    simp [loopConditionsOfList, partsOfList, length_loopConditions s,
      length_loopConditionsOfList ss]

end

theorem checks_loop (k : Nat) (c : Expr) (body : List Stmt) :
    (loop k c body).filterMap check? = body.filterMap check? ++ [c] := by
  simp [loop, check?, List.filterMap_cons]

mutual

theorem checks_lowerFrom : ∀ {s : Stmt} (k : Nat), s.Structured →
    (s.lowerFrom k).filterMap check? = s.loopConditions
  | block body, k, h => by rw [lowerFrom, loopConditions, checks_lowerList k h]
  | declaration .., _, _ => rfl
  | expression _, _, _ => rfl
  | ifThen c s, k, h => by
    simp [lowerFrom, loopConditions, check?, checks_lowerFrom (s := s) (k + 1) h]
  | ifElse c s t, k, h => by
    simp [lowerFrom, loopConditions, check?, List.filterMap_cons, checks_lowerFrom (k + 2) h.1,
      checks_lowerFrom (k + 2 + s.labelCount) h.2]
  | whileLoop c s, k, h => by
    rw [lowerFrom, checks_loop, loopConditions, checks_lowerFrom (s := s) (k + 3) h]
  | forLoop v lower upper s, k, h => by
    simp [lowerFrom, checks_loop, loopConditions, check?, List.filterMap_cons, increment,
      checks_lowerFrom (s := s) (k + 3) h]
  | jump _, _, h => h.elim
  | jumpIf .., _, h => h.elim
  | label _, _, h => h.elim

theorem checks_lowerList : ∀ {ss : List Stmt} (k : Nat), StructuredList ss →
    (lowerList k ss).filterMap check? = loopConditionsOfList ss
  | [], _, _ => rfl
  | s :: ss, k, h => by
    rw [lowerList, List.filterMap_append, checks_lowerFrom k h.1,
      checks_lowerList (k + s.labelCount) h.2, loopConditionsOfList]

end

theorem mem_labels_iff {l : Label} {code : List Stmt} : l ∈ labels code ↔ label l ∈ code := by
  constructor
  · intro h
    obtain ⟨t, ht, hl⟩ := List.mem_filterMap.mp h
    cases t <;> cases hl
    exact ht
  · exact fun h => List.mem_filterMap.mpr ⟨_, h, rfl⟩

/-- Whether each jump of a piece of code leads to a label of the code or of those around it: a check
to one before it, another jump to one behind it. -/
def Aimed (before behind : List Label) : List Stmt → Prop
  | [] => True
  | t :: ts =>
    (∀ l, t.destination? = some l → l ∈ if t.check?.isSome then before else labels ts ++ behind) ∧
      Aimed (before ++ labels [t]) behind ts

section

variable {before before' behind behind' : List Label} {l : Label} {a b ts : List Stmt}

@[simp] theorem aimed_nil : Aimed before behind [] := trivial

@[simp] theorem aimed_cons_label :
    Aimed before behind (label l :: ts) ↔ Aimed (before ++ [l]) behind ts := by
  simp [Aimed, destination?]

@[simp] theorem aimed_cons_jump :
    Aimed before behind (jump l :: ts) ↔ l ∈ labels ts ++ behind ∧ Aimed before behind ts := by
  simp [Aimed, destination?, check?]

@[simp] theorem aimed_cons_jumpIf {c : Expr} {onFalse : Bool} :
    Aimed before behind (jumpIf l c onFalse :: ts) ↔
      (l ∈ if onFalse then labels ts ++ behind else before) ∧ Aimed before behind ts := by
  cases onFalse <;> simp [Aimed, destination?, check?]

@[simp] theorem aimed_cons_declaration {v : Variable} {e : Expr} :
    Aimed before behind (declaration v e :: ts) ↔ Aimed before behind ts := by
  simp [Aimed, destination?]

@[simp] theorem aimed_cons_expression {e : Expr} :
    Aimed before behind (expression e :: ts) ↔ Aimed before behind ts := by
  simp [Aimed, destination?]

theorem aimed_append : Aimed before behind (a ++ b) ↔
    Aimed before (labels b ++ behind) a ∧ Aimed (before ++ labels a) behind b := by
  induction a generalizing before with
  | nil => simp
  | cons t ts ih =>
    have hlabels : labels (t :: ts) = labels [t] ++ labels ts := labels_append [t] ts
    rw [List.cons_append, Aimed, Aimed, ih, labels_append, hlabels, and_assoc, List.append_assoc,
      List.append_assoc]

theorem Aimed.mono (h : Aimed before behind ts) (hbefore : before ⊆ before')
    (hbehind : behind ⊆ behind') : Aimed before' behind' ts := by
  induction ts generalizing before before' with
  | nil => trivial
  | cons t ts ih =>
    obtain ⟨hfirst, hrest⟩ := h
    refine ⟨fun l hl => ?_, ih hrest ?_⟩
    · have hmem := hfirst l hl
      split at hmem
      · next hcheck =>
        rw [if_pos hcheck]
        exact hbefore hmem
      · next hcheck =>
        rw [if_neg hcheck]
        exact List.mem_append.mpr ((List.mem_append.mp hmem).imp_right fun h => hbehind h)
    · intro l hl
      exact List.mem_append.mpr ((List.mem_append.mp hl).imp_left fun h => hbefore h)

/-- Code that is aimed by itself is aimed everywhere. -/
theorem Aimed.anywhere (h : Aimed [] [] ts) : Aimed before behind ts :=
  h.mono (List.nil_subset _) (List.nil_subset _)

theorem Aimed.mem_labels {t : Stmt} (h : Aimed before behind (a ++ t :: b))
    (ht : t.destination? = some l) :
    l ∈ if t.check?.isSome then before ++ labels a else labels b ++ behind :=
  (aimed_append.mp h).2.1 l ht

theorem Aimed.destination_mem {t : Stmt} (h : Aimed [] [] ts) (ht : t ∈ ts)
    (hl : t.destination? = some l) : l ∈ labels ts := by
  obtain ⟨a, b, rfl⟩ := List.append_of_mem ht
  have hmem := h.mem_labels hl
  have hlabels : labels (t :: b) = labels [t] ++ labels b := labels_append [t] b
  rw [labels_append, hlabels]
  split at hmem
  · exact List.mem_append_left _ hmem
  · rw [List.append_nil] at hmem
    exact List.mem_append_right _ (List.mem_append_right _ hmem)

end

theorem aimed_loop {body : List Stmt} (k : Nat) (c : Expr) (h : Aimed [] [] body) :
    Aimed [] [] (loop k c body) := by
  simp [loop, aimed_append, h.anywhere]

mutual

theorem aimed_lowerFrom : ∀ {s : Stmt} (k : Nat), s.Structured → Aimed [] [] (s.lowerFrom k)
  | block body, k, h => aimed_lowerList k h
  | declaration .., _, _ => by simp [lowerFrom]
  | expression _, _, _ => by simp [lowerFrom]
  | ifThen c s, k, h => by
    have hs := aimed_lowerFrom (s := s) (k + 1) h
    simp [lowerFrom, aimed_append, hs.anywhere]
  | ifElse c s t, k, h => by
    have hs := aimed_lowerFrom (k + 2) h.1
    have ht := aimed_lowerFrom (k + 2 + s.labelCount) h.2
    simp [lowerFrom, aimed_append, hs.anywhere, ht.anywhere]
  | whileLoop c s, k, h => aimed_loop k c (aimed_lowerFrom (s := s) (k + 3) h)
  | forLoop v lower upper s, k, h => by
    have hs := aimed_lowerFrom (s := s) (k + 3) h
    have hbody : Aimed [] [] (s.lowerFrom (k + 3) ++ [increment v]) := by
      simp [aimed_append, hs.anywhere, increment]
    rw [lowerFrom, aimed_cons_declaration]
    exact aimed_loop k (withinBound v upper) hbody
  | jump _, _, h => h.elim
  | jumpIf .., _, h => h.elim
  | label _, _, h => h.elim

theorem aimed_lowerList : ∀ {ss : List Stmt} (k : Nat), StructuredList ss →
    Aimed [] [] (lowerList k ss)
  | [], _, _ => trivial
  | s :: ss, k, h => by
    have hs := aimed_lowerFrom k h.1
    have hss := aimed_lowerList (k + s.labelCount) h.2
    simp [lowerList, aimed_append, hs.anywhere, hss.anywhere]

end

end Lumen.Bound.Stmt
