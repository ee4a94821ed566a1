import Lumen.Proofs.Machine.Guards

/-!
# Assignment before use

A declaration that is the branch of a condition or the body of a while loop declares a variable in
the scope around it, although it may never run: such a variable is conditional. If every expression
of a statement reads only conditional variables and variables declared before, then no run of its
flat form reads any other variable without value.
-/

namespace Lumen.Bound.Stmt

open Machine (CodeAt Guards)

/-- The variables that a statement declares in the scope around it. -/
def declared : Stmt → List Variable
  | declaration v _ => [v]
  | ifThen _ t => t.declared
  | ifElse _ t u => t.declared ++ u.declared
  | whileLoop _ t => t.declared
  | _ => []

/-- The variables that a statement declares in the scope around it whenever it runs. -/
def definite : Stmt → List Variable
  | declaration v _ => [v]
  | _ => []

mutual

/-- The variables inside a statement that a branch or the body of a while loop declares in the scope
around it. -/
def conditional : Stmt → List Variable
  | block body => conditionalList body
  | ifThen _ t => t.declared ++ t.conditional
  | ifElse _ t u => t.declared ++ t.conditional ++ (u.declared ++ u.conditional)
  | whileLoop _ t => t.declared ++ t.conditional
  | forLoop _ _ _ t => t.conditional
  | _ => []

def conditionalList : List Stmt → List Variable
  | [] => []
  | t :: ts => t.conditional ++ conditionalList ts

end

theorem definite_or_conditional {t : Stmt} {v : Variable} (h : v ∈ t.declared) :
    v ∈ t.definite ∨ v ∈ t.conditional := by
  cases t with
  | declaration w e => exact .inl h
  | ifThen c t => exact .inr (List.mem_append_left _ h)
  | ifElse c t u =>
    rcases List.mem_append.mp h with h | h
    · exact .inr (List.mem_append_left _ (List.mem_append_left _ h))
    · exact .inr (List.mem_append_right _ (List.mem_append_left _ h))
  | whileLoop c t => exact .inr (List.mem_append_left _ h)
  | _ => cases h

mutual

/-- Whether the expressions of a statement read exempt variables, variables of a list and variables
that are declared before them only. -/
def Covered (exempt : Variable → Prop) (vs : List Variable) : Stmt → Prop
  | block body => CoveredList exempt vs body
  | declaration _ e => e.Covered exempt vs
  | expression e => e.Covered exempt vs
  | ifThen c t => c.Covered exempt vs ∧ t.Covered exempt vs
  | ifElse c t u => c.Covered exempt vs ∧ t.Covered exempt vs ∧ u.Covered exempt vs
  | whileLoop c t => c.Covered exempt vs ∧ t.Covered exempt vs
  | forLoop v lower upper t =>
    lower.Covered exempt vs ∧ upper.Covered exempt vs ∧ t.Covered exempt (vs ++ [v])
  | jump _ => True
  | jumpIf _ c _ => c.Covered exempt vs
  | label _ => True

def CoveredList (exempt : Variable → Prop) (vs : List Variable) : List Stmt → Prop
  | [] => True
  | t :: ts => t.Covered exempt vs ∧ CoveredList exempt (vs ++ t.definite) ts

end

variable {program : Array Stmt} {exempt : Variable → Prop} {goal : Store → Prop}
  {vs : List Variable}

theorem guards_loop {c : Expr} {body : List Stmt} {k p : Nat}
    (hnd : (labels program.toList).Nodup) (h : CodeAt program p (loop k c body))
    (hc : c.Covered exempt vs)
    (hbody : Guards program exempt goal (p + 2) (p + 2 + body.length) vs vs) :
    Guards program exempt goal p (p + (loop k c body).length) vs vs := by
  simp only [loop, Machine.codeAt_cons, Machine.codeAt_append] at h
  obtain ⟨hjump, hcontinue, -, hcheck, hjumpIf, hend, -⟩ := h
  have hstart : Guards program exempt goal p (p + 2 + body.length + 1) vs vs :=
    Machine.guards_jump hnd hjump hcheck
  have hrounds := Machine.guards_loop hnd hcontinue hcheck hjumpIf hc hbody
  have hbehind : Guards program exempt goal (p + 2 + body.length + 2)
      (p + 2 + body.length + 3) vs vs := Machine.guards_label hend
  rw [behind_loop]
  exact (hstart.trans hrounds).trans hbehind

mutual

/-- The flat form of a covered statement, wherever it stands, is guarded. -/
theorem guards_lowerFrom (hnd : (labels program.toList).Nodup) :
    ∀ {s : Stmt} {k p : Nat} {vs : List Variable}, s.Structured → s.Covered exempt vs →
      CodeAt program p (s.lowerFrom k) →
        Guards program exempt goal p (p + (s.lowerFrom k).length) vs (vs ++ s.definite)
  | block body, k, p, vs, hs, hc, h => by
    have hbody := guards_lowerList hnd hs hc h
    exact hbody.trans (Machine.guards_weaken (by simp [definite]))
  | declaration v e, k, p, vs, _, hc, h => Machine.guards_declaration h.1 hc
  | expression e, k, p, vs, _, hc, h => by
    simp only [definite, List.append_nil]
    exact Machine.guards_expression h.1 hc
  | ifThen c s, k, p, vs, hs, hc, h => by
    simp only [lowerFrom, Machine.codeAt_cons, Machine.codeAt_append] at h
    obtain ⟨hjumpIf, hthen, hend, -⟩ := h
    have hbody := (guards_lowerFrom (s := s) hnd hs hc.2 hthen).trans
      ((Machine.guards_label hend).trans
        (Machine.guards_weaken (List.subset_append_left vs s.definite)))
    rw [behind_ifThen]
    simp only [definite, List.append_nil]
    exact Machine.guards_jumpIf hnd hjumpIf hend hc.1 hbody
      (Machine.guards_weaken (List.Subset.refl vs))
  | ifElse c s t, k, p, vs, hs, hc, h => by
    simp only [lowerFrom, Machine.codeAt_cons, Machine.codeAt_append] at h
    obtain ⟨hjumpIf, hthen, hjump, helse, hother, hend, -⟩ := h
    have hbody := (guards_lowerFrom hnd hs.1 hc.2.1 hthen).trans
      ((Machine.guards_jump hnd hjump hend).trans
        (Machine.guards_weaken (List.subset_append_left vs s.definite)))
    have halternative := (guards_lowerFrom hnd hs.2 hc.2.2 hother).trans
      ((Machine.guards_label hend).trans
        (Machine.guards_weaken (List.subset_append_left vs t.definite)))
    rw [behind_ifElse]
    simp only [definite, List.append_nil]
    exact Machine.guards_jumpIf hnd hjumpIf helse hc.1 hbody halternative
  | whileLoop c s, k, p, vs, hs, hc, h => by
    have hcode := h
    simp only [lowerFrom, loop, Machine.codeAt_cons, Machine.codeAt_append] at hcode
    have hbody := (guards_lowerFrom (s := s) hnd hs hc.2 hcode.2.2.1).trans
      (Machine.guards_weaken (List.subset_append_left vs s.definite))
    simp only [definite, List.append_nil]
    exact guards_loop hnd h hc.1 hbody
  | forLoop v lower upper s, k, p, vs, hs, hc, h => by
    obtain ⟨hlower, hupper, hsc⟩ := hc
    have hcode := h
    simp only [lowerFrom, loop, Machine.codeAt_cons, Machine.codeAt_append] at hcode
    obtain ⟨hdeclare, -, -, ⟨hround, hstep, -⟩, -⟩ := hcode
    have hcondition : (withinBound v upper).Covered exempt (vs ++ [v]) := by
      refine List.forall_mem_append.mpr ⟨?_, fun u hu => ?_⟩
      · exact List.forall_mem_singleton.mpr (.inl (by simp))
      · exact (hupper u hu).imp_left (List.mem_append_left [v])
    have hincrement : Expr.Covered exempt (vs ++ [v])
        (.assignment v (.binary (.variable v) .intAddition (.literal (.int 1)))) :=
      List.forall_mem_singleton.mpr (.inl (by simp))
    have hbody := ((guards_lowerFrom (s := s) hnd hs hsc hround).trans
      (Machine.guards_weaken (List.subset_append_left _ s.definite))).trans
        (Machine.guards_expression hstep hincrement)
    have hloop := guards_loop hnd h.2 hcondition (by simpa [← Nat.add_assoc] using hbody)
    rw [behind_forLoop]
    simp only [definite, List.append_nil]
    exact ((Machine.guards_declaration hdeclare hlower).trans hloop).trans
      (Machine.guards_weaken (List.subset_append_left vs [v]))
  | jump _, _, _, _, hs, _, _ => hs.elim
  | jumpIf .., _, _, _, hs, _, _ => hs.elim
  | label _, _, _, _, hs, _, _ => hs.elim

theorem guards_lowerList (hnd : (labels program.toList).Nodup) :
    ∀ {ss : List Stmt} {k p : Nat} {vs : List Variable}, StructuredList ss →
      CoveredList exempt vs ss → CodeAt program p (lowerList k ss) →
        Guards program exempt goal p (p + (lowerList k ss).length) vs vs
  | [], k, p, vs, _, _, _ => Machine.guards_weaken (List.Subset.refl vs)
  | s :: ss, k, p, vs, hs, hc, h => by
    simp only [lowerList, Machine.codeAt_append] at h
    rw [lowerList, List.length_append, ← Nat.add_assoc]
    have hfirst := guards_lowerFrom hnd hs.1 hc.1 h.1
    have hrest := guards_lowerList hnd hs.2 hc.2 h.2
    exact (hfirst.trans hrest).trans
      (Machine.guards_weaken (List.subset_append_left vs s.definite))

end

/-- A run of the flat form of a covered statement reads only exempt variables without value, and
leaves the variables that the statement declares whenever it runs with values. -/
theorem guarded_lower {s : Stmt} {store : Store} (hs : s.Structured) (hc : s.Covered exempt vs)
    (hstore : store.Has vs) (n : Nat) :
    Machine.Guarded s.lower.toArray exempt (Store.Has · (vs ++ s.definite)) n (.start store) := by
  have hnd : (labels s.lower.toArray.toList).Nodup := nodup_labels_lowerFrom 0 hs
  have hcode : CodeAt s.lower.toArray 0 s.lower := Machine.codeAt_of_append [] s.lower
  refine guards_lowerFrom hnd hs hc hcode n (fun last σ hσ => ?_) none store hstore
  exact Machine.guarded_end (by simp [lower]) hσ

end Lumen.Bound.Stmt
