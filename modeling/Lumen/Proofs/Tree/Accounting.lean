import Lumen.Proofs.Tree.Reading

/-!
# The accounts of a reading

What becomes of the tokens that a reading uses up: each of them is a leaf of the phrase or was
dropped by a block, leaves stand in the order of the text, and all other leaves are made up, each
with a complaint of its own. A block drops a token only behind a statement whose leaves are all made
up, so no more tokens are dropped than leaves are made up.
-/

namespace Lumen

theorem Token.isMissing_missing {kind : TokenKind} (h : kind ≠ .endOfFile) (pos : Nat) :
    (missing kind pos).isMissing = true := by
  simp [isMissing, missing, h]

def Diagnostic.isUnexpected (d : Diagnostic) : Bool :=
  match d.cause with
  | .unexpectedToken .. => true
  | _ => false

namespace Tree

def kept (leaves : List Token) : List Token := leaves.filter fun t => !t.isMissing

@[simp] theorem kept_append (a b : List Token) : kept (a ++ b) = kept a ++ kept b :=
  List.filter_append ..

/-- Whether the leaves of a phrase, the tokens dropped and the complaints account for the tokens
between two places of a text. -/
structure Accounts (ts leaves rest dropped : List Token) (faults : List Diagnostic) : Prop where
  exists_used : ∃ used, ts = used ++ rest ∧ (kept leaves).Sublist used ∧
    used.Perm (kept leaves ++ dropped)
  count_faults : faults.countP (·.isUnexpected) = leaves.countP (·.isMissing)
  dropped_le : dropped.length ≤ leaves.countP (·.isMissing)

variable {ts mid rest a b dropped dropped' : List Token} {f g : List Diagnostic}

theorem Accounts.nil : Accounts ts [] ts [] [] :=
  ⟨⟨[], rfl, .slnil, .nil⟩, rfl, Nat.zero_le _⟩

theorem Accounts.append (h : Accounts ts a mid dropped f) (h' : Accounts mid b rest dropped' g) :
    Accounts ts (a ++ b) rest (dropped ++ dropped') (f ++ g) := by
  obtain ⟨used, rfl, hsub, hperm⟩ := h.exists_used
  obtain ⟨used', rfl, hsub', hperm'⟩ := h'.exists_used
  refine ⟨⟨used ++ used', (List.append_assoc ..).symm, ?_, ?_⟩, ?_, ?_⟩
  · rw [kept_append]
    exact hsub.append hsub'
  · rw [kept_append, List.append_assoc]
    have hswap : (kept b ++ (dropped ++ dropped')).Perm (dropped ++ (kept b ++ dropped')) := by
      rw [← List.append_assoc, ← List.append_assoc]
      exact List.perm_append_comm.append_right dropped'
    have hall := hperm.append hperm'
    rw [List.append_assoc] at hall
    exact hall.trans (hswap.symm.append_left (kept a))
  · rw [List.countP_append, List.countP_append, h.count_faults, h'.count_faults]
  · rw [List.length_append, List.countP_append]
    exact Nat.add_le_add h.dropped_le h'.dropped_le

theorem Accounts.leaf {t : Token} (ht : t.isMissing = false) :
    Accounts (t :: rest) [t] rest [] [] := by
  have hkept : kept [t] = [t] := by simp [kept, ht]
  refine ⟨⟨[t], rfl, ?_, ?_⟩, ?_, Nat.zero_le _⟩
  · simp [hkept]
  · simp [hkept]
  · simp [ht]

theorem Accounts.cons {t : Token} (ht : t.isMissing = false)
    (h : Accounts ts a rest dropped f) : Accounts (t :: ts) (t :: a) rest dropped f :=
  (Accounts.leaf ht).append h

def NoneMissing (ts : List Token) : Prop := ∀ t ∈ ts, t.isMissing = false

theorem Accounts.noneMissing (h : Accounts ts a rest dropped f) (hts : NoneMissing ts) :
    NoneMissing rest := by
  obtain ⟨used, rfl, -, -⟩ := h.exists_used
  exact (List.forall_mem_append.mp hts).2

/-- A reading that makes up no leaf has all tokens that it uses as leaves. -/
theorem Accounts.eq_of_count_eq_zero (h : Accounts ts a rest dropped f)
    (hzero : a.countP (·.isMissing) = 0) : ts = a ++ rest := by
  obtain ⟨used, rfl, hsub, hperm⟩ := h.exists_used
  have hdropped : dropped = [] := by
    have hle := h.dropped_le
    exact List.length_eq_zero_iff.mp (by omega)
  have hkept : kept a = a := by
    refine List.filter_eq_self.mpr fun t ht => ?_
    simpa using List.countP_eq_zero.mp hzero t ht
  rw [hdropped, List.append_nil, hkept] at hperm
  rw [hkept] at hsub
  rw [hsub.eq_of_length hperm.length_eq.symm]

variable {last t : Token} {kind : TokenKind}

theorem Accounts.made (hkind : kind ≠ .endOfFile) (pos : Nat) (found : Token) :
    Accounts ts [.missing kind pos] ts [] [Parsed.unexpected found kind] := by
  have hmissing := Token.isMissing_missing hkind pos
  have hkept : kept [.missing kind pos] = [] := by
    rw [kept, List.filter_eq_nil_iff]
    simp [hmissing]
  refine ⟨⟨[], rfl, ?_, ?_⟩, ?_, Nat.zero_le _⟩
  · simp [hkept]
  · simp [hkept]
  · simp [hmissing, Parsed.unexpected, Diagnostic.isUnexpected]

theorem ReadsToken.accounts (h : ReadsToken last kind ts t rest f) (hkind : kind ≠ .endOfFile)
    (hts : NoneMissing ts) : Accounts ts [t] rest [] f := by
  cases h with
  | found _ => exact .leaf (hts t List.mem_cons_self)
  | missing _ => exact .made hkind _ _

mutual

theorem ReadsExpr.accounts {ts rest : List Token} {e : Expr} {f : List Diagnostic} :
    ReadsExpr last ts e rest f → NoneMissing ts → Accounts ts e.leaves rest [] f
  | .assignment _ _ h, hts => by
    obtain ⟨hx, hts⟩ := List.forall_mem_cons.mp hts
    obtain ⟨heq, hts⟩ := List.forall_mem_cons.mp hts
    exact ((h.accounts hts).cons heq).cons hx
  | .binary _ h, hts => h.accounts hts

theorem ReadsBinary.accounts {parent : Precedence} {ts rest : List Token} {e : Expr}
    {f : List Diagnostic} :
    ReadsBinary last parent ts e rest f → NoneMissing ts → Accounts ts e.leaves rest [] f
  | .unary _ h hall, hts => by
    obtain ⟨hop, hts⟩ := List.forall_mem_cons.mp hts
    have hoperand := (h.accounts hts).cons hop
    obtain ⟨more, hleaves, hmore⟩ := hall.accounts ((h.accounts hts).noneMissing hts)
    rw [hleaves]
    exact hoperand.append hmore
  | .primary _ h hall, hts => by
    have hleft := h.accounts hts
    obtain ⟨more, hleaves, hmore⟩ := hall.accounts (hleft.noneMissing hts)
    rw [hleaves]
    exact hleft.append hmore

theorem ReadsOperators.accounts {parent : Precedence} {ts rest : List Token} {left e : Expr}
    {f : List Diagnostic} :
    ReadsOperators last parent left ts e rest f → NoneMissing ts →
      ∃ more, e.leaves = left.leaves ++ more ∧ Accounts ts more rest [] f
  | .stop _, _ => ⟨[], (List.append_nil _).symm, .nil⟩
  | .step _ _ h hall, hts => by
    obtain ⟨hop, hts⟩ := List.forall_mem_cons.mp hts
    have hright := h.accounts hts
    obtain ⟨more, hleaves, hmore⟩ := hall.accounts (hright.noneMissing hts)
    refine ⟨_, ?_, (hright.cons hop).append hmore⟩
    rw [hleaves, Expr.leaves, List.append_assoc, List.cons_append]

theorem ReadsPrimary.accounts {ts rest : List Token} {e : Expr} {f : List Diagnostic} :
    ReadsPrimary last ts e rest f → NoneMissing ts → Accounts ts e.leaves rest [] f
  | .parenthesized _ h hclose, hts => by
    obtain ⟨ho, hts⟩ := List.forall_mem_cons.mp hts
    have hinner := h.accounts hts
    have hc := hclose.accounts (by simp) (hinner.noneMissing hts)
    exact (hinner.append hc).cons ho
  | .truth _, hts => .leaf (hts _ List.mem_cons_self)
  | .name _, hts => .leaf (hts _ List.mem_cons_self)
  | .number _ h, hts => h.accounts (by simp) hts

end

theorem Accounts.of_idle (h : Accounts ts a rest dropped f) (hidle : ¬ rest.length < ts.length) :
    ts = rest ∧ kept a = [] ∧ dropped = [] := by
  obtain ⟨used, rfl, -, hperm⟩ := h.exists_used
  have hused : used = [] := by
    rw [List.length_append] at hidle
    exact List.length_eq_zero_iff.mp (by omega)
  subst hused
  obtain ⟨ha, hdropped⟩ := List.append_eq_nil_iff.mp hperm.nil_eq.symm
  exact ⟨rfl, ha, hdropped⟩

/-- A statement that uses no token, and the token dropped behind it. -/
theorem Accounts.idle {t : Token} (h : Accounts (t :: ts) a mid dropped f) (ha : a ≠ [])
    (hidle : ¬ mid.length < (t :: ts).length) : Accounts (t :: ts) a ts [t] f := by
  obtain ⟨-, hkept, -⟩ := h.of_idle hidle
  refine ⟨⟨[t], rfl, ?_, ?_⟩, h.count_faults, ?_⟩
  · rw [hkept]
    exact List.nil_sublist _
  · rw [hkept, List.nil_append]
  · obtain ⟨x, xs, rfl⟩ := List.exists_cons_of_ne_nil ha
    have hx := List.filter_eq_nil_iff.mp hkept x List.mem_cons_self
    refine List.countP_pos_iff.mpr ⟨x, List.mem_cons_self, ?_⟩
    simpa using hx

mutual

theorem ReadsStmt.accounts {ts rest dropped : List Token} {s : Stmt} {f : List Diagnostic} :
    ReadsStmt last ts s rest f dropped → NoneMissing ts → Accounts ts s.leaves rest dropped f
  | .block _ h hclose, hts => by
    obtain ⟨ho, hts⟩ := List.forall_mem_cons.mp hts
    have hbody := h.accounts hts
    have hc := hclose.accounts (by simp) (hbody.noneMissing hts)
    simpa [Stmt.leaves] using (hbody.append hc).cons ho
  | .declaration _ hx heq he, hts => by
    obtain ⟨hk, hts⟩ := List.forall_mem_cons.mp hts
    have hname := hx.accounts (by simp) hts
    have hsign := heq.accounts (by simp) (hname.noneMissing hts)
    have hvalue := he.accounts (hsign.noneMissing (hname.noneMissing hts))
    exact ((hname.append hsign).append hvalue).cons hk
  | .ifThen _ he hs _, hts => by
    obtain ⟨hk, hts⟩ := List.forall_mem_cons.mp hts
    have hcondition := he.accounts hts
    have hthen := hs.accounts (hcondition.noneMissing hts)
    exact (hcondition.append hthen).cons hk
  | .ifElse _ he hs _ ht, hts => by
    obtain ⟨hk, hts⟩ := List.forall_mem_cons.mp hts
    have hcondition := he.accounts hts
    have hthen := hs.accounts (hcondition.noneMissing hts)
    obtain ⟨hel, hrest⟩ := List.forall_mem_cons.mp (hthen.noneMissing (hcondition.noneMissing hts))
    have helse := (ht.accounts hrest).cons hel
    simpa [Stmt.leaves] using ((hcondition.append hthen).append helse).cons hk
  | .whileLoop _ he hs, hts => by
    obtain ⟨hk, hts⟩ := List.forall_mem_cons.mp hts
    have hcondition := he.accounts hts
    have hbody := hs.accounts (hcondition.noneMissing hts)
    exact (hcondition.append hbody).cons hk
  | .forLoop _ hx heq hlower hto hupper hs, hts => by
    obtain ⟨hk, hts⟩ := List.forall_mem_cons.mp hts
    have hname := hx.accounts (by simp) hts
    have hsign := hname.append (heq.accounts (by simp) (hname.noneMissing hts))
    have hlo := hsign.append (hlower.accounts (hsign.noneMissing hts))
    have htoKw := hlo.append (hto.accounts (by simp) (hlo.noneMissing hts))
    have hhi := htoKw.append (hupper.accounts (htoKw.noneMissing hts))
    have hbody := hhi.append (hs.accounts (hhi.noneMissing hts))
    simpa [Stmt.leaves] using hbody.cons hk
  | .expression _ h, hts => h.accounts hts

theorem ReadsStmts.accounts {ts rest dropped : List Token} {ss : List Stmt}
    {f : List Diagnostic} :
    ReadsStmts last ts ss rest f dropped → NoneMissing ts →
      Accounts ts (ss.flatMap Stmt.leaves) rest dropped f
  | .done _, _ => .nil
  | .used _ h _ hrest, hts => by
    have hs := h.accounts hts
    exact hs.append (hrest.accounts (hs.noneMissing hts))
  | .idle _ h hidle hrest, hts => by
    obtain ⟨-, -, rfl⟩ := (h.accounts hts).of_idle hidle
    have hs := (h.accounts hts).idle (Stmt.leaves_ne_nil _) hidle
    exact hs.append (hrest.accounts (List.forall_mem_cons.mp hts).2)

end

end Tree

end Lumen
