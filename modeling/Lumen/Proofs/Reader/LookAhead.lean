import Lumen.Proofs.Reader.Agreement
import Lumen.Text.Identifier.Table

/-!
# Looking ahead leaves no trace

Scanning only adds complaints, and so does whatever else a procedure does that scans and looks ahead,
nested at will. So a scanner that is put back after it is at its place again, with the complaints it
had. Hence the scanners that a text leads to are those of one plain scan, and the complaints that a
reader gets from its scanner are the first ones of such a scan: all of them, if it comes to the end.
-/

namespace Lumen.Scanner

section

variable [Xid]

/-- Whether scanning and looking ahead lead from one scanner to another. What a procedure does when it
looks ahead may depend on all that it finds. -/
inductive Reaches : Scanner → Scanner → Prop
  | refl (s : Scanner) : Reaches s s
  | scan {s t : Scanner} : Reaches s t → Reaches s t.scan
  | lookAhead {α : Type} {s t : Scanner} {f : Scanner → α × Scanner} :
    Reaches s t → Reaches t (f t).2 → Reaches s (t.lookAhead f).2

variable {text : List Char} {n : Nat} {s t : Scanner}

theorem Reaches.prefix_diagnostics (h : Reaches s t) : s.diagnostics <+: t.diagnostics := by
  induction h with
  | refl s => exact List.prefix_rfl
  | scan _ ih => exact ih.trans (List.prefix_append _ _)
  | @lookAhead _ s t f _ _ ih ihf =>
    have hback : (t.lookAhead f).2 = t := restore_of_extends ihf
    rwa [hback]

theorem Reaches.lookAhead_eq {α : Type} {f : Scanner → α × Scanner} (h : Reaches s (f s).2) :
    (s.lookAhead f).2 = s :=
  restore_of_extends h.prefix_diagnostics

theorem reaches_advance (s : Scanner) : Reaches s s.advance := by
  have hadvance : ∀ {t : Scanner}, Reaches s t → Reaches s t.advance := by
    intro t ht
    induction t using advance.induct with
    | case1 t u hstray ih =>
      rw [advance, dif_pos hstray]
      exact ih ht.scan
    | case2 t u hstray =>
      rw [advance, dif_neg hstray]
      exact ht.scan
  exact hadvance (.refl s)

theorem reaches_iff : Reaches (ofText text) s ↔ ∃ n, s = after text n := by
  constructor
  · intro h
    generalize hstart : ofText text = start at h
    induction h with
    | refl s => exact ⟨0, hstart.symm⟩
    | scan _ ih =>
      obtain ⟨n, rfl⟩ := ih hstart
      exact ⟨n + 1, rfl⟩
    | lookAhead _ hf ih _ =>
      rw [hf.lookAhead_eq]
      exact ih hstart
  · rintro ⟨n, rfl⟩
    induction n with
    | zero => exact .refl _
    | succ n ih => exact ih.scan

theorem diagnostics_at_end (h : (after text n).token.kind = .endOfFile) :
    (after text n).diagnostics = Token.faults (Token.scanInner text) := by
  cases n with
  | zero => cases h
  | succ n =>
    rcases drop_scanInner text n with ⟨hnil, -⟩ | ⟨-, hkind⟩
    · rw [diagnostics_after,
        List.take_of_length_le (Nat.le_succ_of_le (List.drop_eq_nil_iff.mp hnil))]
    · exact absurd h hkind

theorem kind_at_end (text : List Char) :
    (after text ((Token.scanInner text).length + 1)).token.kind = .endOfFile := by
  rw [token_after, List.getD_eq_getElem?_getD, List.getElem?_eq_none (Nat.le_refl _)]
  rfl

theorem prefix_diagnostics_after (h : (after text n).token.kind = .endOfFile) (m : Nat) :
    (after text m).diagnostics <+: (after text n).diagnostics := by
  rw [diagnostics_at_end h, diagnostics_after]
  exact (List.take_prefix m _).filterMap _

/-- What holds of the scanners of a text, and of the complaints that a reader of the text gets from
its scanner, if looking ahead leaves no trace. -/
structure Traceless (text : List Char) : Prop where
  reaches_iff : ∀ s, Reaches (ofText text) s ↔ ∃ n, s = after text n
  lookAhead_eq : ∀ {α : Type} (f : Scanner → α × Scanner) (s : Scanner),
    Reaches (ofText text) s → Reaches s (f s).2 → (s.lookAhead f).2 = s
  exists_end : ∃ n, (after text n).token.kind = .endOfFile
  parse_eq : Source.parse text =
    let (program, r) := (Reader.ofText text).program
    ⟨text, program, r.scanner.diagnostics ++ r.faults⟩
  prefix_found : ∀ n, (after text n).token.kind = .endOfFile →
    (Reader.ofText text).program.2.scanner.diagnostics <+: (after text n).diagnostics
  found_all : ∀ n, (after text n).token.kind = .endOfFile →
    (Reader.ofText text).program.2.kind = .endOfFile →
      (Reader.ofText text).program.2.scanner.diagnostics = (after text n).diagnostics

/-- Looking ahead leaves no trace in any text. -/
theorem lookAhead_traceless (text : List Char) : Traceless text := by
  obtain ⟨hparse, ts, k, hk, -⟩ := Reader.parse_eq_and_stands text
  refine ⟨fun _ => reaches_iff, fun f s _ hf => hf.lookAhead_eq, ⟨_, kind_at_end text⟩, hparse.symm,
    fun n hn => ?_, fun n hn hend => ?_⟩
  · rw [hk]
    exact prefix_diagnostics_after hn (k + 1)
  · change (Reader.ofText text).program.2.scanner.token.kind = .endOfFile at hend
    rw [hk] at hend ⊢
    rw [diagnostics_at_end hend, diagnostics_at_end hn]

end

open scoped Xid in
/-- A name with a stray character between it and its equals sign, which is found by looking ahead
while looking ahead, and another one at the end. -/
theorem lookAhead_traceless_of_stray_characters :
    let text := "a $ = 1 $".toList
    let s := (ofText text).scan
    let r := (Reader.ofText text).program.2
    let nested (t : Scanner) : TokenKind × Scanner := (t.peek.1, t.peek.2.scan)
    (s.lookAhead nested).1 = .equals ∧ (s.lookAhead nested).2 = s ∧ r.kind = .endOfFile ∧
      r.scanner.diagnostics = [⟨⟨2, 1⟩, .badCharacter "$"⟩, ⟨⟨8, 1⟩, .badCharacter "$"⟩] ∧
      ∀ n, (after text n).token.kind = .endOfFile →
        r.scanner.diagnostics = (after text n).diagnostics := by
  intro text s r nested
  have htext := lookAhead_traceless text
  have hs : Reaches (ofText text) s := .scan (.refl _)
  have hnested : Reaches s (nested s).2 := .scan (.lookAhead (.refl s) (reaches_advance s))
  have hend : r.kind = .endOfFile := by decide +kernel
  exact ⟨by decide +kernel, htext.lookAhead_eq nested s hs hnested, hend, by decide +kernel,
    fun n hn => htext.found_all n hn hend⟩

end Lumen.Scanner
