import Lumen.Proofs.Session.Dumps
import Lumen.Repl
import Lumen.Text.Identifier.Table

/-!
# Interactive sessions stay coherent

What a line is to a session depends on the text that is collected: a line is skipped, commands the
session, is held, or completes a submission. A record of a session notes this for every line. From
the lines and their notes alone one can tell the state of the session: the text that is collected
consists of the last lines, which are held since they leave it incomplete; the chain consists of
the submissions that ran to their ends since the last reset; and only a reset or a submission
without complaints writes the store.
-/

namespace Lumen

namespace Repl

abbrev Blank (line : List Char) : Prop := line.all Text.isWhiteSpace = true

def collected (lines : List (List Char)) : List Char := lines.flatMap (· ++ ['\n'])

theorem collected_append (held : List (List Char)) (line : List Char) :
    collected (held ++ [line]) = collected held ++ line ++ ['\n'] := by
  simp [collected]

theorem collected_eq_nil {held : List (List Char)} : collected held = [] ↔ held = [] := by
  cases held with
  | nil => simp [collected]
  | cons line held => simp [collected]

/-- What a line is to a session; a submission comes with its run on the store of the session. -/
inductive Event
  | skipped
  | commanded (c : Option Command)
  | held
  | submitted (c : Submission) (run : Option (Outcome (Option Value)))

namespace Event

def resets : Event → Bool
  | commanded (some .reset) => true
  | _ => false

/-- The submission of an event, if it has no complaints and ran to its end. -/
def joined? : Event → Option Submission
  | submitted c (some (.done _ _)) => if c.diagnostics = [] then some c else none
  | _ => none

end Event

/-- The submissions that ran to their ends since the last reset, newest first. -/
def joined (events : List Event) : List Submission :=
  (events.reverse.takeWhile (!·.resets)).filterMap Event.joined?

/-- A session with the lines it was fed, oldest first, and what each of them was to it. -/
structure Record where
  log : List (List Char × Event)
  repl : Repl

def Record.lines (s : Record) : List (List Char) := s.log.map Prod.fst

def Record.events (s : Record) : List Event := s.log.map Prod.snd

variable {r : Repl} {line : List Char}

theorem command_buffer : (r.command line).repl.buffer = r.buffer := by
  unfold command
  split
  next c _ => cases c <;> rfl
  next => rfl

theorem command_chain : (r.command line).repl.chain =
    if (Event.commanded (Command.ofLine? line)).resets then [] else r.chain := by
  unfold command
  split
  next c hc => rw [hc]; cases c <;> rfl
  next hc => rw [hc]; rfl

theorem command_store (h : (r.command line).repl.store ≠ r.store) :
    Command.ofLine? line = some .reset := by
  unfold command at h
  split at h
  next c hc =>
    cases c with
    | reset => exact hc
    | _ => exact absurd rfl h
  next => exact absurd rfl h

theorem joined_append (events : List Event) (e : Event) :
    joined (events ++ [e]) = if e.resets then [] else e.joined?.toList ++ joined events := by
  unfold joined
  rw [List.reverse_append, List.reverse_singleton, List.singleton_append]
  cases hresets : e.resets with
  | true => rw [List.takeWhile_cons_of_neg (by simp [hresets])]; rfl
  | false =>
    rw [List.takeWhile_cons_of_pos (by simp [hresets]), List.filterMap_cons]
    cases e.joined? <;> rfl

theorem joined?_submitted (c : Submission) (budget : Nat) (store : Store) :
    (Event.submitted c (Machine.evaluate budget c.program store)).joined? =
      if (c.evaluate budget store).any (·.verdict.succeeded) then some c else none := by
  by_cases hclean : c.diagnostics = []
  · rw [Submission.evaluate, if_pos hclean]
    cases Machine.evaluate budget c.program store with
    | none => rfl
    | some o =>
      cases o with
      | done value store' => exact if_pos hclean
      | fault cause store' => rfl
  · rw [Submission.evaluate, if_neg hclean]
    unfold Event.joined?
    split
    next heq =>
      rw [← (Event.submitted.inj heq).1]
      exact if_neg hclean
    next => rfl

section

variable [Xid]

/-- Whether lines are still collected: the first one could not be a command, none is blank, and the
text after each of them has complaints of reading. -/
structure Waiting (held : List (List Char)) : Prop where
  not_blank : ∀ line ∈ held, ¬ Blank line
  not_command : ∀ line ∈ held.head?, line.head? ≠ some '#'
  incomplete : ∀ front, front <+: held → front ≠ [] →
    (Source.parse (collected front)).diagnostics ≠ []

theorem Waiting.nil : Waiting [] := by
  constructor
  · intro line hline
    cases hline
  · intro line hline
    cases hline
  · intro front hfront hne
    exact absurd (List.prefix_nil.mp hfront) hne

theorem Waiting.snoc {held : List (List Char)} (h : Waiting held) (hblank : ¬ Blank line)
    (hhash : held = [] → line.head? ≠ some '#')
    (hcomplaints : (Source.parse (collected (held ++ [line]))).diagnostics ≠ []) :
    Waiting (held ++ [line]) := by
  constructor
  · intro l hl
    rcases List.mem_append.mp hl with hl | hl
    · exact h.not_blank l hl
    · rw [List.mem_singleton.mp hl]
      exact hblank
  · intro l hl
    cases held with
    | nil =>
      cases hl
      exact hhash rfl
    | cons first held => exact h.not_command l hl
  · intro front hfront hne
    rcases List.prefix_concat_iff.mp hfront with rfl | hfront
    · exact hcomplaints
    · exact h.incomplete front hfront hne

/-- What a line is to a session. With nothing collected, a blank line is nothing and a line behind a
hash sign is a command. Else a line completes the text, unless it is not blank and the text still
has complaints of reading. -/
def event (budget : Nat) (r : Repl) (line : List Char) : Event :=
  let text := r.buffer ++ line ++ ['\n']
  let c := (Submission.compile r.chain r.fresh text).submission
  if r.buffer = [] ∧ Blank line then .skipped
  else if r.buffer = [] ∧ line.head? = some '#' then .commanded (Command.ofLine? line)
  else if ¬ Blank line ∧ (Source.parse text).diagnostics ≠ [] then .held
  else .submitted c (Machine.evaluate budget c.program r.store)

/-- Whether the state of a session is what its record tells. -/
structure Record.Coherent (s : Record) : Prop where
  buffer : ∃ held, held <:+ s.lines ∧ s.repl.buffer = collected held ∧ Waiting held
  chain : s.repl.chain = joined s.events
  entered : Submission.Entered s.repl.chain

variable [Graphics]

def Record.feed (s : Record) (budget : Nat) (line : List Char) : Record :=
  ⟨s.log ++ [(line, s.repl.event budget line)], (s.repl.feed budget line).repl⟩

/-- Feeds a session lines, each with the number of steps that a submission may take. -/
def Record.feedAll (s : Record) : List (Nat × List Char) → Record
  | [] => s
  | (budget, line) :: inputs => (s.feed budget line).feedAll inputs

def record (display : Display) (inputs : List (Nat × List Char)) : Record :=
  Record.feedAll ⟨[], start display⟩ inputs

variable {s : Record} {budget : Nat} {text : List Char}

theorem submit_repl (budget : Nat) (r : Repl) (text : List Char) :
    (r.submit budget text).repl =
      let c := Submission.compile r.chain r.fresh text
      match c.submission.evaluate budget r.store with
      | none => { r with fresh := c.fresh }
      | some e =>
        { r with
          fresh := c.fresh
          store := e.store
          chain := if e.verdict.succeeded then c.submission :: r.chain else r.chain } := by
  simp only [submit]
  cases (Submission.compile r.chain r.fresh text).submission.evaluate budget r.store with
  | none => rfl
  | some e =>
    obtain ⟨verdict, store⟩ := e
    cases verdict <;> rfl

theorem submit_buffer : (r.submit budget text).repl.buffer = r.buffer := by
  rw [submit_repl]
  dsimp only
  split <;> rfl

theorem submit_chain : (r.submit budget text).repl.chain =
    (Event.submitted (Submission.compile r.chain r.fresh text).submission
      (Machine.evaluate budget (Submission.compile r.chain r.fresh text).submission.program
        r.store)).joined?.toList ++ r.chain := by
  rw [joined?_submitted, submit_repl]
  dsimp only
  cases (Submission.compile r.chain r.fresh text).submission.evaluate budget r.store with
  | none => rfl
  | some e => cases hsucceeded : e.verdict.succeeded <;> simp [hsucceeded]

theorem submit_store (h : (r.submit budget text).repl.store ≠ r.store) :
    (Submission.compile r.chain r.fresh text).submission.diagnostics = [] := by
  by_contra hfaulty
  apply h
  rw [submit_repl]
  simp only [Submission.evaluate, if_neg hfaulty]

/-- What a line does to a session, by what it is to it. -/
inductive Took (budget : Nat) (r : Repl) (line : List Char) : Event → Reply → Prop
  | skipped : r.buffer = [] → Took budget r line .skipped ⟨r, .empty, .goesOn⟩
  | commanded : r.buffer = [] →
    Took budget r line (.commanded (Command.ofLine? line)) (r.command line)
  | held : ¬ Blank line → (r.buffer = [] → line.head? ≠ some '#') →
    (Source.parse (r.buffer ++ line ++ ['\n'])).diagnostics ≠ [] →
    Took budget r line .held ⟨{ r with buffer := r.buffer ++ line ++ ['\n'] }, .empty, .goesOn⟩
  | submitted {c : Submission} :
    c = (Submission.compile r.chain r.fresh (r.buffer ++ line ++ ['\n'])).submission →
    Took budget r line (.submitted c (Machine.evaluate budget c.program r.store))
      (submit budget { r with buffer := [] } (r.buffer ++ line ++ ['\n']))

theorem took (budget : Nat) (r : Repl) (line : List Char) :
    Took budget r line (r.event budget line) (r.feed budget line) := by
  have hcollect : (r.buffer = [] → line.head? ≠ some '#') → ¬ (r.buffer = [] ∧ Blank line) →
      Took budget r line (r.event budget line) (r.collect budget line) := by
    intro hhash hskip
    have hcommand : ¬ (r.buffer = [] ∧ line.head? = some '#') := fun h => hhash h.1 h.2
    simp only [event, if_neg hskip, if_neg hcommand, collect]
    by_cases hheld : ¬ Blank line ∧ (Source.parse (r.buffer ++ line ++ ['\n'])).diagnostics ≠ []
    · rw [if_pos hheld, if_pos (by simpa [Blank] using hheld)]
      exact .held hheld.1 hhash hheld.2
    · rw [if_neg hheld, if_neg (by simpa [Blank] using hheld)]
      exact .submitted rfl
  unfold feed
  by_cases hbuffer : r.buffer = []
  · rw [if_neg (not_not_intro hbuffer)]
    by_cases hblank : Blank line
    · rw [event, if_pos ⟨hbuffer, hblank⟩, if_pos hblank]
      exact .skipped hbuffer
    · rw [if_neg hblank]
      by_cases hhash : line.head? = some '#'
      · rw [event, if_neg fun h => hblank h.2, if_pos ⟨hbuffer, hhash⟩, if_pos hhash]
        exact .commanded hbuffer
      · rw [if_neg hhash]
        exact hcollect (fun _ => hhash) fun h => hblank h.2
  · rw [if_pos hbuffer]
    exact hcollect (fun h => absurd h hbuffer) fun h => hbuffer h.1

namespace Took

variable {e : Event} {reply : Reply}

/-- The chain after a line is told from what the line was to the session. -/
theorem chain (h : Took budget r line e reply) :
    reply.repl.chain = if e.resets then [] else e.joined?.toList ++ r.chain := by
  cases h with
  | skipped => rfl
  | commanded => exact command_chain
  | held => rfl
  | submitted hc =>
    subst hc
    exact submit_chain

theorem entered (h : Took budget r line e reply) (hentered : Submission.Entered r.chain) :
    Submission.Entered reply.repl.chain := by
  rw [h.chain]
  cases h with
  | skipped => exact hentered
  | held => exact hentered
  | commanded =>
    split
    · exact .nil
    · exact hentered
  | submitted hc =>
    rw [joined?_submitted, hc]
    split
    · exact .nil
    · split
      · exact .cons _ _ hentered
      · exact hentered

/-- The text that is collected after a line: none, or that of the lines held before and this one. -/
theorem buffer (h : Took budget r line e reply) {held : List (List Char)}
    (hbuffer : r.buffer = collected held) (hwaiting : Waiting held) :
    reply.repl.buffer = [] ∨
      reply.repl.buffer = collected (held ++ [line]) ∧ Waiting (held ++ [line]) := by
  cases h with
  | skipped hempty => exact .inl hempty
  | commanded hempty => exact .inl (command_buffer.trans hempty)
  | submitted => exact .inl submit_buffer
  | held hblank hhash hcomplaints =>
    rw [hbuffer, ← collected_append] at hcomplaints
    refine .inr ⟨by rw [collected_append, hbuffer], hwaiting.snoc hblank ?_ hcomplaints⟩
    intro hheld
    exact hhash (hbuffer.trans (collected_eq_nil.mpr hheld))

/-- A line changes the store only if it is a reset or completes a submission without complaints. -/
theorem store (h : Took budget r line e reply) (hchanged : reply.repl.store ≠ r.store) :
    e = .commanded (some .reset) ∨ ∃ c run, e = .submitted c run ∧ c.diagnostics = [] := by
  cases h with
  | skipped => exact absurd rfl hchanged
  | held => exact absurd rfl hchanged
  | commanded => exact .inl (congrArg Event.commanded (command_store hchanged))
  | submitted hc =>
    have hclean := submit_store (r := { r with buffer := [] }) hchanged
    exact .inr ⟨_, _, rfl, hc ▸ hclean⟩

end Took

theorem Record.Coherent.feed (h : s.Coherent) (budget : Nat) (line : List Char) :
    (s.feed budget line).Coherent := by
  have htook := took budget s.repl line
  constructor
  · obtain ⟨held, ⟨earlier, hearlier⟩, hbuffer, hwaiting⟩ := h.buffer
    have hlines : (s.feed budget line).lines = s.lines ++ [line] := List.map_append
    rcases htook.buffer hbuffer hwaiting with hempty | ⟨hbuffer', hwaiting'⟩
    · exact ⟨[], List.nil_suffix, hempty, .nil⟩
    · refine ⟨held ++ [line], ?_, hbuffer', hwaiting'⟩
      rw [hlines, ← hearlier, List.append_assoc]
      exact List.suffix_append earlier (held ++ [line])
  · have hevents : (s.feed budget line).events = s.events ++ [s.repl.event budget line] :=
      List.map_append
    rw [hevents, joined_append, ← h.chain]
    exact htook.chain
  · exact htook.entered h.entered

theorem Record.Coherent.feedAll (h : s.Coherent) (inputs : List (Nat × List Char)) :
    (s.feedAll inputs).Coherent := by
  induction inputs generalizing s with
  | nil => exact h
  | cons input inputs ih => exact ih (h.feed input.1 input.2)

/-- A session stays coherent, whatever lines it is fed, also beyond one behind which it does not go
on. The text that is collected is made of the last lines: none is blank, the first one does not start with a hash
sign, and the text after each of them has complaints of reading. The chain consists of the
submissions since the last reset that had no complaints and ran to their ends, newest first, each
compiled behind those before it. And a further line changes the store only if it is a reset, or
completes a submission without complaints. -/
theorem stays_coherent (display : Display) (inputs : List (Nat × List Char)) :
    (record display inputs).Coherent ∧
      ∀ budget line, ((record display inputs).repl.feed budget line).repl.store ≠
          (record display inputs).repl.store →
        (record display inputs).repl.event budget line = .commanded (some .reset) ∨
          ∃ c run, (record display inputs).repl.event budget line = .submitted c run ∧
            c.diagnostics = [] := by
  refine ⟨?_, fun budget line => (took budget _ line).store⟩
  exact Record.Coherent.feedAll ⟨⟨[], List.nil_suffix, rfl, .nil⟩, rfl, .nil⟩ inputs

end

open scoped Xid Graphics in
/-- A line behind a hash sign is no command while text is collected. -/
example : (record {} [(9, "\x7b".toList), (9, "#reset".toList)]).repl.buffer =
    "\x7b\n#reset\n".toList := by
  decide +kernel

end Repl

end Lumen
