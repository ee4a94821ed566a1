import Lumen.Proofs.Session.Coherence
import Lumen.Proofs.Text.Decoding
import Lumen.Text.Identifier.Table

/-!
# What becomes of the lines of an input

A line that is neither skipped nor a command counts: it is part of the text that is collected. When
the text is handed over to be submitted, all its lines go with it, and something is said about it.
So the lines that count are, in order, those of the texts that are handed over and those that are
still held at the end of the input; the latter are dropped, and nothing is said about them.
-/

namespace Lumen.Repl

namespace Event

def exits : Event → Bool
  | commanded (some .exit) => true
  | _ => false

/-- Whether a line is part of a text to be submitted. -/
def counts : Event → Bool
  | held => true
  | submitted .. => true
  | _ => false

def text? : Event → Option (List Char)
  | submitted c _ => some c.source.text
  | _ => none

end Event

namespace Record

def counted (s : Record) : List (List Char) := (s.log.filter (·.2.counts)).map Prod.fst

def handed (s : Record) : List (List Char) := s.events.filterMap Event.text?

/-- Whether every line that counts is part of one text that is handed over, in the order of the
lines. -/
def HandsOver (s : Record) : Prop :=
  ∃ texts : List (List (List Char)), s.counted = texts.flatten ∧ s.handed = texts.map collected

end Record

theorem collected_flatten (texts : List (List (List Char))) :
    collected texts.flatten = (texts.map collected).flatten := by
  induction texts with
  | nil => rfl
  | cons text texts ih =>
    rw [List.flatten_cons, List.map_cons, List.flatten_cons, ← ih]
    exact List.flatMap_append

section

variable [Xid] {r : Repl} {s : Record} {budget : Nat} {line : List Char} {e : Event}
  {reply : Reply} {texts : List (List (List Char))} {held : List (List Char)}

/-- Whether texts, each given by its lines, are handed over, and further lines are still held. -/
structure Record.Accounts (s : Record) (texts : List (List (List Char))) (held : List (List Char)) :
    Prop where
  counted : s.counted = texts.flatten ++ held
  handed : s.handed = texts.map collected
  buffer : s.repl.buffer = collected held
  waiting : Waiting held

/-- All lines that count are handed over exactly if none of them is still held. -/
theorem Record.Accounts.handsOver_iff (h : s.Accounts texts held) : s.HandsOver ↔ held = [] := by
  constructor
  · rintro ⟨others, hcounted, hhanded⟩
    have hsame : collected others.flatten = collected texts.flatten := by
      rw [collected_flatten, collected_flatten, ← hhanded, h.handed]
    have hlines : collected (texts.flatten ++ held) = collected texts.flatten := by
      rw [← hsame, ← hcounted, h.counted]
    rw [collected, List.flatMap_append] at hlines
    exact collected_eq_nil.mp (List.append_right_eq_self.mp hlines)
  · rintro rfl
    exact ⟨texts, by rw [h.counted, List.append_nil], h.handed⟩

/-- A line counts unless nothing is collected and it is blank or starts with a hash sign. -/
theorem counts_event : (r.event budget line).counts = true ↔
    ¬ (r.buffer = [] ∧ (Blank line ∨ line.head? = some '#')) := by
  rw [event]
  by_cases hskip : r.buffer = [] ∧ Blank line
  · rw [if_pos hskip]
    exact iff_of_false Bool.false_ne_true fun h => h ⟨hskip.1, .inl hskip.2⟩
  · rw [if_neg hskip]
    by_cases hcommand : r.buffer = [] ∧ line.head? = some '#'
    · rw [if_pos hcommand]
      exact iff_of_false Bool.false_ne_true fun h => h ⟨hcommand.1, .inr hcommand.2⟩
    · rw [if_neg hcommand]
      refine iff_of_true ?_ ?_
      · split <;> rfl
      · rintro ⟨hbuffer, hblank | hhash⟩
        · exact hskip ⟨hbuffer, hblank⟩
        · exact hcommand ⟨hbuffer, hhash⟩

variable [Graphics]

/-- What is written about a submission: the dumps that are asked for, and its complaints or else
what became of its run. -/
def report (display : Display) (c : Submission) (run : Option (Outcome (Option Value))) : Output :=
  dumps display c ++
    if c.diagnostics ≠ [] then Console.diagnostics ⟨"", c.source, display.color⟩ c.diagnostics
    else
      match run with
      | none => .empty
      | some (.done none _) => .empty
      | some (.done (some v) _) => Console.value display.color v
      | some (.fault cause _) => Console.error display.color cause.message

def answer (r : Repl) (line : List Char) : Event → Output
  | .skipped => .empty
  | .commanded _ => (r.command line).output
  | .held => .empty
  | .submitted c run => report r.display c run

/-- All that is written about lines, with a prompt in front of each and one at the end. -/
def transcript (budget : Nat) (r : Repl) : List (List Char) → Output
  | [] => r.prompt
  | line :: lines =>
    r.prompt ++ r.answer line (r.event budget line) ++
      transcript budget (r.feed budget line).repl lines

theorem output_submit (budget : Nat) (r : Repl) (text : List Char) :
    (r.submit budget text).output =
      let c := (Submission.compile r.chain r.fresh text).submission
      report r.display c (Machine.evaluate budget c.program r.store) := by
  simp only [submit, report, Submission.evaluate]
  by_cases hclean : (Submission.compile r.chain r.fresh text).submission.diagnostics = []
  · rw [if_pos hclean, if_neg (not_not_intro hclean)]
    cases Machine.evaluate budget (Submission.compile r.chain r.fresh text).submission.program
      r.store with
    | none => exact (Output.append_empty _).symm
    | some o =>
      cases o with
      | done value store => cases value <;> rfl
      | fault cause store => rfl
  · rw [if_neg hclean, if_pos hclean]

theorem step_submit (budget : Nat) (r : Repl) (text : List Char) :
    (r.submit budget text).step ≠ .exits := by
  intro h
  simp only [submit] at h
  cases hrun : (Submission.compile r.chain r.fresh text).submission.evaluate budget r.store with
  | none =>
    rw [hrun] at h
    cases h
  | some e =>
    rw [hrun] at h
    cases hverdict : e.verdict with
    | finished _ | rejected | faulted _ =>
      simp only [hverdict] at h
      cases h

theorem Took.output (h : Took budget r line e reply) : reply.output = r.answer line e := by
  cases h with
  | skipped => rfl
  | commanded => rfl
  | held => rfl
  | submitted hc =>
    subst hc
    exact output_submit budget { r with buffer := [] } _

theorem Took.exits_iff (h : Took budget r line e reply) :
    reply.step = .exits ↔ e.exits = true := by
  cases h with
  | skipped => exact iff_of_false nofun Bool.false_ne_true
  | held => exact iff_of_false nofun Bool.false_ne_true
  | commanded =>
    unfold command
    split
    next c hc => rw [hc]; cases c <;> simp [obey, Event.exits]
    next hc => rw [hc]; simp [Event.exits]
  | submitted => exact iff_of_false (step_submit budget { r with buffer := [] } _) Bool.false_ne_true

namespace Record

theorem counted_feed (s : Record) (budget : Nat) (line : List Char) :
    (s.feed budget line).counted =
      s.counted ++ if (s.repl.event budget line).counts then [line] else [] := by
  rw [counted, feed, List.filter_append, List.map_append]
  cases hcounts : (s.repl.event budget line).counts <;> simp [counted, hcounts]

theorem handed_feed (s : Record) (budget : Nat) (line : List Char) :
    (s.feed budget line).handed = s.handed ++ (s.repl.event budget line).text?.toList := by
  have hevents : (s.feed budget line).events = s.events ++ [s.repl.event budget line] :=
    List.map_append
  rw [handed, hevents, List.filterMap_append]
  cases htext : (s.repl.event budget line).text? <;> simp [handed, htext]

/-- A further line does not count, or is held with those before it, or completes the text that they
make up. -/
theorem Accounts.feed (h : s.Accounts texts held) (budget : Nat) (line : List Char) :
    ∃ texts held, (s.feed budget line).Accounts texts held := by
  have htook := took budget s.repl line
  have hcounted := s.counted_feed budget line
  have hhanded := s.handed_feed budget line
  generalize s.repl.event budget line = e at htook hcounted hhanded
  generalize hreply : s.repl.feed budget line = reply at htook
  have hrepl : (s.feed budget line).repl = reply.repl := congrArg Reply.repl hreply
  cases htook with
  | skipped =>
    refine ⟨texts, held, ?_, ?_, hrepl ▸ h.buffer, h.waiting⟩
    · simpa [Event.counts, h.counted] using hcounted
    · simpa [Event.text?, h.handed] using hhanded
  | commanded =>
    refine ⟨texts, held, ?_, ?_, by rw [hrepl, command_buffer, h.buffer], h.waiting⟩
    · simpa [Event.counts, h.counted] using hcounted
    · simpa [Event.text?, h.handed] using hhanded
  | held hblank hhash hcomplaints =>
    rw [h.buffer, ← collected_append] at hcomplaints
    refine ⟨texts, held ++ [line], ?_, ?_, ?_, h.waiting.snoc hblank ?_ hcomplaints⟩
    · simpa [Event.counts, h.counted] using hcounted
    · simpa [Event.text?, h.handed] using hhanded
    · rw [hrepl, collected_append, h.buffer]
    · intro hheld
      exact hhash (h.buffer.trans (collected_eq_nil.mpr hheld))
  | @submitted c hc =>
    have htext : c.source.text = collected (held ++ [line]) := by
      rw [hc, collected_append, ← h.buffer]
      rfl
    refine ⟨texts ++ [held ++ [line]], [], ?_, ?_, hrepl ▸ submit_buffer, .nil⟩
    · simpa [Event.counts, h.counted] using hcounted
    · simpa [Event.text?, h.handed, htext] using hhanded

theorem Accounts.feedAll (h : s.Accounts texts held) (inputs : List (Nat × List Char)) :
    ∃ texts held, (s.feedAll inputs).Accounts texts held := by
  induction inputs generalizing s texts held with
  | nil => exact ⟨texts, held, h⟩
  | cons input inputs ih =>
    obtain ⟨texts, held, h⟩ := h.feed input.1 input.2
    exact ih h

end Record

theorem Record.events_prefix (s : Record) (inputs : List (Nat × List Char)) :
    s.events <+: (s.feedAll inputs).events := by
  induction inputs generalizing s with
  | nil => exact List.prefix_refl _
  | cons input inputs ih =>
    have hfeed : s.events <+: (s.feed input.1 input.2).events := by
      rw [Record.events, Record.events, Record.feed, List.map_append]
      exact List.prefix_append _ _
    exact hfeed.trans (ih _)

def inputs (budget : Nat) (text : List Char) : List (Nat × List Char) :=
  (Text.lines text).map fun line => (budget, Text.trimLineEnd line)

theorem finish_eq_transcript {lines : List (List Char)} {finish : Finish}
    (hrun : s.repl.run budget (lines.map some) = some finish)
    (hopen : (s.feedAll (lines.map fun line => (budget, Text.trimLineEnd line))).events.any
      Event.exits = false) :
    finish = ⟨transcript budget s.repl (lines.map Text.trimLineEnd), 0⟩ := by
  induction lines generalizing s finish with
  | nil => exact (Option.some.inj hrun).symm
  | cons line lines ih =>
    have htook := took budget s.repl (Text.trimLineEnd line)
    have hmem : s.repl.event budget (Text.trimLineEnd line) ∈
        (s.feed budget (Text.trimLineEnd line)).events := by
      simp [Record.events, Record.feed]
    have hnot : ¬ (s.repl.event budget (Text.trimLineEnd line)).exits = true :=
      List.any_eq_false.mp hopen _
        ((Record.events_prefix (s.feed budget (Text.trimLineEnd line)) _).subset hmem)
    rw [List.map_cons, run] at hrun
    cases hstep : (s.repl.feed budget (Text.trimLineEnd line)).step with
    | exits => exact absurd (htook.exits_iff.mp hstep) hnot
    | hangs =>
      rw [hstep] at hrun
      cases hrun
    | goesOn =>
      rw [hstep] at hrun
      obtain ⟨rest, hrest, hfinish⟩ := Option.map_eq_some_iff.mp hrun
      have hbehind := ih (s := s.feed budget (Text.trimLineEnd line)) hrest hopen
      rw [← hfinish, hbehind, List.map_cons, transcript, ← htook.output]
      rfl

/-- What becomes of an input that is a text and is read to its end. The session writes the prompts
and what is said about each line, and ends with success. A line counts unless it is blank or starts
with a hash sign while nothing is collected. The lines that count are, in order, those of the texts
that are handed over to be submitted, and those that are held at the end. Hence all lines that count
are handed over exactly if none is held then. The lines that are held make a text with complaints,
and nothing is said about them. -/
theorem dropped_iff_held (display : Display) (budget : Nat) {input : List UInt8}
    {text : List Char} {finish : Finish} (hinput : CommandLine.decode? input = some text)
    (hrun : (start display).run budget ((CommandLine.splitLines input).map CommandLine.decode?) =
      some finish)
    (hopen : (record display (inputs budget text)).events.any Event.exits = false) :
    finish = ⟨transcript budget (start display) ((Text.lines text).map Text.trimLineEnd), 0⟩ ∧
      (∀ (r : Repl) (line : List Char), (r.event budget line).counts = true ↔
        ¬ (r.buffer = [] ∧ (Blank line ∨ line.head? = some '#'))) ∧
      ∃ texts held, (record display (inputs budget text)).Accounts texts held ∧
        ((record display (inputs budget text)).HandsOver ↔ held = []) := by
  refine ⟨?_, fun r line => counts_event, ?_⟩
  · rw [CommandLine.map_decode?_splitLines hinput] at hrun
    exact finish_eq_transcript (s := ⟨[], start display⟩) hrun hopen
  · have hempty : Record.Accounts ⟨[], start display⟩ [] [] := ⟨rfl, rfl, rfl, .nil⟩
    obtain ⟨texts, held, haccounts⟩ := hempty.feedAll (inputs budget text)
    exact ⟨texts, held, haccounts, haccounts.handsOver_iff⟩

end

open scoped Xid Graphics

/-- A command, a blank line and two texts that are handed over, the second with complaints after a
blank line; two more lines are dropped. -/
theorem dropped_iff_held_of_two_texts :
    let text := "#showTree\n\nvar a = 4\n\x7b a\n#\n\n2 $\n3".toList
    let s := record {} (inputs 9 text)
    s.handed = ["var a = 4\n".toList, "\x7b a\n#\n\n".toList] ∧
      s.repl.buffer = "2 $\n3\n".toList ∧ CommandLine.decode? (Text.bytes text) = some text ∧
      s.events.any Event.exits = false ∧
      (start {}).run 9 ((CommandLine.splitLines (Text.bytes text)).map CommandLine.decode?) =
        some ⟨transcript 9 (start {}) ((Text.lines text).map Text.trimLineEnd), 0⟩ ∧
      ∃ texts held, s.Accounts texts held ∧ (s.HandsOver ↔ held = []) := by
  intro text s
  have hinput : CommandLine.decode? (Text.bytes text) = some text :=
    CommandLine.decode?_eq_some_iff.mpr rfl
  have hopen : s.events.any Event.exits = false := by decide +kernel
  have hended : ((start {}).run 9 ((Text.lines text).map some)).isSome = true := by decide +kernel
  rw [← CommandLine.map_decode?_splitLines hinput] at hended
  obtain ⟨finish, hrun⟩ := Option.isSome_iff_exists.mp hended
  obtain ⟨hfinish, -, haccounts⟩ := dropped_iff_held {} 9 hinput hrun hopen
  exact ⟨by decide +kernel, by decide +kernel, hinput, hopen, hrun.trans (congrArg some hfinish),
    haccounts⟩

/-- A line with a bad character, at the end of an input: the line is not handed over, and the
session writes two prompts and ends with success. -/
theorem dropped_without_a_word :
    let text := "1 $\n".toList
    let s := record {} (inputs 9 text)
    CommandLine.decode? (Text.bytes text) = some text ∧ s.events.any Event.exits = false ∧
      s.counted = ["1 $".toList] ∧ ¬ s.HandsOver ∧
      (Source.parse text).diagnostics.map Diagnostic.code = [1002] ∧
      (start {}).run 9
        ((CommandLine.splitLines (Text.bytes text)).map CommandLine.decode?) =
          some ⟨⟨"» · ", ""⟩, 0⟩ := by
  intro text s
  have hinput : CommandLine.decode? (Text.bytes text) = some text :=
    CommandLine.decode?_eq_some_iff.mpr rfl
  have hcounted : s.counted = ["1 $".toList] := by decide +kernel
  have hhanded : s.handed = [] := by decide +kernel
  refine ⟨hinput, by decide +kernel, hcounted, ?_, by decide +kernel, ?_⟩
  · rintro ⟨texts, hlines, htexts⟩
    rw [hhanded] at htexts
    rw [List.map_eq_nil_iff.mp htexts.symm, hcounted] at hlines
    cases hlines
  · rw [CommandLine.map_decode?_splitLines hinput]
    decide +kernel

end Lumen.Repl
