import Lumen.Proofs.Source.Shape
import Lumen.Proofs.Token.Tiling

/-!
# Where the complaints of reading point

The span of every token of a text cuts out exactly the text of the token, between two characters.
A leaf that was made up stands where a token starts, so the span of every phrase is between two
characters, too. The complaints of scanning are about tokens, and so are those about unexpected
tokens; both come in the order of their positions.
-/

namespace Lumen

theorem Text.eq_nil_of_size {text : List Char} (h : size text = 0) : text = [] := by
  cases text with
  | nil => rfl
  | cons c cs =>
    have hpos := c.utf8Size_pos
    rw [size_cons] at h
    omega

theorem TokenKind.keywordText?_of_punctuation {kind : TokenKind} {word : String}
    (h : kind.punctuationText? = some word) : kind.keywordText? = none := by
  cases kind <;> first | rfl | cases h

/-- Whether a span cuts a piece out of a text, between two characters on either side. -/
def Span.Cuts (s : Span) (text piece : List Char) : Prop :=
  ∃ before behind, text = before ++ piece ++ behind ∧ s = ⟨Text.size before, Text.size piece⟩

namespace Span

variable {s : Span} {text piece : List Char}

theorem Cuts.slice_eq (h : s.Cuts text piece) : s.slice text = piece := by
  obtain ⟨before, behind, rfl, rfl⟩ := h
  exact slice_append before piece behind

theorem Cuts.boundaries (h : s.Cuts text piece) :
    Text.IsBoundary text s.start ∧ Text.IsBoundary text s.stop := by
  obtain ⟨before, behind, rfl, rfl⟩ := h
  refine ⟨⟨before, piece ++ behind, List.append_assoc .., rfl⟩, ⟨before ++ piece, behind, rfl, ?_⟩⟩
  exact (Text.size_append before piece).symm

theorem exists_cuts (hstart : Text.IsBoundary text s.start)
    (hstop : Text.IsBoundary text s.stop) : ∃ piece, s.Cuts text piece := by
  obtain ⟨a, b, rfl, ha⟩ := hstart
  obtain ⟨a', b', hsplit, ha'⟩ := hstop
  obtain ⟨start, length⟩ := s
  change start = _ at ha
  change start + length = _ at ha'
  rcases List.append_eq_append_iff.mp hsplit with ⟨piece, rfl, rfl⟩ | ⟨extra, rfl, rfl⟩
  · refine ⟨piece, a, b', (List.append_assoc ..).symm, ?_⟩
    rw [Text.size_append] at ha'
    rw [Span.mk.injEq]
    omega
  · rw [Text.size_append] at ha
    have hextra : extra = [] := Text.eq_nil_of_size (by omega)
    subst hextra
    refine ⟨[], a', b, by simp, ?_⟩
    rw [Text.size_nil] at ha ⊢
    rw [Span.mk.injEq]
    omega

end Span

theorem Source.span_of_fault? {t : Token} {d : Diagnostic} (h : t.fault? = some d) :
    d.span = t.span := by
  rw [Token.fault?] at h
  split at h <;> cases h <;> rfl

theorem Source.faults_ordered {ts : List Token} (h : ts.Pairwise (·.start < ·.start)) :
    (Token.faults ts).Pairwise (·.span.start ≤ ·.span.start) := by
  refine List.pairwise_filterMap.mpr (h.imp fun hlt d hd d' hd' => ?_)
  rw [Source.span_of_fault? hd, Source.span_of_fault? hd']
  exact Nat.le_of_lt hlt

variable [Xid]

/-- Whether a span is that of a token of a text, with given characters and of a given sort; then it
cuts them out of the text. -/
def Source.IsToken (text : List Char) (s : Span) (word : String) (sort : TokenKind → Prop) : Prop :=
  s.Cuts text word.toList ∧ ∃ t ∈ Token.scan text, t.span = s ∧ t.text = word ∧ sort t.kind

theorem Token.cuts_of_mem {text : List Char} {t : Token} (h : t ∈ scan text) :
    t.span.Cuts text t.text.toList := by
  rw [(scan_eq text).1] at h
  rcases List.mem_append.mp h with h | h
  · obtain ⟨before, behind, hsplit, hstart, -⟩ := exists_prescribed h
    refine ⟨before, behind, hsplit, ?_⟩
    rw [span, hstart]
  · cases List.mem_singleton.mp h
    refine ⟨text, [], ?_, rfl⟩
    rw [List.append_nil]
    exact (List.append_nil text).symm

theorem Token.text_of_punctuation {text : List Char} {t : Token} {word : String}
    (h : t ∈ scan text) (hword : t.kind.punctuationText? = some word) : t.text = word := by
  rw [(scan_eq text).1] at h
  rcases List.mem_append.mp h with h | h
  · obtain ⟨behind, hprescribed⟩ := prescribed_of_mem h
    generalize hkind : t.kind = kind at hword hprescribed
    generalize htext : t.text.toList = letters at hprescribed
    generalize t.value = value at hprescribed
    cases hprescribed with
    | sign hspelled =>
      rw [hword] at hspelled
      rw [Option.some.inj hspelled, ← htext, String.ofList_toList]
    | keyword _ _ _ _ hspelled =>
      rw [TokenKind.keywordText?_of_punctuation hword] at hspelled
      cases hspelled
    | number | name | stray => cases hword
  · cases List.mem_singleton.mp h
    cases hword

namespace Source

open Lumen.Tree (Expr Stmt Parsed)

variable {text : List Char} {t : Token} {d : Diagnostic}

theorem isToken_of_kind {kind : TokenKind} (h : t ∈ Token.scan text) (hkind : t.kind = kind) :
    IsToken text t.span t.text (· = kind) :=
  ⟨Token.cuts_of_mem h, t, h, rfl, rfl, hkind⟩

theorem mem_scan_of_significant (h : t ∈ significant (Token.scan text)) : t ∈ Token.scan text :=
  (List.mem_filter.mp h).1

theorem mem_scan_of_stream (h : t ∈ significant (Token.scan text) ++ [endToken text]) :
    t ∈ Token.scan text := by
  rw [← signs_eq] at h
  exact (List.mem_filter.mp h).1

/-- The span of a whole expression runs between two characters from its first leaf to its last
one. -/
theorem span_of_readIn {e : Expr} (h : e.ReadIn (endToken text) (significant (Token.scan text))) :
    e.span.Covers e.leaves ∧ ∃ piece, e.span.Cuts text piece := by
  obtain ⟨ts, rest, f, hsuffix, hread⟩ := h
  have hts := (stream_significant text).of_suffix hsuffix
  have hcovers := hread.span_covers hts
  have hleaf : ∀ t ∈ e.leaves, Text.IsBoundary text t.start ∧ Text.IsBoundary text t.stop := by
    intro t ht
    rcases (hread.laid hts).leaf t ht with ht | ⟨u, hu, kind, rfl⟩
    · exact (Token.cuts_of_mem (mem_scan_of_significant (hsuffix.subset ht))).boundaries
    · have hu : u ∈ significant (Token.scan text) ++ [endToken text] :=
        List.mem_append.mpr ((List.mem_append.mp hu).imp_left (hsuffix.subset ·))
      have hstart := (Token.cuts_of_mem (mem_scan_of_stream hu)).boundaries.1
      exact ⟨hstart, hstart⟩
  refine ⟨hcovers, ?_⟩
  obtain ⟨first, last, hfirst, hlast, hstart, hstop⟩ := hcovers
  refine Span.exists_cuts ?_ ?_
  · rw [hstart]
    exact (hleaf first (List.mem_of_mem_head? hfirst)).1
  · rw [hstop]
    exact (hleaf last (List.mem_of_mem_getLast? hlast)).2

/-- The complaints of reading a text are first those of scanning and then those about unexpected
tokens, each in order. -/
structure InOrder (text : List Char) (faults : List Diagnostic) : Prop where
  exists_split : ∃ scanned parsed, faults = scanned ++ parsed ∧
    (∀ d ∈ scanned, ∃ t ∈ Token.scan text, t.fault? = some d) ∧
    (∀ d ∈ parsed, ∃ t ∈ Token.scan text, ∃ kind, d = Parsed.unexpected t kind) ∧
    scanned.Pairwise (·.span.start ≤ ·.span.start) ∧ parsed.Pairwise (·.span.start ≤ ·.span.start)

theorem mem_scan_of_fault (stopped : Token) :
    ∀ d ∈ Token.faults (readUpTo stopped (Token.scan text)),
      ∃ t ∈ Token.scan text, t.fault? = some d := by
  intro d hd
  obtain ⟨t, ht, hfault⟩ := List.mem_filterMap.mp hd
  exact ⟨t, (List.mem_filter.mp ht).1, hfault⟩

/-- The complaints about unexpected tokens that are found on the way come in order, up to the token
at which reading stops. -/
theorem parsed_inOrder {s : Stmt} {rest dropped : List Token} {f : List Diagnostic}
    (h : Tree.ReadsStmt (endToken text) (significant (Token.scan text)) s rest f dropped) :
    (∀ d ∈ f, ∃ t ∈ Token.scan text, ∃ kind, d = Parsed.unexpected t kind) ∧
      f.Pairwise (·.span.start ≤ ·.span.start) ∧
        ∀ d ∈ f, d.span.start ≤ (rest.headD (endToken text)).start := by
  have hlaid := h.laid (stream_significant text)
  have hordered := List.pairwise_map.mp hlaid.faults_between.ordered
  refine ⟨fun d hd => ?_, hordered.imp fun hle => hle, fun d hd => ?_⟩
  · obtain ⟨t, ht, kind, rfl⟩ := hlaid.fault d hd
    exact ⟨t, mem_scan_of_stream ht, kind, rfl⟩
  · exact hlaid.faults_between.high _ (List.mem_map_of_mem hd)

theorem inOrder_parse (text : List Char) : InOrder text (parse text).diagnostics := by
  have hscanned (stopped : Token) := faults_ordered
    ((Token.scan_ordered text).sublist (List.filter_sublist (p := fun t => t.start ≤ stopped.start)))
  have hread := reads_parse text
  generalize parse text = src at hread
  cases hread with
  | whole h =>
    obtain ⟨hfound, hordered, -⟩ := parsed_inOrder h
    exact ⟨_, _, rfl, mem_scan_of_fault _, hfound, hscanned _, hordered⟩
  | @part s found rest f h =>
    obtain ⟨hfound, hordered, hbefore⟩ := parsed_inOrder h
    have hmem : found ∈ Token.scan text := by
      have hsuffix := (h.laid (stream_significant text)).suffix
      exact mem_scan_of_significant (hsuffix.subset List.mem_cons_self)
    refine ⟨_, _, rfl, mem_scan_of_fault _, ?_, hscanned _, ?_⟩
    · exact List.forall_mem_append.mpr
        ⟨hfound, List.forall_mem_singleton.mpr ⟨found, hmem, _, rfl⟩⟩
    · refine List.pairwise_append.mpr ⟨hordered, List.pairwise_singleton .., fun d hd d' hd' => ?_⟩
      cases List.mem_singleton.mp hd'
      exact hbefore d hd

end Source

end Lumen
