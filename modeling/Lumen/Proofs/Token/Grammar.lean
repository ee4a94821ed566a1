import Lumen.Proofs.Token.Spelling

/-!
# The lexical grammar

Which pieces of a text are tokens, said without reading the text. A numeral is a run of digits that
no digit follows, and a word a run of identifier characters that no such character follows; a word
is a keyword if it is spelled like one. A sign is the longest of those that the text goes on with,
and a character that starts none of these is a token by itself. The first piece of a text is the
one that the grammar prescribes there.
-/

namespace Lumen

namespace Text

theorem endsRun_dropWhile (p : Char → Bool) (text : List Char) :
    EndsRun p (text.dropWhile p) := by
  intro c hc
  have hhead := List.head?_dropWhile_not p text
  rw [Option.mem_def.mp hc] at hhead
  exact hhead

theorem not_isDigit_of_isIdentifierStart [Xid] {c : Char} (h : isIdentifierStart c = true) :
    c.isDigit = false := by
  refine Bool.eq_false_iff.mpr fun hdigit => ?_
  obtain ⟨hlow, hhigh⟩ := Bool.and_eq_true_iff.mp hdigit
  have hlow : 48 ≤ c.toNat := of_decide_eq_true hlow
  have hhigh : c.toNat ≤ 57 := of_decide_eq_true hhigh
  rcases Bool.or_eq_true_iff.mp h with h | hother
  · rcases Bool.or_eq_true_iff.mp h with hscore | hletter
    · cases of_decide_eq_true hscore
      exact absurd hhigh (by decide)
    · rcases Bool.or_eq_true_iff.mp hletter with hupper | hlower
      · have hbounds : 'A'.val ≤ c.val ∧ c.val ≤ 'Z'.val := of_decide_eq_true hupper
        have hletter : 65 ≤ c.toNat := hbounds.1
        omega
      · have hletter : 97 ≤ c.toNat := of_decide_eq_true (Bool.and_eq_true_iff.mp hlower).1
        omega
  · have hbeyond : 0x7F < c.toNat := of_decide_eq_true (Bool.and_eq_true_iff.mp hother).1
    omega

/-- Whether a value is the one that a numeral writes: the word for its number, or none if there is
no such word. -/
def WritesNumber (digits : List Char) : Option Value → Prop
  | some (.int n) => n.toInt = numeralValue digits
  | some (.bool _) => False
  | none => Int64.maxValue.toInt < numeralValue digits

theorem writesNumber_iff {digits : List Char} {value : Option Value} :
    WritesNumber digits value ↔ value = (int64? digits).map .int := by
  have hmax : Int64.maxValue.toInt = 2 ^ 63 - 1 := by decide
  rw [int64?]
  by_cases hn : numeralValue digits < 0x8000000000000000
  · have hword : (Int64.ofNat (numeralValue digits)).toInt = numeralValue digits :=
      Int64.toInt_ofNat_of_lt hn
    rw [if_pos hn, Option.map_some]
    match value with
    | none =>
      refine iff_of_false (fun hbeyond => ?_) nofun
      rw [WritesNumber, hmax] at hbeyond
      omega
    | some (.bool b) => exact iff_of_false not_false (by simp)
    | some (.int n) =>
      rw [WritesNumber, ← hword, Int64.toInt_inj]
      simp
  · rw [if_neg hn, Option.map_none]
    match value with
    | none =>
      refine iff_of_true ?_ rfl
      rw [WritesNumber, hmax]
      omega
    | some (.bool b) => exact iff_of_false not_false nofun
    | some (.int n) =>
      have hbound := n.toInt_lt
      refine iff_of_false (fun hvalue => ?_) nofun
      rw [WritesNumber] at hvalue
      omega

end Text

namespace TokenKind

def truth? : TokenKind → Option Value
  | trueKeyword => some (.bool true)
  | falseKeyword => some (.bool false)
  | _ => none

theorem truth?_eq_none {kind : TokenKind} (htrue : kind ≠ trueKeyword)
    (hfalse : kind ≠ falseKeyword) : kind.truth? = none := by
  unfold truth?
  split
  · exact absurd rfl htrue
  · exact absurd rfl hfalse
  · rfl

theorem ofKeyword?_eq_some_iff {text : String} {kind : TokenKind} :
    ofKeyword? text = some kind ↔ kind.keywordText? = some text := by
  constructor
  · intro h
    have hfound := List.find?_some h
    exact of_decide_eq_true hfound
  · intro h
    cases kind <;> cases h <;> decide

end TokenKind

namespace Lexeme

variable {c d : Char} {cs rest : List Char} {kind : TokenKind} {text : String}

theorem punctuationText?_of_singleSign? (h : singleSign? c = some kind) :
    kind.punctuationText? = some (String.ofList [c]) := by
  unfold singleSign? at h
  split at h <;> cases h <;> rfl

theorem punctuationText?_of_doubleSign? (h : doubleSign? c d = some kind) :
    kind.punctuationText? = some (String.ofList [c, d]) := by
  unfold doubleSign? at h
  split at h <;> cases h <;> rfl

theorem sign_of_punctuationText? (h : kind.punctuationText? = some text) :
    (∃ c, text = String.ofList [c] ∧ singleSign? c = some kind) ∨
      ∃ c d, text = String.ofList [c, d] ∧ doubleSign? c d = some kind := by
  cases kind <;> cases h <;> first
    | exact Or.inl ⟨_, rfl, rfl⟩
    | exact Or.inr ⟨_, _, rfl, rfl⟩

theorem not_isLayout_of_punctuationText?
    (h : kind.punctuationText? = some (String.ofList (c :: cs))) : Text.isLayout c = false := by
  obtain ⟨a, htext, hsign⟩ | ⟨a, b, htext, hsign⟩ := sign_of_punctuationText? h
  · obtain ⟨rfl, rfl⟩ := List.cons.inj (String.ofList_injective htext)
    unfold singleSign? at hsign
    split at hsign <;> first | decide | cases hsign
  · obtain ⟨rfl, rfl⟩ := List.cons.inj (String.ofList_injective htext)
    unfold doubleSign? at hsign
    split at hsign <;> first | decide | cases hsign

theorem first_of_punctuationText? [Xid]
    (h : kind.punctuationText? = some (String.ofList (c :: cs))) :
    c.isDigit = false ∧ Text.isIdentifierStart c = false := by
  obtain ⟨a, htext, hsign⟩ | ⟨a, b, htext, hsign⟩ := sign_of_punctuationText? h
  · obtain ⟨rfl, rfl⟩ := List.cons.inj (String.ofList_injective htext)
    unfold singleSign? at hsign
    split at hsign <;> first | exact ⟨rfl, rfl⟩ | cases hsign
  · obtain ⟨rfl, rfl⟩ := List.cons.inj (String.ofList_injective htext)
    unfold doubleSign? at hsign
    split at hsign <;> first | exact ⟨rfl, rfl⟩ | cases hsign

theorem wordKind_cases (word : List Char) :
    (wordKind word).keywordText? = some (String.ofList word) ∨
      (∀ kind : TokenKind, kind.keywordText? ≠ some (String.ofList word)) ∧
        wordKind word = .identifier := by
  rw [wordKind]
  cases hkind : TokenKind.ofKeyword? (String.ofList word) with
  | some kind => exact Or.inl (TokenKind.ofKeyword?_eq_some_iff.mp hkind)
  | none =>
    refine Or.inr ⟨fun kind hspelled => ?_, rfl⟩
    cases hkind.symm.trans (TokenKind.ofKeyword?_eq_some_iff.mpr hspelled)

theorem value?_of_keyword {l : Lexeme} {text : String} (h : l.kind.keywordText? = some text) :
    l.value? = l.kind.truth? := by
  rw [value?]
  cases hkind : l.kind <;> rw [hkind] at h <;> first | rfl | cases h

theorem value?_of_punctuation {l : Lexeme} {text : String}
    (h : l.kind.punctuationText? = some text) : l.value? = none := by
  rw [value?]
  cases hkind : l.kind <;> rw [hkind] at h <;> first | rfl | cases h

theorem punctuationText?_ne_of_singleSign? (h : singleSign? c = none) (kind : TokenKind)
    (cs : List Char) : kind.punctuationText? ≠ some (String.ofList (c :: cs)) := by
  intro hkind
  obtain ⟨a, htext, hsign⟩ | ⟨a, b, htext, hsign⟩ := sign_of_punctuationText? hkind
  · obtain ⟨rfl, -⟩ := List.cons.inj (String.ofList_injective htext)
    cases h.symm.trans hsign
  · obtain ⟨rfl, -⟩ := List.cons.inj (String.ofList_injective htext)
    unfold doubleSign? at hsign
    split at hsign <;> cases hsign <;> cases h

theorem length_le_of_punctuationText? {longer : List Char}
    (h : kind.punctuationText? = some (String.ofList longer)) : longer.length ≤ 2 := by
  obtain ⟨a, htext, -⟩ | ⟨a, b, htext, -⟩ := sign_of_punctuationText? h
  · cases String.ofList_injective htext
    exact Nat.le_succ 1
  · cases String.ofList_injective htext
    exact Nat.le_refl 2

/-- Before a rest with which it makes no sign of two characters, a character makes no longer
sign. -/
theorem length_le_of_doubleSign? {longer : List Char}
    (hshort : ∀ d ∈ rest.head?, doubleSign? c d = none)
    (h : kind.punctuationText? = some (String.ofList longer)) (hstarts : longer <+: [c] ++ rest) :
    longer.length ≤ 1 := by
  obtain ⟨a, htext, -⟩ | ⟨a, b, htext, hsign⟩ := sign_of_punctuationText? h
  · cases String.ofList_injective htext
    exact Nat.le_refl 1
  · cases String.ofList_injective htext
    obtain ⟨behind, hbehind⟩ := hstarts
    cases hbehind
    cases (hshort b rfl).symm.trans hsign

theorem sign_eq_single (hshort : ∀ d ∈ rest.head?, doubleSign? c d = none) :
    sign c rest = single c rest := by
  cases rest with
  | nil => rfl
  | cons d ds => rw [sign, hshort d rfl]

/-- A character that is no sign is a stray one, whatever follows. -/
theorem sign_eq_stray (h : singleSign? c = none) : sign c cs = ⟨.unknown, [c], cs⟩ := by
  have hshort : ∀ d ∈ cs.head?, doubleSign? c d = none := by
    intro d _
    refine Option.eq_none_iff_forall_ne_some.mpr fun kind hkind => ?_
    exact punctuationText?_ne_of_singleSign? h kind [d] (punctuationText?_of_doubleSign? hkind)
  rw [sign_eq_single hshort, single, h, Option.getD_none]

theorem head_eq_sign [Xid] (hdigit : c.isDigit = false)
    (hstart : Text.isIdentifierStart c = false) : head c cs = sign c cs := by
  rw [head, if_neg (Bool.eq_false_iff.mp hdigit), if_neg (Bool.eq_false_iff.mp hstart)]

theorem head_of_singleSign? [Xid] (h : singleSign? c = some kind) : head c cs = sign c cs := by
  obtain ⟨hdigit, hstart⟩ := first_of_punctuationText? (punctuationText?_of_singleSign? h)
  exact head_eq_sign hdigit hstart

end Lexeme

variable [Xid]

/-- Whether a piece of a text is a token of a kind and with a value, in front of the rest of the
text. -/
inductive Prescribed (rest : List Char) : TokenKind → List Char → Option Value → Prop
  | number {digits : List Char} {value : Option Value} : digits ≠ [] →
      (∀ c ∈ digits, c.isDigit = true) → Text.EndsRun Char.isDigit rest →
      Text.WritesNumber digits value → Prescribed rest .number digits value
  | keyword {kind : TokenKind} {c : Char} {cs : List Char} : Text.isLayout c = false →
      Text.isIdentifierStart c = true → (∀ d ∈ cs, Text.isIdentifierPart d = true) →
      Text.EndsRun Text.isIdentifierPart rest →
      kind.keywordText? = some (String.ofList (c :: cs)) →
      Prescribed rest kind (c :: cs) kind.truth?
  | name {c : Char} {cs : List Char} : Text.isLayout c = false →
      Text.isIdentifierStart c = true → (∀ d ∈ cs, Text.isIdentifierPart d = true) →
      Text.EndsRun Text.isIdentifierPart rest →
      (∀ kind : TokenKind, kind.keywordText? ≠ some (String.ofList (c :: cs))) →
      Prescribed rest .identifier (c :: cs) none
  | sign {kind : TokenKind} {text : List Char} :
      kind.punctuationText? = some (String.ofList text) →
      (∀ (other : TokenKind) (longer : List Char),
        other.punctuationText? = some (String.ofList longer) → longer <+: text ++ rest →
        longer.length ≤ text.length) →
      Prescribed rest kind text none
  | stray {c : Char} : Text.isLayout c = false → c.isDigit = false →
      Text.isIdentifierStart c = false →
      (∀ (kind : TokenKind) (cs : List Char),
        kind.punctuationText? ≠ some (String.ofList (c :: cs))) →
      Prescribed rest .unknown [c] none

namespace Lexeme

variable {c : Char} {cs rest text : List Char} {kind : TokenKind} {value : Option Value}

theorem prescribed_word (hlayout : Text.isLayout c = false)
    (hstart : Text.isIdentifierStart c = true)
    (hcs : ∀ d ∈ cs, Text.isIdentifierPart d = true)
    (hrest : Text.EndsRun Text.isIdentifierPart rest) :
    Prescribed rest (wordKind (c :: cs)) (c :: cs)
      (value? ⟨wordKind (c :: cs), c :: cs, rest⟩) := by
  obtain hkeyword | ⟨hname, hkind⟩ := wordKind_cases (c :: cs)
  · rw [value?_of_keyword hkeyword]
    exact .keyword hlayout hstart hcs hrest hkeyword
  · rw [hkind]
    exact .name hlayout hstart hcs hrest hname

theorem prescribed_single (hlayout : Text.isLayout c = false) (hdigit : c.isDigit = false)
    (hstart : Text.isIdentifierStart c = false)
    (hshort : ∀ d ∈ rest.head?, doubleSign? c d = none) :
    Prescribed rest (single c rest).kind [c] (single c rest).value? := by
  rw [single]
  cases hsign : singleSign? c with
  | none =>
    exact .stray hlayout hdigit hstart (punctuationText?_ne_of_singleSign? hsign)
  | some kind =>
    have hkind := punctuationText?_of_singleSign? hsign
    rw [Option.getD_some, value?_of_punctuation hkind]
    exact .sign hkind fun _ _ => length_le_of_doubleSign? hshort

theorem prescribed_sign (hlayout : Text.isLayout c = false) (hdigit : c.isDigit = false)
    (hstart : Text.isIdentifierStart c = false) :
    Prescribed (sign c cs).rest (sign c cs).kind (sign c cs).text (sign c cs).value? := by
  cases cs with
  | nil => exact prescribed_single hlayout hdigit hstart nofun
  | cons d ds =>
    rw [sign]
    cases hsign : doubleSign? c d with
    | none =>
      refine prescribed_single hlayout hdigit hstart fun e he => ?_
      cases he
      exact hsign
    | some kind =>
      have hkind := punctuationText?_of_doubleSign? hsign
      dsimp only
      rw [value?_of_punctuation hkind]
      exact .sign hkind fun _ _ hother _ => length_le_of_punctuationText? hother

/-- The first piece of a text is the one that the grammar prescribes. -/
theorem prescribed_head (hc : Text.isLayout c = false) :
    Prescribed (head c cs).rest (head c cs).kind (head c cs).text (head c cs).value? := by
  rw [head]
  split
  · next hdigit =>
    refine .number (List.cons_ne_nil _ _) ?_ (Text.endsRun_dropWhile _ _)
      (Text.writesNumber_iff.mpr rfl)
    exact List.forall_mem_cons.mpr ⟨hdigit, fun d hd => List.mem_takeWhile_imp hd⟩
  · next hdigit =>
    split
    · next hstart =>
      exact prescribed_word hc hstart (fun d hd => List.mem_takeWhile_imp hd)
        (Text.endsRun_dropWhile _ _)
    · next hstart =>
      exact prescribed_sign hc (Bool.eq_false_iff.mpr hdigit) (Bool.eq_false_iff.mpr hstart)

theorem head_of_word (hstart : Text.isIdentifierStart c = true)
    (hcs : ∀ d ∈ cs, Text.isIdentifierPart d = true)
    (hrest : Text.EndsRun Text.isIdentifierPart rest) :
    head c (cs ++ rest) = ⟨wordKind (c :: cs), c :: cs, rest⟩ := by
  obtain ⟨htake, hdrop⟩ := Text.run_append hcs hrest
  rw [head, if_neg (Bool.eq_false_iff.mp (Text.not_isDigit_of_isIdentifierStart hstart)),
    if_pos hstart, htake, hdrop]

theorem head_of_sign (hkind : kind.punctuationText? = some (String.ofList (c :: cs)))
    (hlongest : ∀ (other : TokenKind) (longer : List Char),
      other.punctuationText? = some (String.ofList longer) → longer <+: c :: cs ++ rest →
      longer.length ≤ (c :: cs).length) :
    head c (cs ++ rest) = ⟨kind, c :: cs, rest⟩ := by
  obtain ⟨hdigit, hstart⟩ := first_of_punctuationText? hkind
  rw [head_eq_sign hdigit hstart]
  obtain ⟨a, htext, hsign⟩ | ⟨a, b, htext, hsign⟩ := sign_of_punctuationText? hkind
  · cases String.ofList_injective htext
    have hshort : ∀ d ∈ rest.head?, doubleSign? c d = none := by
      intro d hd
      refine Option.eq_none_iff_forall_ne_some.mpr fun other hother => ?_
      obtain ⟨ds, rfl⟩ := List.head?_eq_some_iff.mp hd
      have hlength := hlongest other [c, d] (punctuationText?_of_doubleSign? hother) ⟨ds, rfl⟩
      exact absurd hlength (by simp)
    rw [List.nil_append, sign_eq_single hshort, single, hsign, Option.getD_some]
  · cases String.ofList_injective htext
    rw [List.singleton_append, sign, hsign]

/-- The grammar prescribes no other token than the first piece of the text. -/
theorem head_of_prescribed (h : Prescribed rest kind text value) : ∃ c cs,
    text = c :: cs ∧ Text.isLayout c = false ∧ head c (cs ++ rest) = ⟨kind, text, rest⟩ ∧
      value = value? ⟨kind, text, rest⟩ := by
  cases h with
  | number hne hdigits hrest hvalue =>
    obtain ⟨c, cs, rfl⟩ := List.exists_cons_of_ne_nil hne
    obtain ⟨hc, hcs⟩ := List.forall_mem_cons.mp hdigits
    obtain ⟨htake, hdrop⟩ := Text.run_append hcs hrest
    refine ⟨c, cs, rfl, ?_, ?_, Text.writesNumber_iff.mp hvalue⟩
    · refine Bool.eq_false_iff.mpr fun hlayout => ?_
      exact Bool.eq_false_iff.mp (Text.not_isDigit_of_isLayout hlayout) hc
    · rw [head, if_pos hc, htake, hdrop]
  | @keyword kind c cs hlayout hstart hcs hrest hspelled =>
    have hkind : wordKind (c :: cs) = kind := by
      rw [wordKind, TokenKind.ofKeyword?_eq_some_iff.mpr hspelled, Option.getD_some]
    refine ⟨c, cs, rfl, hlayout, ?_, ?_⟩
    · rw [head_of_word hstart hcs hrest, hkind]
    · exact (value?_of_keyword (l := ⟨kind, c :: cs, rest⟩) hspelled).symm
  | @name c cs hlayout hstart hcs hrest hname =>
    have hkind : wordKind (c :: cs) = .identifier := by
      obtain hspelled | ⟨-, hkind⟩ := wordKind_cases (c :: cs)
      · exact absurd hspelled (hname _)
      · exact hkind
    refine ⟨c, cs, rfl, hlayout, ?_, rfl⟩
    rw [head_of_word hstart hcs hrest, hkind]
  | sign hkind hlongest =>
    obtain ⟨c, cs, rfl⟩ : ∃ c cs, text = c :: cs := by
      obtain ⟨a, htext, -⟩ | ⟨a, b, htext, -⟩ := sign_of_punctuationText? hkind
      · exact ⟨a, [], String.ofList_injective htext⟩
      · exact ⟨a, [b], String.ofList_injective htext⟩
    refine ⟨c, cs, rfl, not_isLayout_of_punctuationText? hkind, head_of_sign hkind hlongest, ?_⟩
    exact (value?_of_punctuation (l := ⟨kind, c :: cs, rest⟩) hkind).symm
  | @stray c hlayout hdigit hstart hnone =>
    have hsingle : singleSign? c = none :=
      Option.eq_none_iff_forall_ne_some.mpr fun other hother =>
        hnone other [] (punctuationText?_of_singleSign? hother)
    refine ⟨c, [], rfl, hlayout, ?_, rfl⟩
    rw [List.nil_append, head_eq_sign hdigit hstart, sign_eq_stray hsingle]

end Lexeme

end Lumen
