import Lumen.Proofs.Source.Layout
import Lumen.Proofs.Token.Tiling

/-!
# Reading written values

A word is written as a numeral with a sign in front of it if the word is negative, and a truth value
as its keyword. A text that is tiled by the leaves of a grammatical statement is read as that
statement, so a written value is read as a literal or as the negation of one. All these numerals
have a value, but for the one of the least word, whose digits are out of range without their sign.
-/

namespace Lumen

open Lumen.Tree (Expr Parsed ReadsStmt Stmt)

namespace Text

@[simp] theorem numeralValue_repr (n : Nat) : numeralValue n.repr.toList = n := by
  rw [numeralValue, Nat.toList_repr, Nat.ofDigitChars_ten_toDigits]

theorem isDigit_of_mem_repr {n : Nat} : ∀ c ∈ n.repr.toList, c.isDigit = true := by
  rw [Nat.toList_repr]
  exact fun c => Nat.isDigit_of_mem_toDigits (by decide) (by decide)

theorem toList_repr_ne_nil (n : Nat) : n.repr.toList ≠ [] := by
  rw [Nat.toList_repr]
  exact Nat.toDigits_ne_nil

end Text

namespace Token

/-- The numeral of a number at a position. It has a value if there is a word for the number. -/
def numeral (pos n : Nat) : Token :=
  ⟨.number, pos, n.repr, if n < 0x8000000000000000 then some (.int (Int64.ofNat n)) else none⟩

section

variable {n : Nat} (pos : Nat)

theorem value_numeral (h : n < 0x8000000000000000) :
    (numeral pos n).value = some (.int (Int64.ofNat n)) := if_pos h

theorem fault?_numeral (h : n < 0x8000000000000000) : (numeral pos n).fault? = none := by
  rw [fault?, value_numeral pos h]
  rfl

end

def leadingMinus : Token := ⟨.minus, 0, "-", none⟩

def keyword (b : Bool) : Token :=
  ⟨if b then .trueKeyword else .falseKeyword, 0, (Value.bool b).text, some (.bool b)⟩

variable [Xid]

theorem prescribed_numeral (pos n : Nat) :
    Prescribed [] (numeral pos n).kind (numeral pos n).text.toList (numeral pos n).value := by
  refine .number (Text.toList_repr_ne_nil n) Text.isDigit_of_mem_repr nofun ?_
  rw [Text.writesNumber_iff, Text.int64?, numeral, Text.numeralValue_repr, apply_ite (Option.map _)]
  rfl

/-- No sign of two characters starts with a minus, so it stands alone in front of the digits. -/
theorem prescribed_leadingMinus (n : Nat) : Prescribed n.repr.toList leadingMinus.kind
    leadingMinus.text.toList leadingMinus.value := by
  refine Lexeme.prescribed_single (c := '-') rfl rfl rfl ?_
  intro d _
  rfl

theorem tiled_numeral (pos n : Nat) : Tiled pos n.repr.toList [numeral pos n] := by
  have h : Tiled pos ([] ++ (numeral pos n).text.toList ++ []) [numeral pos n] :=
    .cons nofun rfl (prescribed_numeral pos n) (.nil nofun)
  rwa [List.nil_append, List.append_nil] at h

theorem tiled_minus_numeral (n : Nat) :
    Tiled 0 ("-" ++ n.repr).toList [leadingMinus, numeral 1 n] := by
  have h : Tiled 0 ([] ++ leadingMinus.text.toList ++ n.repr.toList) [leadingMinus, numeral 1 n] :=
    .cons nofun rfl (prescribed_leadingMinus n) (tiled_numeral 1 n)
  rwa [List.nil_append, ← String.toList_append] at h

theorem prescribed_keyword (b : Bool) :
    Prescribed [] (keyword b).kind (keyword b).text.toList (keyword b).value := by
  cases b with
  | false =>
    have hparts : ∀ d ∈ ['a', 'l', 's', 'e'], Text.isIdentifierPart d = true :=
      List.all_eq_true.mp rfl
    exact .keyword rfl rfl hparts nofun rfl
  | true =>
    have hparts : ∀ d ∈ ['r', 'u', 'e'], Text.isIdentifierPart d = true := List.all_eq_true.mp rfl
    exact .keyword rfl rfl hparts nofun rfl

theorem tiled_keyword (b : Bool) : Tiled 0 (Value.bool b).text.toList [keyword b] := by
  have h : Tiled 0 ([] ++ (keyword b).text.toList ++ []) [keyword b] :=
    .cons nofun rfl (prescribed_keyword b) (.nil nofun)
  rwa [List.nil_append, List.append_nil] at h

end Token

namespace Source

variable [Xid]

/-- A text that is tiled by the leaves of a grammatical statement is read as that statement, with
the complaints about its tokens only. -/
theorem parse_of_tiled {text : List Char} {s : Stmt} (hs : s.Grammatical)
    (hambiguity : s.Unambiguous []) (htext : Token.Tiled 0 text s.leaves) :
    parse text = ⟨text, ⟨s, endToken text⟩, Token.faults s.leaves⟩ := by
  have hinner := Token.tiled_iff.mp htext
  have hsignificant : significant (Token.scan text) = s.leaves := by
    rw [significant_eq, ← hinner, List.filter_eq_self.mpr hs.isSignificant]
  have hfaults : Token.faults (Token.scan text) = Token.faults s.leaves := by
    rw [(Token.scan_eq text).1, ← hinner, Token.faults, List.filterMap_append]
    exact List.append_nil _
  have hleaves : ReadsStmt (endToken text) (s.leaves ++ []) s [] [] [] :=
    hs.readsStmt hambiguity (by decide)
  rw [List.append_nil, ← hsignificant] at hleaves
  obtain ⟨hphrase, hrest, hnone⟩ := Parsed.stmt_of_reads hleaves
  have hread := reads_parse text
  generalize parse text = src at hread
  cases hread with
  | whole h =>
    obtain ⟨rfl, -, rfl⟩ := Parsed.stmt_of_reads h
    rw [hphrase, hnone, List.append_nil, readUpTo_endToken, hfaults]
  | part h =>
    obtain ⟨-, hrest', -⟩ := Parsed.stmt_of_reads h
    cases hrest'.symm.trans hrest

end Source

namespace Value

/-- The expression that a written value is read as. -/
def phrase : Value → Expr
  | .bool b => .literal (.keyword b)
  | .int n =>
    match n.toInt with
    | .ofNat m => .literal (.numeral 0 m)
    | .negSucc m => .unary .leadingMinus (.literal (.numeral 1 (m + 1)))

theorem tiled_text [Xid] (v : Value) : Token.Tiled 0 v.text.toList v.phrase.leaves := by
  cases v with
  | bool b => exact Token.tiled_keyword b
  | int n =>
    rw [text, phrase]
    cases n.toInt with
    | ofNat m => exact Token.tiled_numeral 0 m
    | negSucc m => exact Token.tiled_minus_numeral (m + 1)

theorem grammatical_phrase (v : Value) : v.phrase.Grammatical := by
  cases v with
  | bool b => cases b <;> simp [phrase, Token.keyword, Expr.Grammatical]
  | int n =>
    rw [phrase]
    cases n.toInt with
    | ofNat m => simp [Token.numeral, Expr.Grammatical]
    | negSucc m =>
      simp [Token.numeral, Token.leadingMinus, Expr.Grammatical, Expr.level,
        TokenKind.isUnaryOperator]

theorem parse_text [Xid] (v : Value) : Source.parse v.text.toList =
    ⟨v.text.toList, ⟨.expression v.phrase, Source.endToken v.text.toList⟩,
      Token.faults v.phrase.leaves⟩ := by
  refine Source.parse_of_tiled ?_ ?_ v.tiled_text
  · rw [Stmt.Grammatical]
    exact v.grammatical_phrase
  · exact id

end Value

end Lumen
