import Lumen.Proofs.Token.Tiling

/-!
# Tokens and layout

Layout continues no token, so what the grammar prescribes in front of some rest of a text it also
prescribes in front of layout. Hence the tokens of a text, stray characters included, are read again
from every text that spells them with layout in between; only their positions change.
-/

namespace Lumen

theorem Text.StartsBlank.endsRun {p : Char → Bool} {rest : List Char} (h : StartsBlank rest)
    (hp : ∀ c, isLayout c = true → p c = false) : EndsRun p rest :=
  fun c hc => hp c (h c hc)

namespace Prescribed

variable {rest rest' text : List Char} {kind other : TokenKind} {value : Option Value}

theorem length_le_of_startsBlank {longer : List Char} (hrest : Text.StartsBlank rest)
    (hother : other.punctuationText? = some (String.ofList longer))
    (hstarts : longer <+: text ++ rest) : longer.length ≤ text.length := by
  obtain ⟨behind, hbehind⟩ := hstarts
  obtain ⟨as, rfl, -⟩ | ⟨bs, rfl, rfl⟩ := List.append_eq_append_iff.mp hbehind
  · rw [List.length_append]
    exact Nat.le_add_right _ _
  · cases bs with
    | nil => rw [List.append_nil]
    | cons c bs =>
      have hlayout : Text.isLayout c = true := hrest c rfl
      have hnot := not_isLayout_of_sign hother c (List.mem_append_right _ List.mem_cons_self)
      cases hlayout.symm.trans hnot

theorem of_startsBlank [Xid] [Xid.ApartFromLayout] (h : Prescribed rest kind text value) (hrest : Text.StartsBlank rest') :
    Prescribed rest' kind text value := by
  have hword := hrest.endsRun fun _ => Text.not_isIdentifierPart_of_isLayout
  cases h with
  | number hne hdigits _ hvalue =>
    exact .number hne hdigits (hrest.endsRun fun _ => Text.not_isDigit_of_isLayout) hvalue
  | keyword hlayout hstart hparts _ hspelled =>
    exact .keyword hlayout hstart hparts hword hspelled
  | name hlayout hstart hparts _ hname => exact .name hlayout hstart hparts hword hname
  | sign hkind _ => exact .sign hkind fun _ _ => length_le_of_startsBlank hrest
  | stray hlayout hdigit hstart hnone => exact .stray hlayout hdigit hstart hnone

end Prescribed

namespace Token

variable [Xid] [Xid.ApartFromLayout]

/-- A text that spells prescribed tokens is tiled by them, each moved to where it is spelled. -/
theorem Spaced.exists_tiled {ts : List Token} {text : List Char} (h : Spaced ts text)
    (hts : ∀ t ∈ ts, ∃ rest, Prescribed rest t.kind t.text.toList t.value) (pos : Nat) :
    ∃ us, us.map unplaced = ts.map unplaced ∧ Tiled pos text us := by
  induction h generalizing pos with
  | nil hgap => exact ⟨[], rfl, .nil hgap⟩
  | @cons gap rest t ts hgap hblank _ ih =>
    obtain ⟨⟨_, hprescribed⟩, hothers⟩ := List.forall_mem_cons.mp hts
    let moved : Token := { t with start := pos + Text.size gap }
    obtain ⟨us, hus, htiled⟩ := ih hothers moved.stop
    have hmoved : Prescribed rest moved.kind moved.text.toList moved.value :=
      hprescribed.of_startsBlank hblank
    refine ⟨moved :: us, ?_, Tiled.cons (t := moved) hgap rfl hmoved htiled⟩
    rw [List.map_cons, List.map_cons, hus]
    rfl

/-- A text that spells the tokens of another one has the same tokens, up to positions. -/
theorem scan_of_respaced {text text' : List Char} (h : Spaced (scanInner text) text') :
    (scan text').map unplaced = (scan text).map unplaced := by
  obtain ⟨us, hus, htiled⟩ := h.exists_tiled (fun _ => prescribed_of_mem) 0
  rw [(scan_eq text').1, (scan_eq text).1, ← tiled_iff.mp htiled, List.map_append, List.map_append,
    hus]
  rfl

end Token

end Lumen
