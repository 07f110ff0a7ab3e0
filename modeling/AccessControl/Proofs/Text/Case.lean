import AccessControl.Text.Case
import Mathlib

/-! # Where the two foldings agree

The folding of ASCII letters changes nothing else (`asciiLowerChar_eq_iff`).  The full mapping to
lower case never shortens a text, and outside ASCII it changes whatever has a lower case of its own.
So it agrees with the folding of ASCII letters on the texts whose capitals are all in ASCII, and on
no others (`lower_eq_asciiLower_iff`). -/

namespace AccessControl
namespace Text

/-! ### ASCII letters -/

theorem asciiLowerChar_of_capital {c : Char} (h : 'A'.toNat ≤ c.toNat ∧ c.toNat ≤ 'Z'.toNat) :
    (asciiLowerChar c).toNat = c.toNat + 32 := by
  have hlast : 'Z'.toNat = 0x5a := rfl
  have hvalid : (c.toNat + 32).isValidChar := .inl (by omega)
  rw [asciiLowerChar, if_pos h, Char.toNat_ofNat, if_pos hvalid]

/-- Only letters are changed, and only to letters. -/
theorem asciiLowerChar_eq_iff {c d : Char} (hcapital : d.toNat < 'A'.toNat ∨ 'Z'.toNat < d.toNat)
    (hsmall : d.toNat < 'a'.toNat ∨ 'z'.toNat < d.toNat) : asciiLowerChar c = d ↔ c = d := by
  by_cases h : 'A'.toNat ≤ c.toNat ∧ c.toNat ≤ 'Z'.toNat
  · have hletters : 'A'.toNat = 0x41 ∧ 'Z'.toNat = 0x5a ∧ 'a'.toNat = 0x61 ∧ 'z'.toNat = 0x7a :=
      ⟨rfl, rfl, rfl, rfl⟩
    have hlower := asciiLowerChar_of_capital h
    constructor <;> rintro rfl <;> omega
  · rw [asciiLowerChar, if_neg h]

theorem asciiLowerChar_asciiLowerChar (c : Char) :
    asciiLowerChar (asciiLowerChar c) = asciiLowerChar c := by
  by_cases h : 'A'.toNat ≤ c.toNat ∧ c.toNat ≤ 'Z'.toNat
  · have hletters : 'A'.toNat = 0x41 ∧ 'Z'.toNat = 0x5a := ⟨rfl, rfl⟩
    have hlower := asciiLowerChar_of_capital h
    rw [asciiLowerChar, if_neg (by omega)]
  · rw [asciiLowerChar.eq_def c, if_neg h, asciiLowerChar, if_neg h]

theorem asciiLowerChar_of_ge {c : Char} (h : 0x80 ≤ c.toNat) : asciiLowerChar c = c := by
  have hlast : 'Z'.toNat = 0x5a := rfl
  rw [asciiLowerChar, if_neg (by omega)]

theorem toList_asciiLower (s : String) : (asciiLower s).toList = s.toList.map asciiLowerChar := by
  rw [asciiLower, String.toList_ofList]

theorem mem_asciiLower_iff {s : String} {d : Char}
    (hcapital : d.toNat < 'A'.toNat ∨ 'Z'.toNat < d.toNat)
    (hsmall : d.toNat < 'a'.toNat ∨ 'z'.toNat < d.toNat) :
    d ∈ (asciiLower s).toList ↔ d ∈ s.toList := by
  simp [toList_asciiLower, asciiLowerChar_eq_iff hcapital hsmall]

/-! ### Unicode -/

/-- The capital letters of a text are all in ASCII: every other character is its own lower case. -/
def CapitalsInAscii (s : String) : Prop :=
  ∀ c ∈ s.toList, 0x80 ≤ c.toNat → lower (String.singleton c) = String.singleton c

theorem mapChar_lower_ne_nil (c : Char) : mapChar lowerSequences lowerRuns c ≠ [] := by
  have hsequences : ∀ p ∈ lowerSequences, p.2 ≠ [] := by decide
  unfold mapChar
  cases hlookup : lowerSequences.lookup c.toNat with
  | none => exact List.cons_ne_nil _ _
  | some ns =>
      obtain ⟨first, rest, hmem, -⟩ := List.lookup_eq_some_iff.mp hlookup
      simpa using hsequences (c.toNat,
        ns) (by rw [hmem]; exact List.mem_append_right _ List.mem_cons_self)

theorem lowerCharIn_ne_nil (before : List Char) (c : Char) (after : List Char) :
    lowerCharIn before c after ≠ [] := by
  unfold lowerCharIn
  split_ifs
  · exact List.cons_ne_nil _ _
  · exact List.cons_ne_nil _ _
  · exact List.cons_ne_nil _ _
  · exact mapChar_lower_ne_nil c

theorem length_le_lowerFrom (before cs : List Char) : cs.length ≤ (lowerFrom before cs).length := by
  induction cs generalizing before with
  | nil => exact Nat.zero_le _
  | cons c after ih =>
      have hfirst := List.length_pos_of_ne_nil (lowerCharIn_ne_nil before c after)
      have hrest := ih (c :: before)
      rw [lowerFrom, List.length_append, List.length_cons]
      omega

/-- A character stays as the folding of ASCII letters leaves it, whatever stands around it, if this
is so where it stands alone.  A capital sigma has two lower cases, and is none of them. -/
theorem lowerCharIn_eq_iff (before : List Char) (c : Char) (after : List Char) :
    lowerCharIn before c after = [asciiLowerChar c] ↔
      (0x80 ≤ c.toNat → lower (String.singleton c) = String.singleton c) := by
  by_cases hascii : c.toNat < 0x80
  · rw [lowerCharIn, if_pos hascii]
    exact ⟨fun _ hge => absurd hascii (by omega), fun _ => rfl⟩
  · have hge : 0x80 ≤ c.toNat := by omega
    have halone : lower (String.singleton c) = String.singleton c ↔ lowerCharIn [] c [] = [c] := by
      rw [← String.toList_inj, lower, String.toList_ofList, String.toList_singleton, lowerFrom,
        lowerFrom, List.append_nil]
    rw [asciiLowerChar_of_ge hge, halone]
    by_cases hsigma : c = 'Σ'
    · have hlowers : ∀ b a : List Char, lowerCharIn b 'Σ' a ≠ ['Σ'] := by
        intro b a
        rw [lowerCharIn, if_neg (by decide), if_pos rfl]
        split_ifs <;> decide
      subst hsigma
      exact ⟨fun h => absurd h (hlowers before after), fun h => absurd (h hge) (hlowers [] [])⟩
    · have hmapped : ∀ b a : List Char, lowerCharIn b c a = mapChar lowerSequences lowerRuns c :=
        fun b a => by
        rw [lowerCharIn, if_neg hascii, if_neg hsigma]
      rw [hmapped, hmapped]
      exact ⟨fun h _ => h, fun h => h hge⟩

theorem lowerFrom_eq_map_iff (before cs : List Char) : lowerFrom before cs = cs.map asciiLowerChar ↔
    ∀ c ∈ cs, 0x80 ≤ c.toNat → lower (String.singleton c) = String.singleton c := by
  induction cs generalizing before with
  | nil => simp [lowerFrom]
  | cons c after ih =>
      have hmap : (c :: after).map asciiLowerChar = [asciiLowerChar c] ++
          after.map asciiLowerChar := rfl
      rw [lowerFrom, hmap, List.forall_mem_cons, ← ih (c :: before),
        ← lowerCharIn_eq_iff before c after]
      refine ⟨fun h => List.append_inj h ?_, fun ⟨hfirst, hrest⟩ => by rw [hfirst, hrest]⟩
      -- Both parts are at least as long as what they come from, so neither is longer.
      have hlength := congrArg List.length h
      have hfirst := List.length_pos_of_ne_nil (lowerCharIn_ne_nil before c after)
      have hrest := length_le_lowerFrom (c :: before) after
      simp only [List.length_append, List.length_map, List.length_singleton] at hlength ⊢
      omega

/-- The two foldings agree on a text just when its capital letters are all in ASCII. -/
theorem lower_eq_asciiLower_iff (s : String) : lower s = asciiLower s ↔ CapitalsInAscii s := by
  rw [lower, asciiLower, String.ofList_inj]
  exact lowerFrom_eq_map_iff [] s.toList

end Text
end AccessControl
