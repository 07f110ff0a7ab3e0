import AccessControl.Database.Queries
import AccessControl.Proofs.Text.Case
import Mathlib

/-! # What a search text is found in

A search text is looked for as a form (`Like`), in which a percent sign stands for any characters
and an underscore for one (`holds_iff`).  If it has neither of these characters and no null
character, it is found in just the texts that hold it, up to the case of ASCII letters
(`Plain.finds_iff`).  Any other search text is found in some text that does not hold it
(`exists_finds_of_not_plain`). -/

namespace AccessControl
namespace Database

/-! ### Forms -/

/-- What a character of a form can stand for. -/
def StandsFor (c : Char) (found : List Char) : Prop :=
  if c = '%' then True else if c = '_' then found.length = 1 else found = [c]

/-- A text is what the characters of a form stand for, one after the other. -/
inductive Like : List Char → List Char → Prop
  | nil : Like [] []
  | cons {c : Char} {found p cs : List Char} (hc : StandsFor c found) (hrest : Like p cs) :
      Like (c :: p) (found ++ cs)

theorem like_nil_iff {cs : List Char} : Like [] cs ↔ cs = [] := by
  refine ⟨fun h => ?_, fun h => h ▸ .nil⟩
  cases h
  rfl

theorem like_cons_iff {c : Char} {p cs : List Char} :
    Like (c :: p) cs ↔ ∃ found rest, cs = found ++ rest ∧ StandsFor c found ∧ Like p rest := by
  refine ⟨fun h => ?_, ?_⟩
  · cases h with
    | cons hc hrest => exact ⟨_, _, rfl, hc, hrest⟩
  · rintro ⟨found, rest, rfl, hc, hrest⟩
    exact .cons hc hrest

theorem like_append_iff {p q cs : List Char} :
    Like (p ++ q) cs ↔ ∃ first rest, cs = first ++ rest ∧ Like p first ∧ Like q rest := by
  induction p generalizing cs with
  | nil => simp [like_nil_iff]
  | cons c p ih =>
      simp only [List.cons_append, like_cons_iff, ih]
      constructor
      · rintro ⟨found, _, rfl, hc, first, rest, rfl, hp, hq⟩
        exact ⟨found ++ first, rest, (List.append_assoc ..).symm, ⟨found, first, rfl, hc, hp⟩, hq⟩
      · rintro ⟨_, rest, rfl, ⟨found, first, rfl, hc, hp⟩, hq⟩
        exact ⟨found, first ++ rest, List.append_assoc .., hc, first, rest, rfl, hp, hq⟩

theorem like_any_iff {p cs : List Char} :
    Like ('%' :: p) cs ↔ ∃ skipped rest, cs = skipped ++ rest ∧ Like p rest := by
  simp [like_cons_iff, StandsFor]

theorem like_any_step {p cs : List Char} :
    Like ('%' :: p) cs ↔ Like p cs ∨ ∃ d rest, cs = d :: rest ∧ Like ('%' :: p) rest := by
  simp only [like_any_iff]
  constructor
  · rintro ⟨_ | ⟨d, skipped⟩, rest, rfl, h⟩
    · exact .inl h
    · exact .inr ⟨d, _, rfl, skipped, rest, rfl, h⟩
  · rintro (h | ⟨d, _, rfl, skipped, rest, rfl, h⟩)
    · exact ⟨[], cs, rfl, h⟩
    · exact ⟨d :: skipped, rest, rfl, h⟩

theorem like_any_any_iff {p cs : List Char} : Like ('%' :: '%' :: p) cs ↔ Like ('%' :: p) cs := by
  simp only [like_any_iff (p := '%' :: p)]
  simp only [like_any_iff]
  constructor
  · rintro ⟨first, _, rfl, second, rest, rfl, h⟩
    exact ⟨first ++ second, rest, (List.append_assoc ..).symm, h⟩
  · rintro ⟨skipped, rest, rfl, h⟩
    exact ⟨[], _, rfl, skipped, rest, rfl, h⟩

/-- Any other character stands for one: an underscore for each of them, the others for
themselves. -/
theorem like_one_iff {c : Char} {p cs : List Char} (hc : c ≠ '%') :
    Like (c :: p) cs ↔ ∃ d rest, cs = d :: rest ∧ (c = '_' ∨ c = d) ∧ Like p rest := by
  have hstands : ∀ found, StandsFor c found ↔ ∃ d, found = [d] ∧ (c = '_' ∨ c = d) := by
    intro found
    rw [StandsFor, if_neg hc]
    split
    · next hone => simp [hone, List.length_eq_one_iff]
    · next hother => simp [hother]
  simp only [like_cons_iff, hstands]
  constructor
  · rintro ⟨_, rest, rfl, ⟨d, rfl, hd⟩, h⟩
    exact ⟨d, rest, rfl, hd, h⟩
  · rintro ⟨d, rest, rfl, hd, h⟩
    exact ⟨[d], rest, rfl, ⟨d, rfl, hd⟩, h⟩

namespace Tables

theorem isLike_iff (p cs : List Char) : isLike p cs = true ↔ Like p cs := by
  induction p, cs using isLike.induct with
  | case1 cs => simp [isLike, like_nil_iff]
  | case2 p cs hskip hgo =>
      rw [like_any_step, ← hskip]
      cases cs with
      | nil => simp [isLike]
      | cons d rest =>
          have hrest : isLike ('%' :: p) rest = true ↔ Like ('%' :: p) rest := hgo
          simp [isLike, hrest]
  | case3 p => simp [isLike, like_one_iff]
  | case4 p d rest ih => simp [isLike, like_one_iff, ih]
  | case5 c p hany hone => simp [isLike, like_one_iff hany]
  | case6 c p hany hone d rest ih =>
      have hother : c ≠ '_' := hone
      simp [isLike, like_one_iff hany, hother, ih]

/-- Percent signs in a row stand for what one of them stands for. -/
theorem like_squeezed_iff (p cs : List Char) : Like (squeezed p) cs ↔ Like p cs := by
  induction p generalizing cs with
  | nil => exact Iff.rfl
  | cons c p ih =>
      have hcons : Like (c :: squeezed p) cs ↔ Like (c :: p) cs := by simp only [like_cons_iff, ih]
      rw [squeezed]
      split
      · next hmerged =>
          obtain ⟨rfl, hhead⟩ : c = '%' ∧ (squeezed p).head? = some '%' := by simpa using hmerged
          obtain ⟨q, hq⟩ : ∃ q, squeezed p = '%' :: q := by
            cases hp : squeezed p with
            | nil => simp [hp] at hhead
            | cons d q => exact ⟨q, by simpa [hp] using hhead⟩
          rw [← hcons, hq, like_any_any_iff]
      · exact hcons

/-! ### Texts that are compared -/

theorem comparedChars_of_not_mem {cs : List Char} (h : Char.ofNat 0 ∉ cs) : comparedChars cs = cs :=
  List.takeWhile_eq_self_iff.mpr fun c hc => by
    have hne : c ≠ Char.ofNat 0 := fun heq => h (heq ▸ hc)
    simpa using hne

theorem not_mem_comparedChars (cs : List Char) : Char.ofNat 0 ∉ comparedChars cs := by
  intro hmem
  simpa using List.mem_takeWhile_imp hmem

theorem comparedChars_append_of_mem {cs : List Char} (h : Char.ofNat 0 ∈ cs) (ds : List Char) :
    comparedChars (cs ++ ds) = comparedChars cs := by
  obtain ⟨before, after, rfl⟩ := List.append_of_mem h
  simp [comparedChars, List.takeWhile_append]

theorem comparedChars_append_of_not_mem {cs : List Char} (h : Char.ofNat 0 ∉ cs) (ds : List Char) :
    comparedChars (cs ++ ds) = cs ++ comparedChars ds := by
  have hcs : cs.takeWhile (· != Char.ofNat 0) = cs := comparedChars_of_not_mem h
  rw [comparedChars, List.takeWhile_append, hcs, if_pos rfl, comparedChars]

/-- The characters that a search text is not compared by: those that stand for others,
and the null character. -/
def IsSpecial (c : Char) : Prop := c = '%' ∨ c = '_' ∨ c = Char.ofNat 0

theorem mem_folded_iff {c : Char} (hc : IsSpecial c) {s : String} :
    c ∈ (Text.asciiLower s).toList ↔ c ∈ s.toList := by
  rcases hc with rfl | rfl | rfl <;> exact Text.mem_asciiLower_iff (by decide) (by decide)

theorem null_mem_folded_iff (s : String) :
    Char.ofNat 0 ∈ (Text.asciiLower s).toList ↔ Char.ofNat 0 ∈ s.toList :=
  mem_folded_iff (.inr (.inr rfl))

/-! ### Search texts -/

/-- Some part of the text has the form of the search text, up to the case of ASCII letters.  Of
either only what comes before a null character is compared, and a search text with a null character
is looked for at the end. -/
def Finds (term text : String) : Prop :=
  ∃ before found after, comparedChars (Text.asciiLower text).toList = before ++ found ++ after ∧
    Like (comparedChars (Text.asciiLower term).toList) found ∧
      (Char.ofNat 0 ∈ term.toList → after = [])

theorem holds_iff (term text : String) : holds term text = true ↔ Finds term text := by
  have hform : comparedChars ('%' :: (Text.asciiLower term).toList ++ ['%']) =
      '%' :: comparedChars ((Text.asciiLower term).toList ++ ['%']) := rfl
  rw [holds, isLike_iff, like_squeezed_iff, hform, like_any_iff, Finds]
  by_cases hnull : Char.ofNat 0 ∈ term.toList
  · -- The form ends with the null character, and what it is like must end with the text.
    rw [comparedChars_append_of_mem ((null_mem_folded_iff term).mpr hnull)]
    constructor
    · rintro ⟨before, found, htext, hfound⟩
      exact ⟨before, found, [], by rw [htext, List.append_nil], hfound, fun _ => rfl⟩
    · rintro ⟨before, found, after, htext, hfound, hend⟩
      exact ⟨before, found, by rw [htext, hend hnull, List.append_nil], hfound⟩
  · have hnone := mt (null_mem_folded_iff term).mp hnull
    rw [comparedChars_append_of_not_mem hnone, comparedChars_of_not_mem hnone]
    constructor
    · rintro ⟨before, rest, htext, hrest⟩
      obtain ⟨found, after, rfl, hfound, -⟩ := like_append_iff.mp hrest
      exact ⟨before, found,
        after, by rw [htext, List.append_assoc], hfound, fun h => absurd h hnull⟩
    · rintro ⟨before, found, after, htext, hfound, -⟩
      refine ⟨before, found ++ after, by rw [htext, List.append_assoc], ?_⟩
      refine like_append_iff.mpr ⟨found, after, rfl, hfound, ?_⟩
      exact like_any_iff.mpr ⟨after, [], (List.append_nil after).symm, .nil⟩

/-- The search text is part of the text, up to the case of ASCII letters. -/
def Contains (term text : String) : Prop :=
  (Text.asciiLower term).toList <:+: (Text.asciiLower text).toList

instance (term text : String) : Decidable (Contains term text) :=
  inferInstanceAs (Decidable (_ <:+: _))

/-- A text without special characters. -/
def Plain (s : String) : Prop := ∀ c ∈ s.toList, ¬IsSpecial c

theorem Plain.folded {s : String} (h : Plain s) : ∀ c ∈ (Text.asciiLower s).toList, ¬IsSpecial c :=
  fun c hc hspecial => h c ((mem_folded_iff hspecial).mp hc) hspecial

theorem Plain.null_not_mem {s : String} (h : Plain s) : Char.ofNat 0 ∉ s.toList :=
  fun hmem => h _ hmem (.inr (.inr rfl))

theorem like_iff_eq {p cs : List Char} (h : ∀ c ∈ p, ¬IsSpecial c) : Like p cs ↔ cs = p := by
  induction p generalizing cs with
  | nil => exact like_nil_iff
  | cons c p ih =>
      obtain ⟨hc, hp⟩ := List.forall_mem_cons.mp h
      simp only [IsSpecial, not_or] at hc
      simp [like_one_iff hc.1, hc.2.1, ih hp]

theorem Plain.finds_iff {term text : String} (h : Plain term) (htext : Char.ofNat 0 ∉ text.toList) :
    Finds term text ↔ Contains term text := by
  rw [Finds, comparedChars_of_not_mem (mt (null_mem_folded_iff text).mp htext),
    comparedChars_of_not_mem (mt (null_mem_folded_iff term).mp h.null_not_mem)]
  simp only [like_iff_eq h.folded]
  constructor
  · rintro ⟨before, _, after, heq, rfl, -⟩
    exact ⟨before, after, heq.symm⟩
  · rintro ⟨before, after, heq⟩
    exact ⟨before, _, after, heq.symm, rfl, fun hmem => absurd hmem h.null_not_mem⟩

/-- What a form is like: nothing for a percent sign, and a hyphen for an underscore. -/
def filled (p : List Char) : List Char :=
  p.flatMap fun c => if c = '%' then [] else if c = '_' then ['-'] else [c]

theorem like_filled (p : List Char) : Like p (filled p) := by
  induction p with
  | nil => exact .nil
  | cons c p ih =>
      refine .cons ?_ ih
      dsimp only [StandsFor]
      split_ifs <;> rfl

theorem mem_filled {p : List Char} {c : Char} (h : c ∈ filled p) :
    c ≠ '%' ∧ c ≠ '_' ∧ (c = '-' ∨ c ∈ p) := by
  obtain ⟨d, hd, hc⟩ := List.mem_flatMap.mp h
  split_ifs at hc with hany hone
  · cases hc
  · obtain rfl := List.mem_singleton.mp hc
    exact ⟨by decide, by decide, .inl rfl⟩
  · obtain rfl := List.mem_singleton.mp hc
    exact ⟨hany, hone, .inr hd⟩

theorem not_special_of_mem_filled {p : List Char} (hp : Char.ofNat 0 ∉ p) {c : Char}
    (h : c ∈ filled p) : ¬IsSpecial c := by
  obtain ⟨hany, hone, hmem⟩ := mem_filled h
  rintro (rfl | rfl | rfl)
  · exact hany rfl
  · exact hone rfl
  · exact hp (hmem.resolve_left (by decide))

theorem folded_filled {p : List Char} (hp : ∀ c ∈ p, Text.asciiLowerChar c = c) :
    (Text.asciiLower (String.ofList (filled p))).toList = filled p := by
  rw [Text.toList_asciiLower, String.toList_ofList]
  refine (List.map_congr_left fun c hc => ?_).trans (List.map_id _)
  obtain ⟨-, -, rfl | hmem⟩ := mem_filled hc
  · rfl
  · exact hp c hmem

/-- Every search text is found in a plain text. -/
theorem exists_finds (term : String) : ∃ text, Plain text ∧ Finds term text := by
  obtain ⟨p, hp⟩ : ∃ p, p = comparedChars (Text.asciiLower term).toList := ⟨_, rfl⟩
  have hnull : Char.ofNat 0 ∉ p := hp ▸ not_mem_comparedChars _
  have hlower : ∀ c ∈ p, Text.asciiLowerChar c = c := by
    intro c hc
    have hmem : c ∈ (Text.asciiLower term).toList := (List.takeWhile_sublist _).subset (hp ▸ hc)
    rw [Text.toList_asciiLower] at hmem
    obtain ⟨d, -, rfl⟩ := List.mem_map.mp hmem
    exact Text.asciiLowerChar_asciiLowerChar d
  have hplain : Plain (String.ofList (filled p)) := fun c hc =>
    not_special_of_mem_filled hnull (by rwa [String.toList_ofList] at hc)
  refine ⟨_, hplain, [], filled p, [], ?_, hp ▸ like_filled p, fun _ => rfl⟩
  rw [comparedChars_of_not_mem (mt (null_mem_folded_iff _).mp hplain.null_not_mem),
    folded_filled hlower]
  simp

/-- A search text that is not plain is found in a text that does not hold it. -/
theorem exists_finds_of_not_plain {term : String} (h : ¬Plain term) :
    ∃ text, Plain text ∧ Finds term text ∧ ¬Contains term text := by
  obtain ⟨text, hplain, hfinds⟩ := exists_finds term
  refine ⟨text, hplain, hfinds, fun hcontains => h fun c hc hspecial => ?_⟩
  exact hplain.folded c (hcontains.subset ((mem_folded_iff hspecial).mpr hc)) hspecial

end Tables
end Database
end AccessControl
