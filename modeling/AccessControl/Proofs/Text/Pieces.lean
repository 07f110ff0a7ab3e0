import AccessControl.Text.Blank
import Mathlib

/-! # Trimming and cutting

What is trimmed away stands at the ends of a text (`exists_trim`).  When it holds no separator, the
pieces of the text are the same without it, once they are trimmed themselves (`map_trim_splitOn`).
Texts without a separator are the pieces of what is joined from them (`splitOn_intercalate`), and
the pieces of any two texts are those of the two with a separator between them (`splitOn_join`). -/

namespace AccessControl.Text

variable {p : Char → Bool} {sep : Char}

/-! ### Ends -/

theorem trim_append_left {front : List Char} (h : ∀ c ∈ front, p c = true) (cs : List Char) :
    trim p (front ++ cs) = trim p cs := by
  rw [trim, List.dropWhile_append_of_pos h]
  rfl

theorem trim_append_right {back : List Char} (h : ∀ c ∈ back, p c = true) (cs : List Char) :
    trim p (cs ++ back) = trim p cs := by
  have hback : back.dropWhile p = [] := List.dropWhile_eq_nil_iff.mpr h
  have hreverse : ∀ c ∈ back.reverse, p c = true := fun c hc => h c (List.mem_reverse.mp hc)
  rw [trim, trim, List.dropWhile_append]
  split
  · next hempty => rw [hback, List.isEmpty_iff.mp hempty]
  · rw [List.reverse_append, List.dropWhile_append_of_pos hreverse]

/-- A text is what is left of it between what is trimmed away. -/
theorem exists_trim (p : Char → Bool) (cs : List Char) : ∃ front back, (∀ c ∈ front, p c = true) ∧
    (∀ c ∈ back, p c = true) ∧ cs = front ++ trim p cs ++ back := by
  refine ⟨cs.takeWhile p, (cs.dropWhile p).rtakeWhile p, fun c hc => List.mem_takeWhile_imp hc,
    fun c hc => List.mem_rtakeWhile_imp hc, ?_⟩
  have hwhole : (cs.dropWhile p).rdropWhile p ++ (cs.dropWhile p).rtakeWhile p = cs.dropWhile p :=
    List.rdropWhile_append_rtakeWhile
  calc cs = cs.takeWhile p ++ cs.dropWhile p := List.takeWhile_append_dropWhile.symm
    _ = cs.takeWhile p ++ ((cs.dropWhile p).rdropWhile p ++ (cs.dropWhile p).rtakeWhile p) := by
      rw [hwhole]
    _ = cs.takeWhile p ++ trim p cs ++ (cs.dropWhile p).rtakeWhile p := (List.append_assoc ..).symm

theorem trim_between {front back : List Char} (hfront : ∀ c ∈ front, p c = true)
    (hback : ∀ c ∈ back, p c = true) {first last : Char} (hfirst : p first = false)
    (hlast : p last = false) (inner : List Char) :
    trim p (front ++ first :: (inner ++ last :: back)) = first :: (inner ++ [last]) := by
  have hends : first :: (inner ++ last :: back) = (first :: (inner ++ [last])) ++ back := by
    rw [List.cons_append, List.append_assoc, List.singleton_append]
  rw [trim_append_left hfront, hends, trim_append_right hback, trim,
    List.dropWhile_cons_of_neg (by simp [hfirst]), ← List.cons_append, List.reverse_append,
    List.reverse_singleton, List.singleton_append, List.dropWhile_cons_of_neg (by simp [hlast]),
    List.reverse_cons, List.reverse_reverse]

/-! ### Pieces -/

theorem splitOn_sep (cs : List Char) : splitOn sep (sep :: cs) = [] :: splitOn sep cs := by
  rw [splitOn, if_pos rfl]

theorem splitOn_cons {c : Char} (hc : c ≠ sep) {cs : List Char} {piece : List Char}
    {pieces : List (List Char)} (h : splitOn sep cs = piece :: pieces) :
    splitOn sep (c :: cs) = (c :: piece) :: pieces := by
  rw [splitOn, if_neg hc, h]

/-- The pieces of two texts with a separator between them are the pieces of both. -/
theorem splitOn_join (cs ds : List Char) :
    splitOn sep (cs ++ sep :: ds) = splitOn sep cs ++ splitOn sep ds := by
  induction cs with
  | nil => exact splitOn_sep ds
  | cons c cs ih =>
      by_cases hc : c = sep
      · subst hc
        rw [List.cons_append, splitOn_sep, splitOn_sep, ih, List.cons_append]
      · cases hpieces : splitOn sep cs with
        | nil => exact absurd hpieces (splitOn_ne_nil sep cs)
        | cons piece pieces =>
            rw [hpieces, List.cons_append] at ih
            rw [List.cons_append, splitOn_cons hc ih, splitOn_cons hc hpieces, List.cons_append]

theorem splitOn_append {run : List Char} (hrun : sep ∉ run) {cs piece : List Char}
    {pieces : List (List Char)} (h : splitOn sep cs = piece :: pieces) :
    splitOn sep (run ++ cs) = (run ++ piece) :: pieces := by
  induction run with
  | nil => exact h
  | cons c run ih =>
      rw [List.mem_cons, not_or] at hrun
      exact splitOn_cons (Ne.symm hrun.1) (ih hrun.2)

/-- The last piece takes what is put at the end. -/
theorem exists_splitOn_append {run : List Char} (hrun : sep ∉ run) (cs : List Char) :
    ∃ pieces last, splitOn sep cs = pieces ++ [last] ∧
      splitOn sep (cs ++ run) = pieces ++ [last ++ run] := by
  induction cs with
  | nil =>
      have hwhole : splitOn sep (run ++ []) = [run ++ []] := splitOn_append hrun rfl
      rw [List.append_nil] at hwhole
      exact ⟨[], [], rfl, hwhole⟩
  | cons c cs ih =>
      obtain ⟨pieces, last, hpieces, hlonger⟩ := ih
      by_cases hc : c = sep
      · subst hc
        refine ⟨[] :: pieces, last, ?_, ?_⟩
        · rw [splitOn_sep, hpieces, List.cons_append]
        · rw [List.cons_append, splitOn_sep, hlonger, List.cons_append]
      · cases pieces with
        | nil => exact ⟨[], c :: last, splitOn_cons hc hpieces, splitOn_cons hc hlonger⟩
        | cons piece pieces =>
            exact ⟨(c :: piece) :: pieces, last, splitOn_cons hc hpieces, splitOn_cons hc hlonger⟩

/-- Trimmed pieces do not tell whether the text was trimmed before it was cut. -/
theorem map_trim_splitOn (hsep : p sep = false) (cs : List Char) :
    (splitOn sep (trim p cs)).map (trim p) = (splitOn sep cs).map (trim p) := by
  obtain ⟨front, back, hfront, hback, hcs⟩ := exists_trim p cs
  have hfree : ∀ {run : List Char}, (∀ c ∈ run, p c = true) → sep ∉ run :=
    fun h hmem => absurd (h sep hmem) (by rw [hsep]; exact Bool.false_ne_true)
  obtain ⟨pieces, last, hpieces, hlonger⟩ :=
    exists_splitOn_append (hfree hback) (front ++ trim p cs)
  rw [← hcs] at hlonger
  have hends : (splitOn sep (front ++ trim p cs)).map (trim p) = (splitOn sep cs).map (trim p) := by
    rw [hpieces, hlonger, List.map_append, List.map_append, List.map_singleton, List.map_singleton,
      trim_append_right hback]
  rw [← hends]
  cases hmiddle : splitOn sep (trim p cs) with
  | nil => exact absurd hmiddle (splitOn_ne_nil sep _)
  | cons piece rest =>
      rw [splitOn_append (hfree hfront) hmiddle, List.map_cons, List.map_cons,
        trim_append_left hfront]

/-- Pieces without a separator are found again in what is joined from them. -/
theorem splitOn_intercalate {pieces : List (List Char)} (hne : pieces ≠ [])
    (hfree : ∀ piece ∈ pieces, sep ∉ piece) :
    splitOn sep (List.intercalate [sep] pieces) = pieces := by
  induction pieces with
  | nil => exact absurd rfl hne
  | cons piece pieces ih =>
      obtain ⟨hpiece, hfree⟩ := List.forall_mem_cons.mp hfree
      cases pieces with
      | nil =>
          rw [List.intercalate_singleton]
          have hwhole : splitOn sep (piece ++ []) = [piece ++ []] := splitOn_append hpiece rfl
          rwa [List.append_nil] at hwhole
      | cons next pieces =>
          have hrest : splitOn sep (sep :: List.intercalate [sep] (next :: pieces)) = [] :: next ::
              pieces := by
            rw [splitOn_sep, ih (List.cons_ne_nil next pieces) hfree]
          rw [List.intercalate_cons_cons, List.append_assoc, List.singleton_append,
            splitOn_append hpiece hrest, List.append_nil]

end AccessControl.Text
