import AccessControl.Path.Pattern
import Mathlib

/-! # Tokens and segments of a pattern

What a pattern says is fixed here without reading it: `TokenAt` is a token at the front of a
segment (a brace and all up to the last closing brace, a colon and a name, or all of a run of
stars), `Scans` cuts a segment into literal characters and tokens from left to right, and
`Segmented` cuts a text at its slashes.

Each of them has exactly one outcome, and it is the one that is computed: `takeToken_of_tokenAt`,
`scans_iff` and `segmented_iff`. -/

namespace AccessControl.Path

/-! ### Tokens -/

/-- A token at the front of some characters: its text, and what follows it. -/
inductive TokenAt : List Char → List Char → List Char → Prop
  | braces (inside after : List Char) : '\x7d' ∉ after →
      TokenAt ('\x7b' :: (inside ++ '\x7d' :: after)) ('\x7b' :: (inside ++ ['\x7d'])) after
  | name (first : Char) (more after : List Char) : isNameStart first = true →
      (∀ c ∈ more, isNameChar c = true) → (∀ c ∈ after.head?, isNameChar c = false) →
      TokenAt (':' :: first :: (more ++ after)) (':' :: first :: more) after
  | stars (more after : List Char) : (∀ c ∈ more, c = '*') → (∀ c ∈ after.head?, c ≠ '*') →
      TokenAt ('*' :: (more ++ after)) ('*' :: more) after

theorem splitLastBrace_eq_none {cs : List Char} : splitLastBrace cs = none ↔ '\x7d' ∉ cs := by
  induction cs with
  | nil => simp [splitLastBrace]
  | cons c cs ih =>
      unfold splitLastBrace
      cases h : splitLastBrace cs with
      | none =>
          have hcs := ih.mp h
          by_cases hc : c = '\x7d' <;> simp [hc, hcs, eq_comm]
      | some p =>
          have hcs : '\x7d' ∈ cs := by
            by_contra hn
            rw [ih.mpr hn] at h
            cases h
          simp [hcs]

theorem splitLastBrace_append (inside : List Char) {after : List Char} (h : '\x7d' ∉ after) :
    splitLastBrace (inside ++ '\x7d' :: after) = some (inside, after) := by
  induction inside with
  | nil => simp [splitLastBrace, splitLastBrace_eq_none.mpr h]
  | cons c inside ih => rw [List.cons_append, splitLastBrace, ih]

theorem splitLastBrace_eq_some {cs inside after : List Char}
    (h : splitLastBrace cs = some (inside, after)) :
    cs = inside ++ '\x7d' :: after ∧ '\x7d' ∉ after := by
  induction cs generalizing inside with
  | nil => cases h
  | cons c cs ih =>
      unfold splitLastBrace at h
      cases hs : splitLastBrace cs with
      | none =>
          rw [hs] at h
          by_cases hc : c = '\x7d'
          · simp only [hc, if_true, Option.some.injEq, Prod.mk.injEq] at h
            obtain ⟨rfl, rfl⟩ := h
            exact ⟨by rw [hc]; rfl, splitLastBrace_eq_none.mp hs⟩
          · simp [hc] at h
      | some p =>
          obtain ⟨i, a⟩ := p
          simp only [hs, Option.some.injEq, Prod.mk.injEq] at h
          obtain ⟨rfl, rfl⟩ := h
          obtain ⟨hcs, ha⟩ := ih hs
          exact ⟨by rw [hcs]; rfl, ha⟩

theorem span_append {p : Char → Bool} {run after : List Char} (hrun : ∀ c ∈ run, p c = true)
    (hafter : ∀ c ∈ after.head?, p c = false) :
    (run ++ after).takeWhile p = run ∧ (run ++ after).dropWhile p = after := by
  rw [List.takeWhile_append_of_pos hrun, List.dropWhile_append_of_pos hrun]
  cases after with
  | nil => simp
  | cons c cs =>
      have hc := hafter c rfl
      simp [hc]

theorem head?_dropWhile {p : Char → Bool} (cs : List Char) :
    ∀ c ∈ (cs.dropWhile p).head?, p c = false := by
  intro c hc
  have h := List.head?_dropWhile_not p cs
  rw [Option.mem_def.mp hc] at h
  simpa using h

theorem takeToken_of_tokenAt {cs text after : List Char} (h : TokenAt cs text after) :
    takeToken cs = some (text, after) := by
  cases h with
  | braces inside after ha => simp [takeToken, splitLastBrace_append inside ha]
  | name first more after hf hm ha =>
      obtain ⟨htake, hdrop⟩ := span_append hm ha
      simp [takeToken, hf, htake, hdrop]
  | stars more after hm ha =>
      have hm' : ∀ c ∈ more, (c == '*') = true := fun c hc => by simpa using hm c hc
      have ha' : ∀ c ∈ after.head?, (c == '*') = false := fun c hc => by simpa using ha c hc
      obtain ⟨htake, hdrop⟩ := span_append hm' ha'
      simp [takeToken, htake, hdrop]

theorem tokenAt_of_takeToken {cs text after : List Char} (h : takeToken cs = some (text, after)) :
    TokenAt cs text after := by
  cases cs with
  | nil => cases h
  | cons c cs =>
      unfold takeToken at h
      dsimp only at h
      by_cases hbrace : c = '\x7b'
      · subst hbrace
        rw [if_pos rfl] at h
        cases hs : splitLastBrace cs with
        | none => rw [hs] at h; cases h
        | some p =>
            obtain ⟨inside, rest⟩ := p
            rw [hs] at h
            obtain ⟨rfl, rfl⟩ := Prod.mk.inj (Option.some.inj h)
            obtain ⟨rfl, hrest⟩ := splitLastBrace_eq_some hs
            exact .braces inside rest hrest
      rw [if_neg hbrace] at h
      by_cases hcolon : c = ':'
      · subst hcolon
        rw [if_pos rfl] at h
        cases cs with
        | nil => cases h
        | cons d ds =>
            by_cases hd : isNameStart d = true
            · simp only [hd, if_true, Option.some.injEq, Prod.mk.injEq] at h
              obtain ⟨rfl, rfl⟩ := h
              have hname := TokenAt.name d (ds.takeWhile isNameChar) (ds.dropWhile isNameChar) hd
                (fun c hc => List.mem_takeWhile_imp hc) (head?_dropWhile ds)
              rwa [List.takeWhile_append_dropWhile] at hname
            · simp [hd] at h
      rw [if_neg hcolon] at h
      by_cases hstar : c = '*'
      · subst hstar
        rw [if_pos rfl] at h
        obtain ⟨rfl, rfl⟩ := Prod.mk.inj (Option.some.inj h)
        have hstars := TokenAt.stars (cs.takeWhile (· == '*')) (cs.dropWhile (· == '*'))
          (fun c hc => by simpa using List.mem_takeWhile_imp hc)
          (fun c hc => by simpa using head?_dropWhile cs c hc)
        rwa [List.takeWhile_append_dropWhile] at hstars
      · rw [if_neg hstar] at h
        cases h

theorem TokenAt.length_lt {cs text after : List Char} (h : TokenAt cs text after) :
    after.length < cs.length := by
  cases h <;> simp <;> omega

/-! ### Segments cut into pieces -/

/-- The pieces of a segment: a token wherever one stands when the pieces before it are taken away,
and the characters where none does. -/
inductive Scans : List Char → List Piece → Prop
  | done : Scans [] []
  | token {cs text after : List Char} {pieces : List Piece} :
      TokenAt cs text after → Scans after pieces → Scans cs (.token text :: pieces)
  | literal {c : Char} {cs : List Char} {pieces : List Piece} :
      (∀ text after, ¬ TokenAt (c :: cs) text after) → Scans cs pieces →
      Scans (c :: cs) (.literal c :: pieces)

theorem scans_scanFrom : ∀ (fuel : ℕ) (cs : List Char), cs.length ≤ fuel →
    Scans cs (scanFrom fuel cs)
  | 0, [], _ => .done
  | 0, c :: cs, h => by simp at h
  | _ + 1, [], _ => .done
  | fuel + 1, c :: cs, h => by
      unfold scanFrom
      cases ht : takeToken (c :: cs) with
      | none =>
          have hlen : cs.length ≤ fuel := by simpa using h
          refine .literal (fun text after hat => ?_) (scans_scanFrom fuel cs hlen)
          rw [takeToken_of_tokenAt hat] at ht
          cases ht
      | some p =>
          obtain ⟨text, after⟩ := p
          have hat := tokenAt_of_takeToken ht
          have hlt := hat.length_lt
          exact .token hat (scans_scanFrom fuel after (by omega))

theorem Scans.unique {cs : List Char} {pieces others : List Piece} (h : Scans cs pieces)
    (h' : Scans cs others) : pieces = others := by
  induction h generalizing others with
  | done =>
      cases h' with
      | done => rfl
      | token hat _ => cases hat
  | token hat _ ih =>
      cases h' with
      | done => cases hat
      | token hat' hs' =>
          have heq := (takeToken_of_tokenAt hat).symm.trans (takeToken_of_tokenAt hat')
          obtain ⟨rfl, rfl⟩ := Prod.mk.inj (Option.some.inj heq)
          rw [ih hs']
      | literal hn _ => exact absurd hat (hn _ _)
  | literal hn _ ih =>
      cases h' with
      | token hat' _ => exact absurd hat' (hn _ _)
      | literal _ hs' => rw [ih hs']

/-- The pieces that are computed are the pieces of the segment. -/
theorem scans_iff {cs : List Char} {pieces : List Piece} : Scans cs pieces ↔ pieces = scan cs :=
  ⟨fun h => h.unique (scans_scanFrom _ _ (Nat.le_refl _)),
   fun h => h ▸ scans_scanFrom _ _ (Nat.le_refl _)⟩

/-! ### Texts cut into segments -/

/-- The text with a slash in front, which is added when it is missing. -/
def slashed (cs : List Char) : List Char := if cs.head? = some '/' then cs else '/' :: cs

/-- The segments of a text: each follows a slash and holds none. -/
structure Segmented (cs : List Char) (segments : List (List Char)) : Prop where
  joined : slashed cs = segments.flatMap ('/' :: ·)
  whole : ∀ segment ∈ segments, '/' ∉ segment

theorem splitOn_flatMap (cs : List Char) :
    (Text.splitOn '/' cs).flatMap ('/' :: ·) = '/' :: cs := by
  induction cs with
  | nil => rfl
  | cons c cs ih =>
      unfold Text.splitOn
      by_cases hc : c = '/'
      · simp [hc, ih]
      · cases hs : Text.splitOn '/' cs with
        | nil => exact absurd hs (Text.splitOn_ne_nil '/' cs)
        | cons piece rest =>
            rw [hs] at ih
            simp only [List.flatMap_cons, List.cons_append, List.cons.injEq, true_and] at ih
            simp [hc, ih]

theorem not_mem_of_mem_splitOn (sep : Char) (cs : List Char) :
    ∀ segment ∈ Text.splitOn sep cs, sep ∉ segment := by
  induction cs with
  | nil => simp [Text.splitOn]
  | cons c cs ih =>
      unfold Text.splitOn
      by_cases hc : c = sep
      · simpa [hc] using ih
      · cases hs : Text.splitOn sep cs with
        | nil => exact absurd hs (Text.splitOn_ne_nil sep cs)
        | cons piece rest =>
            rw [hs] at ih
            simp only [List.forall_mem_cons] at ih
            rw [if_neg hc, List.forall_mem_cons]
            refine ⟨fun hmem => ?_, ih.2⟩
            rcases List.mem_cons.mp hmem with h | h
            · exact hc h.symm
            · exact ih.1 h

theorem segmented_segmentsOf (cs : List Char) : Segmented cs (segmentsOf cs) := by
  unfold segmentsOf
  split
  · next rest => exact ⟨by simp [slashed, splitOn_flatMap], not_mem_of_mem_splitOn '/' rest⟩
  · next h =>
      refine ⟨?_, not_mem_of_mem_splitOn '/' cs⟩
      have hhead : cs.head? ≠ some '/' := by
        intro hc
        cases cs with
        | nil => cases hc
        | cons c cs => exact h cs (by rw [Option.some.inj hc])
      rw [slashed, if_neg hhead, splitOn_flatMap]

/-- Segments without a slash are told apart by the slashes between them. -/
theorem flatMap_slash_injective {xs ys : List (List Char)} (hx : ∀ x ∈ xs, '/' ∉ x)
    (hy : ∀ y ∈ ys, '/' ∉ y) (h : xs.flatMap ('/' :: ·) = ys.flatMap ('/' :: ·)) : xs = ys := by
  induction xs generalizing ys with
  | nil =>
      cases ys with
      | nil => rfl
      | cons y ys => simp at h
  | cons x xs ih =>
      cases ys with
      | nil => simp at h
      | cons y ys =>
          simp only [List.forall_mem_cons] at hx hy
          simp only [List.flatMap_cons, List.cons_append, List.cons.injEq, true_and] at h
          -- what follows a segment is nothing or begins with a slash, so the segment is what comes
          -- before it
          have hstop : ∀ zs : List (List Char), ∀ c ∈ (zs.flatMap ('/' :: ·)).head?,
              (c != '/') = false := by
            intro zs c hc
            cases zs with
            | nil => cases hc
            | cons z zs =>
                have hslash : '/' = c := Option.some.inj hc
                simp [← hslash]
          have hrun : ∀ {z : List Char}, '/' ∉ z → ∀ c ∈ z, (c != '/') = true := by
            intro z hz c hc
            simp only [bne_iff_ne, ne_eq]
            rintro rfl
            exact hz hc
          obtain ⟨htx, hdx⟩ := span_append (hrun hx.1) (hstop xs)
          obtain ⟨hty, hdy⟩ := span_append (hrun hy.1) (hstop ys)
          have hxy : x = y := by rw [← htx, ← hty, h]
          have hrest : xs.flatMap ('/' :: ·) = ys.flatMap ('/' :: ·) := by rw [← hdx, ← hdy, h]
          rw [hxy, ih hx.2 hy.2 hrest]

/-- The segments that are computed are the segments of the text. -/
theorem segmented_iff {cs : List Char} {segments : List (List Char)} :
    Segmented cs segments ↔ segments = segmentsOf cs := by
  constructor
  · intro h
    have hs := segmented_segmentsOf cs
    exact flatMap_slash_injective h.whole hs.whole (h.joined.symm.trans hs.joined)
  · rintro rfl
    exact segmented_segmentsOf cs

end AccessControl.Path
