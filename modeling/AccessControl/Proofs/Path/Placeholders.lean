import AccessControl.Proofs.Path.Language
import Mathlib

/-! # Several placeholders in a segment

A segment may be written as literal text with named placeholders in it.  Read one by one, each
placeholder stands for a text of its own and the literal text between two of them for itself
(`Spelled`).  A brace reaches to the last closing brace of its segment, so the matcher takes
everything from the first placeholder to the last for a single token.  `compile_written` says what
the matcher accepts, when such a pattern is refused, and that the two readings agree exactly for
segments with one placeholder. -/

namespace AccessControl.Path

/-! ### Segments as they are written -/

/-- A placeholder with its name, and the literal text behind it. -/
structure Slot where
  name : List Char
  after : List Char

/-- A character that only stands for itself. -/
def IsPlain (c : Char) : Prop :=
  c ≠ '\x7b' ∧ c ≠ '\x7d' ∧ c ≠ ':' ∧ c ≠ '*' ∧ c ≠ '/' ∧ c ≠ '?' ∧ c ≠ '#' ∧ Text.isBlank c = false

/-- A character of a name: any that a segment may hold, without braces. -/
def IsNamed (c : Char) : Prop :=
  c ≠ '\x7b' ∧ c ≠ '\x7d' ∧ c ≠ '/' ∧ c ≠ '?' ∧ c ≠ '#' ∧ Text.isBlank c = false

/-- A placeholder with a name that has no braces, before literal text. -/
structure Slot.Sound (s : Slot) : Prop where
  name : ∀ c ∈ s.name, IsNamed c
  after : ∀ c ∈ s.after, IsPlain c

/-- The text of a segment: literal text first, then the placeholders. -/
def written (first : List Char) (slots : List Slot) : List Char :=
  first ++ slots.flatMap fun s => '\x7b' :: (s.name ++ '\x7d' :: s.after)

/-- The texts of placeholders read one by one. -/
inductive Fills : List Slot → List Char → Prop
  | done : Fills [] []
  | slot (s : Slot) {run : List Char} {slots : List Slot} {rest : List Char} :
      run ≠ [] → '/' ∉ run →
      Fills slots rest → Fills (s :: slots) (run ++ (s.after ++ rest))

/-- The texts of a segment whose placeholders are read one by one. -/
def Spelled (first : List Char) (slots : List Slot) (text : List Char) : Prop :=
  ∃ rest, text = first ++ rest ∧ Fills slots rest

/-! ### One token for all placeholders -/

/-- What stands between the first opening and the last closing brace. -/
def inside (s : Slot) : List Slot → List Char
  | [] => s.name
  | t :: slots => s.name ++ '\x7d' :: (s.after ++ '\x7b' :: inside t slots)

/-- The literal text behind the last placeholder. -/
def lastAfter (s : Slot) : List Slot → List Char
  | [] => s.after
  | t :: slots => lastAfter t slots

theorem written_cons (first : List Char) (s : Slot) (slots : List Slot) :
    written first (s :: slots) = first ++
      '\x7b' :: (inside s slots ++ '\x7d' :: lastAfter s slots) := by
  rw [written]
  congr 1
  induction slots generalizing s with
  | nil => simp [inside, lastAfter]
  | cons t slots ih =>
      rw [List.flatMap_cons, ih t]
      simp [inside, lastAfter]

theorem inside_eq_nil {s : Slot} {slots : List Slot} :
    inside s slots = [] ↔ slots = [] ∧ s.name = [] := by
  cases slots <;> simp [inside]

theorem plain_lastAfter {s : Slot} {slots : List Slot} (h : ∀ t ∈ s :: slots, t.Sound) :
    ∀ c ∈ lastAfter s slots, IsPlain c := by
  induction slots generalizing s with
  | nil => exact (h s List.mem_cons_self).after
  | cons t slots ih => exact ih fun u hu => h u (List.mem_cons_of_mem s hu)

theorem named_or_mark {first : List Char} {slots : List Slot} (hfirst : ∀ c ∈ first, IsPlain c)
    (hslots : ∀ t ∈ slots, t.Sound) {c : Char} (h : c ∈ written first slots) :
    c ≠ '/' ∧ c ≠ '?' ∧ c ≠ '#' ∧ Text.isBlank c = false := by
  have hplain : IsPlain c → c ≠ '/' ∧ c ≠ '?' ∧ c ≠ '#' ∧ Text.isBlank c = false :=
    fun hc => ⟨hc.2.2.2.2.1, hc.2.2.2.2.2.1, hc.2.2.2.2.2.2.1, hc.2.2.2.2.2.2.2⟩
  rw [written, List.mem_append, List.mem_flatMap] at h
  rcases h with h | ⟨t, ht, h⟩
  · exact hplain (hfirst c h)
  · rw [List.mem_cons, List.mem_append, List.mem_cons] at h
    rcases h with rfl | h | rfl | h
    · decide
    · exact ⟨((hslots t ht).name c h).2.2.1, ((hslots t ht).name c h).2.2.2.1,
        ((hslots t ht).name c h).2.2.2.2.1, ((hslots t ht).name c h).2.2.2.2.2⟩
    · decide
    · exact hplain ((hslots t ht).after c h)

theorem scans_plain {cs rest : List Char} {pieces : List Piece} (h : ∀ c ∈ cs, IsPlain c)
    (hrest : Scans rest pieces) :
    Scans (cs ++ rest) (cs.map .literal ++ pieces) := by
  induction cs with
  | nil => exact hrest
  | cons c cs ih =>
      have hc := h c List.mem_cons_self
      have hnone : takeToken (c :: (cs ++ rest)) = none := by
        simp [takeToken, hc.1, hc.2.2.1, hc.2.2.2.1]
      refine .literal (fun text after hat => ?_) (ih fun d hd => h d (List.mem_cons_of_mem c hd))
      cases (takeToken_of_tokenAt hat).symm.trans hnone

theorem scan_written {first : List Char} {s : Slot} {slots : List Slot}
    (hfirst : ∀ c ∈ first, IsPlain c) (hslots : ∀ t ∈ s :: slots, t.Sound) :
    scan (written first (s :: slots)) = first.map .literal ++
      .token ('\x7b' :: (inside s slots ++ ['\x7d'])) :: (lastAfter s slots).map .literal := by
  have hlast := plain_lastAfter hslots
  have hrest := scans_plain hlast .done
  rw [List.append_nil, List.append_nil] at hrest
  have hclosing : '\x7d' ∉ lastAfter s slots := fun hmem => (hlast _ hmem).2.1 rfl
  rw [written_cons]
  exact (scans_iff.mp
    (scans_plain hfirst (.token (.braces (inside s slots) _ hclosing) hrest))).symm

theorem scan_plain {cs : List Char} (h : ∀ c ∈ cs, IsPlain c) : scan cs = cs.map .literal := by
  have hscans := scans_plain h .done
  rw [List.append_nil, List.append_nil] at hscans
  exact (scans_iff.mp hscans).symm

/-! ### What the pieces stand for -/

theorem instance_literals_iff {cs text : List Char} {pieces : List Piece} :
    Instance (cs.map .literal ++ pieces) text ↔
      ∃ rest, text = cs ++ rest ∧ Instance pieces rest := by
  induction cs generalizing text with
  | nil => simp
  | cons c cs ih =>
      constructor
      · intro h
        cases h with
        | literal _ h =>
            obtain ⟨rest, rfl, hrest⟩ := ih.mp h
            exact ⟨rest, rfl, hrest⟩
      · rintro ⟨rest, rfl, hrest⟩
        exact .literal c (ih.mpr ⟨rest, rfl, hrest⟩)

theorem instance_plain_iff {cs text : List Char} (h : ∀ c ∈ cs, IsPlain c) :
    Instance (scan cs) text ↔ text = cs := by
  rw [scan_plain h, ← List.append_nil (cs.map Piece.literal), instance_literals_iff]
  constructor
  · rintro ⟨rest, rfl, hrest⟩
    cases hrest
    exact List.append_nil cs
  · rintro rfl
    exact ⟨[], (List.append_nil text).symm, .done⟩

/-- A segment with placeholders stands for a single run between its first and its last literal
text. -/
theorem instance_written_iff {first text : List Char} {s : Slot} {slots : List Slot}
    (hfirst : ∀ c ∈ first, IsPlain c) (hslots : ∀ t ∈ s :: slots, t.Sound) :
    Instance (scan (written first (s :: slots))) text ↔
      ∃ run, run ≠ [] ∧ '/' ∉ run ∧ text = first ++ (run ++ lastAfter s slots) := by
  have hlast : ∀ rest, Instance ((lastAfter s slots).map .literal) rest ↔
      rest = lastAfter s slots := by
    intro rest
    rw [← scan_plain (plain_lastAfter hslots), instance_plain_iff (plain_lastAfter hslots)]
  rw [scan_written hfirst hslots, instance_literals_iff]
  constructor
  · rintro ⟨rest, rfl, hrest⟩
    cases hrest with
    | token _ hne hslash hafter => exact ⟨_, hne, hslash, by rw [(hlast _).mp hafter]⟩
  · rintro ⟨run, hne, hslash, rfl⟩
    exact ⟨_, rfl, .token _ hne hslash ((hlast _).mpr rfl)⟩

theorem forall₂_plain_iff {segments texts : List (List Char)}
    (h : ∀ segment ∈ segments, ∀ c ∈ segment, IsPlain c) :
    List.Forall₂ Instance (segments.map scan) texts ↔ texts = segments := by
  rw [List.forall₂_map_left_iff]
  induction segments generalizing texts with
  | nil => exact List.forall₂_nil_left_iff
  | cons segment segments ih =>
      rw [List.forall₂_cons_left_iff]
      have hsegment := @instance_plain_iff segment
      have hsegments := fun texts => @ih texts fun t ht => h t (List.mem_cons_of_mem segment ht)
      constructor
      · rintro ⟨text, texts, htext, htexts, rfl⟩
        rw [(hsegment (h _ List.mem_cons_self)).mp htext, (hsegments _).mp htexts]
      · rintro rfl
        exact ⟨segment, segments, (hsegment (h _ List.mem_cons_self)).mpr rfl,
          (hsegments _).mpr rfl, rfl⟩

/-- Of the segments of a pattern only the one with placeholders leaves a choice. -/
theorem forall₂_written_iff {before after texts : List (List Char)} {first : List Char} {s : Slot}
    {slots : List Slot} (hliteral : ∀ segment ∈ before ++ after, ∀ c ∈ segment, IsPlain c)
    (hfirst : ∀ c ∈ first, IsPlain c) (hslots : ∀ t ∈ s :: slots, t.Sound) :
    List.Forall₂ Instance ((before ++ written first (s :: slots) :: after).map scan) texts ↔
      ∃ run, run ≠ [] ∧ '/' ∉ run ∧
        texts = before ++ (first ++ (run ++ lastAfter s slots)) :: after := by
  induction before generalizing texts with
  | nil =>
      rw [List.nil_append, List.map_cons, List.forall₂_cons_left_iff]
      constructor
      · rintro ⟨text, texts, htext, htexts, rfl⟩
        obtain ⟨run, hne, hslash, rfl⟩ := (instance_written_iff hfirst hslots).mp htext
        exact ⟨run, hne, hslash, by rw [(forall₂_plain_iff hliteral).mp htexts]; rfl⟩
      · rintro ⟨run, hne, hslash, rfl⟩
        exact ⟨_, after, (instance_written_iff hfirst hslots).mpr ⟨run, hne, hslash, rfl⟩,
          (forall₂_plain_iff hliteral).mpr rfl, rfl⟩
  | cons segment before ih =>
      have hsegment := @instance_plain_iff segment
      have hplain := hliteral segment List.mem_cons_self
      have hrest := fun texts => @ih texts fun t ht => hliteral t (List.mem_cons_of_mem segment ht)
      rw [List.cons_append, List.map_cons, List.forall₂_cons_left_iff]
      constructor
      · rintro ⟨text, texts, htext, htexts, rfl⟩
        obtain ⟨run, hne, hslash, rfl⟩ := (hrest texts).mp htexts
        exact ⟨run, hne, hslash, by rw [(hsegment hplain).mp htext]; rfl⟩
      · rintro ⟨run, hne, hslash, rfl⟩
        exact ⟨segment, _, (hsegment hplain).mpr rfl, (hrest _).mpr ⟨run, hne, hslash, rfl⟩, rfl⟩

/-! ### Both readings of a segment -/

theorem Fills.run {s : Slot} {slots : List Slot} {rest : List Char}
    (hslots : ∀ t ∈ s :: slots, t.Sound) (h : Fills (s :: slots) rest) :
    ∃ run, run ≠ [] ∧ '/' ∉ run ∧ rest = run ++ lastAfter s slots := by
  induction slots generalizing s rest with
  | nil =>
      cases h with
      | slot _ hne hslash h =>
          cases h
          exact ⟨_, hne, hslash, by rw [List.append_nil]; rfl⟩
  | cons t slots ih =>
      cases h with
      | @slot _ run _ _ hne hslash h =>
          obtain ⟨more, _, hmore, rfl⟩ := ih (fun u hu => hslots u (List.mem_cons_of_mem s hu)) h
          have hafter : '/' ∉ s.after :=
            fun hmem => ((hslots s List.mem_cons_self).after _ hmem).2.2.2.2.1 rfl
          refine ⟨run ++ (s.after ++ more), by simp [hne], ?_, by simp [lastAfter]⟩
          simp [hslash, hafter, hmore]

theorem Fills.length_le {s : Slot} {slots : List Slot} {rest : List Char}
    (h : Fills (s :: slots) rest) :
    slots.length + 1 + (lastAfter s slots).length ≤ rest.length := by
  induction slots generalizing s rest with
  | nil =>
      cases h with
      | slot _ hne _ h =>
          have := List.length_pos_iff.mpr hne
          simp only [List.length_append, List.length_nil, lastAfter]
          omega
  | cons t slots ih =>
      cases h with
      | slot _ hne _ h =>
          have := List.length_pos_iff.mpr hne
          have := ih h
          simp only [List.length_append, List.length_cons, lastAfter]
          omega

theorem fills_single_iff {s : Slot} {rest : List Char} :
    Fills [s] rest ↔ ∃ run, run ≠ [] ∧ '/' ∉ run ∧ rest = run ++ s.after := by
  constructor
  · intro h
    cases h with
    | slot _ hne hslash h =>
        cases h
        exact ⟨_, hne, hslash, by rw [List.append_nil]⟩
  · rintro ⟨run, hne, hslash, rfl⟩
    have h := Fills.slot s hne hslash .done
    rwa [List.append_nil] at h

/-! ### Compilation -/

section patterns

variable {text : String} {before after : List (List Char)} {first : List Char} {s : Slot}
  {slots : List Slot}

/-- Nothing in a pattern of literal segments and one with placeholders is forbidden, and it is not
blank. -/
theorem not_forbidden_written
    (hsegments : Segmented (Text.strip text).toList (before ++ written first (s :: slots) :: after))
    (hliteral : ∀ segment ∈ before ++ after, ∀ c ∈ segment, IsPlain c)
    (hfirst : ∀ c ∈ first, IsPlain c) (hslots : ∀ t ∈ s :: slots, t.Sound) :
    ¬ Forbidden text ∧ ¬ ∀ c ∈ text.toList, Text.isBlank c = true := by
  have hslashed : ∀ c ∈ (Text.strip text).toList, c ∈ slashed (Text.strip text).toList := by
    intro c hc
    unfold slashed
    split
    · exact hc
    · exact List.mem_cons_of_mem _ hc
  constructor
  · rintro ⟨c, hc, hbad⟩
    have hgood : c ≠ '?' ∧ c ≠ '#' ∧ Text.isBlank c = false := by
      have hmem := hslashed c hc
      rw [hsegments.joined, List.mem_flatMap] at hmem
      obtain ⟨segment, hsegment, hmem⟩ := hmem
      rcases List.mem_cons.mp hmem with rfl | hmem
      · decide
      rw [List.mem_append, List.mem_cons] at hsegment
      have hplain : segment ∈ before ++ after → c ≠ '?' ∧ c ≠ '#' ∧ Text.isBlank c = false := by
        intro hmem'
        obtain ⟨-, -, -, -, -, h⟩ := hliteral segment hmem' c hmem
        exact h
      rcases hsegment with h | rfl | h
      · exact hplain (List.mem_append_left _ h)
      · exact (named_or_mark hfirst hslots hmem).2
      · exact hplain (List.mem_append_right _ h)
    rcases hbad with h | h | h
    · exact Bool.false_ne_true (hgood.2.2.symm.trans h)
    · exact hgood.1 h
    · exact hgood.2.1 h
  · intro hblank
    have hnil : (Text.strip text).toList = [] := by rw [strip_toList, trim_eq_nil.mpr hblank]
    have hjoined := hsegments.joined
    have hmem : '\x7b' ∈ (before ++ written first (s :: slots) :: after).flatMap ('/' :: ·) := by
      simp [written_cons]
    rw [← hjoined, hnil] at hmem
    simp [slashed] at hmem

/-- The pieces of such a pattern: no segment is open. -/
theorem piecesOf_written
    (hsegments : Segmented (Text.strip text).toList (before ++ written first (s :: slots) :: after))
    (hliteral : ∀ segment ∈ before ++ after, ∀ c ∈ segment, IsPlain c) :
    piecesOf text = (before ++ written first (s :: slots) :: after).map scan ∧
      (segmentsOf (Text.strip text).toList).contains openSegment = false := by
  have hopen : ∀ segment ∈ before ++ written first (s :: slots) :: after,
      segment ≠ openSegment := by
    intro segment hsegment
    have hplain : segment ∈ before ++ after → segment ≠ openSegment := by
      rintro hmem rfl
      exact (hliteral _ hmem '*' List.mem_cons_self).2.2.2.1 rfl
    rw [List.mem_append, List.mem_cons] at hsegment
    rcases hsegment with h | rfl | h
    · exact hplain (List.mem_append_left _ h)
    · intro heq
      have hmem : '\x7b' ∈ openSegment := by
        rw [← heq, written_cons]
        simp
      revert hmem
      decide
    · exact hplain (List.mem_append_right _ h)
  rw [piecesOf, ← segmented_iff.mp hsegments]
  refine ⟨?_, ?_⟩
  · rw [leading,
      List.takeWhile_eq_self_iff.mpr fun segment hsegment => by simpa using hopen segment hsegment]
  · rw [Bool.eq_false_iff, ne_eq, List.contains_iff_mem]
    exact fun hmem => hopen _ hmem rfl

/-- The pattern is refused when its only placeholder has no name. -/
theorem nameless_written_iff
    (hsegments : Segmented (Text.strip text).toList (before ++ written first (s :: slots) :: after))
    (hliteral : ∀ segment ∈ before ++ after, ∀ c ∈ segment, IsPlain c)
    (hfirst : ∀ c ∈ first, IsPlain c) (hslots : ∀ t ∈ s :: slots, t.Sound) :
    Nameless text ↔ slots = [] ∧ s.name = [] := by
  have hliterals : ∀ segment ∈ before ++ after, Piece.token ['\x7b', '\x7d'] ∉ scan segment := by
    intro segment hsegment
    rw [scan_plain (hliteral segment hsegment)]
    simp
  have hwritten : Piece.token ['\x7b', '\x7d'] ∈ scan (written first (s :: slots)) ↔
      inside s slots = [] := by
    rw [scan_written hfirst hslots]
    simp only [List.mem_append, List.mem_map, List.mem_cons, Piece.token.injEq, reduceCtorEq,
      and_false, exists_false, false_or, or_false, List.cons.injEq, true_and]
    cases inside s slots <;> simp
  rw [Nameless, (piecesOf_written hsegments hliteral).1, ← inside_eq_nil, ← hwritten]
  constructor
  · rintro ⟨pieces, hpieces, hmem⟩
    obtain ⟨segment, hsegment, rfl⟩ := List.mem_map.mp hpieces
    rw [List.mem_append, List.mem_cons] at hsegment
    rcases hsegment with h | rfl | h
    · exact absurd hmem (hliterals _ (List.mem_append_left _ h))
    · exact hmem
    · exact absurd hmem (hliterals _ (List.mem_append_right _ h))
  · intro hmem
    exact ⟨_, List.mem_map_of_mem (List.mem_append_right _ List.mem_cons_self), hmem⟩

theorem accepts_written_iff
    (hsegments : Segmented (Text.strip text).toList (before ++ written first (s :: slots) :: after))
    (hliteral : ∀ segment ∈ before ++ after, ∀ c ∈ segment, IsPlain c)
    (hfirst : ∀ c ∈ first, IsPlain c) (hslots : ∀ t ∈ s :: slots, t.Sound) (path : String) :
    (patternOf text).expression.accepts path = true ↔ ∃ run, run ≠ [] ∧ '/' ∉ run ∧
      path.toList =
        (before ++ (first ++ (run ++ lastAfter s slots)) :: after).flatMap ('/' :: ·) := by
  rw [accepts_patternOf_iff, (piecesOf_written hsegments hliteral).1,
    (piecesOf_written hsegments hliteral).2, InLanguage]
  constructor
  · rintro ⟨texts, rest, hpath, htexts, rfl | ⟨h, _⟩⟩
    · obtain ⟨run, hne, hslash, rfl⟩ := (forall₂_written_iff hliteral hfirst hslots).mp htexts
      exact ⟨run, hne, hslash, hpath.trans (List.append_nil _)⟩
    · cases h
  · rintro ⟨run, hne, hslash, hpath⟩
    exact ⟨_, [], hpath.trans (List.append_nil _).symm,
      (forall₂_written_iff hliteral hfirst hslots).mpr ⟨run, hne, hslash, rfl⟩, .inl rfl⟩

/-- The paths of such a pattern, had each placeholder been read on its own. -/
def SpelledPath (before : List (List Char)) (first : List Char) (slots : List Slot)
    (after : List (List Char)) (path : String) : Prop :=
  ∃ segment, path.toList = (before ++ segment :: after).flatMap ('/' :: ·) ∧
    Spelled first slots segment

theorem spelledPath_single_iff {path : String} : SpelledPath before first [s] after path ↔
    ∃ run, run ≠ [] ∧ '/' ∉ run ∧
      path.toList = (before ++ (first ++ (run ++ s.after)) :: after).flatMap ('/' :: ·) := by
  constructor
  · rintro ⟨_, hpath, rest, rfl, hrest⟩
    obtain ⟨run, hne, hslash, rfl⟩ := fills_single_iff.mp hrest
    exact ⟨run, hne, hslash, hpath⟩
  · rintro ⟨run, hne, hslash, hpath⟩
    exact ⟨_, hpath, _, rfl, fills_single_iff.mpr ⟨run, hne, hslash, rfl⟩⟩

/-- With a second placeholder a single character between the first and the last
literal text is not spelled. -/
theorem not_spelledPath_single_char {t : Slot}
    (hliteral : ∀ segment ∈ before ++ after, ∀ c ∈ segment, IsPlain c)
    (hfirst : ∀ c ∈ first, IsPlain c) (hslots : ∀ u ∈ s :: t :: slots, u.Sound) :
    ¬ SpelledPath before first (s :: t :: slots) after
      (.ofList
        ((before ++ (first ++ (['x'] ++ lastAfter s (t :: slots))) :: after).flatMap
          ('/' :: ·))) := by
  rintro ⟨_, hpath, rest, rfl, hrest⟩
  have hclear : ∀ {cs : List Char}, (∀ c ∈ cs, IsPlain c) → '/' ∉ cs :=
    fun h hmem => (h _ hmem).2.2.2.2.1 rfl
  have hlast := hclear (plain_lastAfter hslots)
  have hwhole : ∀ {segment : List Char}, '/' ∉ segment →
      ∀ x ∈ before ++ segment :: after, '/' ∉ x := by
    intro segment hsegment x hx
    rw [List.mem_append, List.mem_cons] at hx
    rcases hx with h | rfl | h
    · exact hclear (hliteral x (List.mem_append_left _ h))
    · exact hsegment
    · exact hclear (hliteral x (List.mem_append_right _ h))
  obtain ⟨run, hne, hslash, hrun⟩ := hrest.run hslots
  rw [String.toList_ofList] at hpath
  have heq := flatMap_slash_injective (hwhole (by simp [hclear hfirst, hlast]))
    (hwhole (by simp [hrun, hclear hfirst, hslash, hlast])) hpath
  have hsegment := (List.cons.inj (List.append_cancel_left heq)).1
  have hlength := hrest.length_le
  rw [← List.append_cancel_left hsegment] at hlength
  simp only [List.length_append, List.length_cons, List.length_nil] at hlength
  omega

/-- A pattern of literal segments and one with placeholders is refused when its only placeholder
has no name.  Else it accepts the paths with any run between the first and the last literal text
of that segment.  These are the paths in which each placeholder is read on its own exactly when
there is a single one. -/
theorem compile_written
    (hsegments : Segmented (Text.strip text).toList (before ++ written first (s :: slots) :: after))
    (hliteral : ∀ segment ∈ before ++ after, ∀ c ∈ segment, IsPlain c)
    (hfirst : ∀ c ∈ first, IsPlain c) (hslots : ∀ t ∈ s :: slots, t.Sound) :
    (compile text = .error (.emptyPlaceholder text) ↔ slots = [] ∧ s.name = []) ∧
      (¬(slots = [] ∧ s.name = []) → ∃ m, compile text = .ok (some m) ∧
        (∀ path, m.accepts path = true ↔ ∃ run, run ≠ [] ∧ '/' ∉ run ∧
          path.toList =
            (before ++ (first ++ (run ++ lastAfter s slots)) :: after).flatMap ('/' :: ·)) ∧
        (∀ path, SpelledPath before first (s :: slots) after path → m.accepts path = true) ∧
        ((∀ path, m.accepts path = true ↔ SpelledPath before first (s :: slots) after path) ↔
          slots = [])) := by
  obtain ⟨hforbidden, hblank⟩ := not_forbidden_written hsegments hliteral hfirst hslots
  have hcompile := compile_eq text
  rw [if_neg hblank, if_neg hforbidden] at hcompile
  by_cases hnameless : Nameless text
  · have hname := (nameless_written_iff hsegments hliteral hfirst hslots).mp hnameless
    rw [if_pos hnameless] at hcompile
    exact ⟨iff_of_true hcompile hname, fun h => absurd hname h⟩
  · have hname := mt (nameless_written_iff hsegments hliteral hfirst hslots).mpr hnameless
    rw [if_neg hnameless] at hcompile
    have haccepts := accepts_written_iff hsegments hliteral hfirst hslots
    refine ⟨iff_of_false (by rw [hcompile]; simp) hname, fun _ => ⟨_, hcompile, haccepts, ?_, ?_⟩⟩
    · rintro path ⟨_, hpath, rest, rfl, hrest⟩
      obtain ⟨run, hne, hslash, rfl⟩ := hrest.run hslots
      exact (haccepts path).mpr ⟨run, hne, hslash, hpath⟩
    · constructor
      · intro hexact
        cases slots with
        | nil => rfl
        | cons t slots =>
            refine absurd
              ((hexact _).mp ((haccepts _).mpr ⟨['x'], by simp, by simp, String.toList_ofList⟩)) ?_
            exact not_spelledPath_single_char hliteral hfirst hslots
      · rintro rfl path
        rw [spelledPath_single_iff]
        exact haccepts path

end patterns

/-- A pattern with two placeholders: one token reaches over both. -/
theorem compile_written_pair :
    Segmented (Text.strip "/\x7ba\x7d-\x7bb\x7d").toList
      [written [] [⟨['a'], ['-']⟩, ⟨['b'], []⟩]] ∧
      ∃ m, compile "/\x7ba\x7d-\x7bb\x7d" = .ok (some m) ∧
        ¬∀ path, m.accepts path = true ↔
          SpelledPath [] [] [⟨['a'], ['-']⟩, ⟨['b'], []⟩] [] path := by
  have hsegments : Segmented (Text.strip "/\x7ba\x7d-\x7bb\x7d").toList
      ([] ++ written [] [⟨['a'], ['-']⟩, ⟨['b'], []⟩] :: []) := segmented_iff.mpr (by decide)
  have hslots : ∀ t ∈ [Slot.mk ['a'] ['-'], ⟨['b'], []⟩], t.Sound := by
    intro t ht
    simp only [List.mem_cons, List.not_mem_nil, or_false] at ht
    rcases ht with rfl | rfl
    · exact ⟨by simp [IsNamed]; decide, by simp [IsPlain]; decide⟩
    · exact ⟨by simp [IsNamed]; decide, by simp⟩
  obtain ⟨m, hm, -, -, hexact⟩ := (compile_written hsegments (by simp) (by simp) hslots).2 (by simp)
  exact ⟨hsegments, m, hm, mt hexact.mp (by simp)⟩

/-- A path of one character is accepted although the literal text between the placeholders is not in
it, and a placeholder without a name passes unseen beside another. -/
theorem accepts_one_character :
    (∃ m, compile "/\x7ba\x7d-\x7bb\x7d" = .ok (some m) ∧ m.accepts "/x" = true ∧
      ¬SpelledPath [] [] [⟨['a'], ['-']⟩, ⟨['b'], []⟩] [] "/x") ∧
    ∃ m, compile "/\x7b\x7d\x7ba\x7d" = .ok (some m) := by
  refine ⟨⟨⟨"/\x7ba\x7d-\x7bb\x7d", ⟨[.char '/', .wildcard], false⟩⟩, by decide +kernel, by
    decide +kernel, ?_⟩,
    ⟨⟨"/\x7b\x7d\x7ba\x7d", ⟨[.char '/', .wildcard], false⟩⟩, by decide +kernel⟩⟩
  rintro ⟨_, hpath, rest, rfl, hrest⟩
  have hlength := congrArg List.length hpath
  have hrest := hrest.length_le
  simp only [List.length_append, List.nil_append, List.flatMap_cons, List.flatMap_nil,
    List.length_cons, List.length_nil] at hlength hrest
  have hx : "/x".toList.length = 2 := by decide
  omega

end AccessControl.Path
