import AccessControl.Proofs.Path.Language
import Mathlib

/-! # What an open pattern covers

A pattern that ends in `**` stands for the rest of the path below its other segments.  A wildcard
takes any characters of a segment, line feeds among them, and the open tail takes any but line
feeds.  So of the paths of a pattern that goes on below the same segments, the open pattern accepts
those without a line feed there, and it accepts all of them exactly when that pattern has no
wildcard there (`covers_open_iff`). -/

namespace AccessControl.Path

/-! ### Below the first segments -/

/-- What follows the first segments of a path. -/
def below : ℕ → List Char → List Char
  | 0, cs => cs
  | k + 1, cs => below k ((cs.drop 1).dropWhile (· != '/'))

theorem head?_flatMap_append {texts : List (List Char)} {rest : List Char}
    (h : ∀ c ∈ rest.head?, c = '/') :
    ∀ c ∈ (texts.flatMap ('/' :: ·) ++ rest).head?, c = '/' := by
  cases texts with
  | nil => exact h
  | cons text texts =>
      intro c hc
      exact (Option.some.inj hc).symm

theorem below_flatMap {texts : List (List Char)} {rest : List Char}
    (htexts : ∀ text ∈ texts, '/' ∉ text) (hrest : ∀ c ∈ rest.head?, c = '/') :
    below texts.length (texts.flatMap ('/' :: ·) ++ rest) = rest := by
  induction texts with
  | nil => rfl
  | cons text texts ih =>
      obtain ⟨htext, htexts⟩ := List.forall_mem_cons.mp htexts
      have hrun : ∀ c ∈ text, (c != '/') = true := by
        intro c hc
        rw [bne_iff_ne]
        rintro rfl
        exact htext hc
      have hstop : ∀ c ∈ (texts.flatMap ('/' :: ·) ++ rest).head?, (c != '/') = false := by
        intro c hc
        rw [head?_flatMap_append hrest c hc]
        rfl
      rw [List.flatMap_cons, List.cons_append, List.cons_append, List.append_assoc,
        List.length_cons, below, List.drop_one, List.tail_cons, (span_append hrun hstop).2,
        ih htexts]

/-! ### Paths of segments one after the other -/

theorem TailText.head {tail : Bool} {cs : List Char} (h : TailText tail cs) :
    ∀ c ∈ cs.head?, c = '/' := by
  rcases h with rfl | ⟨-, more, rfl, -⟩
  · intro c hc
    cases hc
  · intro c hc
    exact (Option.some.inj hc).symm

theorem tailText_open_iff {cs : List Char} (h : ∀ c ∈ cs.head?, c = '/') :
    TailText true cs ↔ '\n' ∉ cs := by
  cases cs with
  | nil => simp [TailText]
  | cons c cs =>
      obtain rfl := h c rfl
      simp [TailText]

theorem InLanguage.head {segments : List (List Piece)} {tail : Bool} {cs : List Char}
    (h : InLanguage segments tail cs) :
    ∀ c ∈ cs.head?, c = '/' := by
  obtain ⟨texts, rest, rfl, -, hrest⟩ := h
  exact head?_flatMap_append hrest.head

/-- A path of segments is a path of the first ones, with a path of the others below. -/
theorem inLanguage_append_iff {front back : List (List Piece)} {tail : Bool} {cs : List Char} :
    InLanguage (front ++ back) tail cs ↔
      ∃ texts rest, cs = texts.flatMap ('/' :: ·) ++ rest ∧ List.Forall₂ Instance front texts ∧
        InLanguage back tail rest := by
  induction front generalizing cs with
  | nil =>
      constructor
      · intro h
        exact ⟨[], cs, rfl, .nil, h⟩
      · rintro ⟨texts, rest, rfl, htexts, hrest⟩
        cases htexts
        exact hrest
  | cons pieces front ih =>
      constructor
      · rintro ⟨texts, rest, rfl, htexts, hrest⟩
        rw [List.cons_append, List.forall₂_cons_left_iff] at htexts
        obtain ⟨text, texts, htext, htexts, rfl⟩ := htexts
        obtain ⟨others, more, heq, hothers, hmore⟩ := ih.mp ⟨texts, rest, rfl, htexts, hrest⟩
        refine ⟨text :: others, more, ?_, .cons htext hothers, hmore⟩
        rw [List.flatMap_cons, List.append_assoc, heq, List.flatMap_cons, List.append_assoc]
      · rintro ⟨_, more, rfl, htexts, hmore⟩
        cases htexts with
        | @cons _ text _ texts htext htexts =>
            obtain ⟨others, rest, heq, hothers, hrest⟩ := ih.mpr ⟨texts, more, rfl, htexts, hmore⟩
            refine ⟨text :: others, rest, ?_, .cons htext hothers, hrest⟩
            rw [List.flatMap_cons, List.append_assoc, heq, List.flatMap_cons, List.append_assoc]

/-! ### The characters of an instance -/

theorem TokenAt.subset {cs text after : List Char} (h : TokenAt cs text after) : after ⊆ cs := by
  cases h <;> intro c hc <;> simp [hc]

theorem Scans.literal_mem {cs : List Char} {pieces : List Piece} (h : Scans cs pieces) {c : Char}
    (hc : .literal c ∈ pieces) : c ∈ cs := by
  induction h with
  | done => cases hc
  | token hat _ ih =>
      rcases List.mem_cons.mp hc with heq | hc
      · cases heq
      · exact hat.subset (ih hc)
  | literal _ _ ih =>
      rcases List.mem_cons.mp hc with heq | hc
      · cases heq
        exact List.mem_cons_self
      · exact List.mem_cons_of_mem _ (ih hc)

/-- A character of an instance is a literal one, or stands for a token and is no slash. -/
theorem Instance.literal_or_token {pieces : List Piece} {text : List Char}
    (h : Instance pieces text) {c : Char} (hc : c ∈ text) :
    .literal c ∈ pieces ∨ (∃ name, .token name ∈ pieces) ∧ c ≠ '/' := by
  induction h with
  | done => cases hc
  | literal d _ ih =>
      rcases List.mem_cons.mp hc with rfl | hc
      · exact .inl List.mem_cons_self
      · refine (ih hc).imp (List.mem_cons_of_mem _) fun ⟨⟨name, hname⟩, hne⟩ => ?_
        exact ⟨⟨name, List.mem_cons_of_mem _ hname⟩, hne⟩
  | token name _ hslash _ ih =>
      rcases List.mem_append.mp hc with hc | hc
      · exact .inr ⟨⟨name, List.mem_cons_self⟩, fun heq => hslash (heq ▸ hc)⟩
      · refine (ih hc).imp (List.mem_cons_of_mem _) fun ⟨⟨other, hother⟩, hne⟩ => ?_
        exact ⟨⟨other, List.mem_cons_of_mem _ hother⟩, hne⟩

/-- Instances of segments without slashes have none. -/
theorem slash_not_mem {segments texts : List (List Char)}
    (hsegments : ∀ segment ∈ segments, '/' ∉ segment)
    (h : List.Forall₂ Instance (segments.map scan) texts) : ∀ text ∈ texts, '/' ∉ text := by
  induction segments generalizing texts with
  | nil =>
      cases h
      simp
  | cons segment segments ih =>
      obtain ⟨hsegment, hsegments⟩ := List.forall_mem_cons.mp hsegments
      cases h with
      | cons htext htexts =>
          refine List.forall_mem_cons.mpr ⟨fun hslash => ?_, ih hsegments htexts⟩
          rcases htext.literal_or_token hslash with hliteral | ⟨-, hne⟩
          · exact hsegment ((scans_iff.mpr rfl).literal_mem hliteral)
          · exact hne rfl

/-- A path of pieces without tokens and literal line feeds has no line feed. -/
theorem InLanguage.not_mem_lineFeed {segments : List (List Piece)} {tail : Bool} {cs : List Char}
    (h : InLanguage segments tail cs) (hliteral : ∀ pieces ∈ segments, .literal '\n' ∉ pieces)
    (htoken : ∀ pieces ∈ segments, ∀ name, .token name ∉ pieces) : '\n' ∉ cs := by
  obtain ⟨texts, rest, rfl, htexts, hrest⟩ := h
  have htail : '\n' ∉ rest := by
    rcases hrest with rfl | ⟨-, more, rfl, hmore⟩
    · exact List.not_mem_nil
    · simpa using hmore
  induction htexts with
  | nil => exact htail
  | @cons pieces text segments texts htext htexts ih =>
      obtain ⟨hl, hliteral⟩ := List.forall_mem_cons.mp hliteral
      obtain ⟨ht, htoken⟩ := List.forall_mem_cons.mp htoken
      have hfirst : '\n' ∉ text := by
        intro hmem
        rcases htext.literal_or_token hmem with hmem | ⟨⟨name, hmem⟩, -⟩
        · exact hl hmem
        · exact ht name hmem
      rw [List.flatMap_cons, List.append_assoc, List.mem_append, List.mem_cons, not_or, not_or]
      exact ⟨⟨by decide, hfirst⟩, ih hliteral htoken⟩

/-! ### Line feeds for tokens -/

/-- A text for pieces, with a line feed for every token. -/
def filled (pieces : List Piece) : List Char :=
  pieces.map fun
    | .literal c => c
    | .token _ => '\n'

theorem instance_filled (pieces : List Piece) : Instance pieces (filled pieces) := by
  induction pieces with
  | nil => exact .done
  | cons piece pieces ih =>
      cases piece with
      | literal c => exact .literal c ih
      | token name => exact .token name (by simp : ['\n'] ≠ []) (by decide) ih

theorem inLanguage_filled (segments : List (List Piece)) (tail : Bool) :
    InLanguage segments tail ((segments.map filled).flatMap ('/' :: ·)) := by
  refine ⟨segments.map filled, [], (List.append_nil _).symm, ?_, .inl rfl⟩
  rw [List.forall₂_map_right_iff, List.forall₂_same]
  exact fun pieces _ => instance_filled pieces

theorem lineFeed_mem_filled {segments : List (List Piece)} {pieces : List Piece} {name : List Char}
    (hpieces : pieces ∈ segments) (hname : .token name ∈ pieces) :
    '\n' ∈ (segments.map filled).flatMap ('/' :: ·) := by
  rw [List.mem_flatMap]
  exact ⟨filled pieces, List.mem_map_of_mem hpieces,
    List.mem_cons_of_mem _ (List.mem_map.mpr ⟨_, hname, rfl⟩)⟩

/-! ### The open pattern -/

section segments

variable {front back : List (List Char)} {tail : Bool} {cs : List Char}

theorem below_instances {texts : List (List Char)} {rest : List Char}
    (hfront : ∀ segment ∈ front, '/' ∉ segment)
    (htexts : List.Forall₂ Instance (front.map scan) texts) (hrest : ∀ c ∈ rest.head?, c = '/') :
    below front.length (texts.flatMap ('/' :: ·) ++ rest) = rest := by
  have hlength : front.length = texts.length := by rw [← htexts.length_eq, List.length_map]
  rw [hlength]
  exact below_flatMap (slash_not_mem hfront htexts) hrest

theorem InLanguage.open_iff (hfront : ∀ segment ∈ front, '/' ∉ segment)
    (h : InLanguage (front.map scan ++ back.map scan) tail cs) :
    InLanguage (front.map scan) true cs ↔ '\n' ∉ below front.length cs := by
  constructor
  · rintro ⟨texts, rest, rfl, htexts, hrest⟩
    rw [below_instances hfront htexts hrest.head]
    exact (tailText_open_iff hrest.head).mp hrest
  · obtain ⟨texts, rest, rfl, htexts, hrest⟩ := inLanguage_append_iff.mp h
    rw [below_instances hfront htexts hrest.head]
    intro hfeed
    exact ⟨texts, rest, rfl, htexts, (tailText_open_iff hrest.head).mpr hfeed⟩

theorem InLanguage.open_of_literals (h : InLanguage (front.map scan ++ back.map scan) tail cs)
    (hfeed : ∀ segment ∈ back, '\n' ∉ segment)
    (htoken : ∀ segment ∈ back, ∀ name, .token name ∉ scan segment) :
    InLanguage (front.map scan) true cs := by
  obtain ⟨texts, rest, rfl, htexts, hrest⟩ := inLanguage_append_iff.mp h
  have hliteral : ∀ pieces ∈ back.map scan, .literal '\n' ∉ pieces := by
    rw [List.forall_mem_map]
    exact fun segment hsegment hmem => hfeed segment hsegment ((scans_iff.mpr rfl).literal_mem hmem)
  have hnone := hrest.not_mem_lineFeed hliteral (List.forall_mem_map.mpr htoken)
  exact ⟨texts, rest, rfl, htexts, (tailText_open_iff hrest.head).mpr hnone⟩

theorem exists_lineFeed_below (hfront : ∀ segment ∈ front, '/' ∉ segment) {segment name : List Char}
    (hsegment : segment ∈ back) (hname : .token name ∈ scan segment) (tail : Bool) :
    ∃ cs, InLanguage (front.map scan ++ back.map scan) tail cs ∧
      ¬InLanguage (front.map scan) true cs := by
  have htexts : List.Forall₂ Instance (front.map scan) ((front.map scan).map filled) := by
    rw [List.forall₂_map_right_iff, List.forall₂_same]
    exact fun pieces _ => instance_filled pieces
  have hrest := inLanguage_filled (back.map scan) tail
  have hpath := inLanguage_append_iff.mpr ⟨_, _, rfl, htexts, hrest⟩
  refine ⟨_, hpath, ?_⟩
  rw [hpath.open_iff hfront, below_instances hfront htexts hrest.head, not_not]
  exact lineFeed_mem_filled (List.mem_map_of_mem hsegment) hname

/-- The segments before the first `**` of a pattern that goes on. -/
theorem leading_append_of_mem (h : openSegment ∈ front) (more : List (List Char)) :
    leading (front ++ more) = leading front := by
  induction front with
  | nil => cases h
  | cons segment front ih =>
      unfold leading at ih ⊢
      rw [List.cons_append, List.takeWhile_cons, List.takeWhile_cons]
      split
      · next hne =>
          rcases List.mem_cons.mp h with rfl | h
          · exact absurd hne (by decide)
          · rw [ih h]
      · rfl

theorem leading_append_of_not_mem (h : openSegment ∉ front) (more : List (List Char)) :
    leading (front ++ more) = front ++ leading more := by
  unfold leading
  rw [List.takeWhile_append_of_pos]
  intro segment hsegment
  rw [bne_iff_ne]
  rintro rfl
  exact h hsegment

end segments

/-! ### Compilation -/

theorem compile_eq_some_iff {text : String} {m : Matcher} :
    compile text = .ok (some m) ↔ (¬∀ c ∈ text.toList, Text.isBlank c = true) ∧ ¬Forbidden text ∧
      ¬Nameless text ∧
      m = ⟨Text.strip text, (patternOf text).expression⟩ := by
  rw [compile_eq]
  split_ifs with hblank hforbidden hnameless
  · exact iff_of_false (by simp) fun hnot => hnot.1 hblank
  · simp [hforbidden]
  · simp [hnameless]
  · simp only [Except.ok.injEq, Option.some.injEq, hblank, hforbidden, hnameless, not_false_eq_true,
      true_and]
    exact eq_comm

section segmented

variable {text : String} {segments : List (List Char)}
  (h : Segmented (Text.strip text).toList segments)

include h

theorem not_blank_of_mem {segment : List Char} (hmem : segment ∈ segments) (hne : segment ≠ []) :
    ¬∀ c ∈ text.toList, Text.isBlank c = true := by
  intro hblank
  have hnil : (Text.strip text).toList = [] := by rw [strip_toList, trim_eq_nil.mpr hblank]
  have hsegments := segmented_iff.mp h
  rw [hnil] at hsegments
  obtain rfl : segments = [[]] := hsegments
  exact hne (List.mem_singleton.mp hmem)

/-- What is forbidden stands in a segment. -/
theorem forbidden_iff : Forbidden text ↔
    ∃ segment ∈ segments, ∃ c ∈ segment, Text.isBlank c = true ∨ c = '?' ∨ c = '#' := by
  have hslash : ¬(Text.isBlank '/' = true ∨ '/' = '?' ∨ '/' = '#') := by decide
  have hslashed : ∀ c, Text.isBlank c = true ∨ c = '?' ∨ c = '#' →
      (c ∈ (Text.strip text).toList ↔ c ∈ slashed (Text.strip text).toList) := by
    intro c hc
    unfold slashed
    split
    · exact Iff.rfl
    · rw [List.mem_cons]
      refine (or_iff_right ?_).symm
      rintro rfl
      exact hslash hc
  constructor
  · rintro ⟨c, hmem, hc⟩
    rw [hslashed c hc, h.joined, List.mem_flatMap] at hmem
    obtain ⟨segment, hsegment, hmem⟩ := hmem
    rcases List.mem_cons.mp hmem with rfl | hmem
    · exact absurd hc hslash
    · exact ⟨segment, hsegment, c, hmem, hc⟩
  · rintro ⟨segment, hsegment, c, hmem, hc⟩
    refine ⟨c, ?_, hc⟩
    rw [hslashed c hc, h.joined, List.mem_flatMap]
    exact ⟨segment, hsegment, List.mem_cons_of_mem _ hmem⟩

theorem piecesOf_segmented : piecesOf text = (leading segments).map scan := by
  rw [piecesOf, ← segmented_iff.mp h]

theorem accepts_segmented_iff {m : Matcher} (hm : compile text = .ok (some m)) (path : String) :
    m.accepts path = true ↔
      InLanguage ((leading segments).map scan) (segments.contains openSegment) path.toList := by
  obtain ⟨-, -, -, rfl⟩ := compile_eq_some_iff.mp hm
  change (patternOf text).expression.accepts path = true ↔ _
  rw [accepts_patternOf_iff, piecesOf_segmented h, ← segmented_iff.mp h]

end segmented

section patterns

variable {text top : String} {front back : List (List Char)} {m : Matcher}
  (htext : Segmented (Text.strip text).toList (front ++ back))
  (htop : Segmented (Text.strip top).toList (front ++ [openSegment]))
    (hm : compile text = .ok (some m))

include htext htop

include hm in
/-- The open pattern compiles when a pattern compiles that goes on below the same segments. -/
theorem exists_compile_open : ∃ n, compile top = .ok (some n) := by
  obtain ⟨-, hforbidden, hnameless, -⟩ := compile_eq_some_iff.mp hm
  refine ⟨_,
    compile_eq_some_iff.mpr
    ⟨not_blank_of_mem htop (List.mem_append_right _ List.mem_cons_self) (by decide),
    fun hbad => hforbidden ?_, fun hbad => hnameless ?_, rfl⟩⟩
  · obtain ⟨segment, hsegment, c, hmem, hc⟩ := (forbidden_iff htop).mp hbad
    rcases List.mem_append.mp hsegment with hsegment | hsegment
    · exact (forbidden_iff htext).mpr ⟨segment, List.mem_append_left _ hsegment, c, hmem, hc⟩
    · obtain rfl := List.mem_singleton.mp hsegment
      obtain rfl : c = '*' := by simpa [openSegment] using hmem
      exact absurd hc (by decide)
  · obtain ⟨pieces, hpieces, hempty⟩ := hbad
    refine ⟨pieces, ?_, hempty⟩
    rw [piecesOf_segmented htop] at hpieces
    rw [piecesOf_segmented htext]
    by_cases hopen : openSegment ∈ front
    · rwa [leading_append_of_mem hopen] at hpieces ⊢
    · rw [leading_append_of_not_mem hopen] at hpieces ⊢
      rw [List.map_append] at hpieces ⊢
      refine List.mem_append_left _ ?_
      simpa [leading] using hpieces

include hm in
theorem accepts_open_of_mem {n : Matcher} (hn : compile top = .ok (some n))
    (hopen : openSegment ∈ front) (path : String) :
    n.accepts path = true ↔ m.accepts path = true := by
  have hcontains : ∀ more, (front ++ more).contains openSegment = true :=
    fun more => List.contains_iff_mem.mpr (List.mem_append_left _ hopen)
  rw [accepts_segmented_iff htop hn, accepts_segmented_iff htext hm, hcontains, hcontains,
    leading_append_of_mem hopen, leading_append_of_mem hopen]

omit htext in
theorem accepts_open_iff {n : Matcher} (hn : compile top = .ok (some n))
    (hopen : openSegment ∉ front) (path : String) :
    n.accepts path = true ↔ InLanguage (front.map scan) true path.toList := by
  have hleading : leading [openSegment] = [] := by decide
  have hcontains : (front ++ [openSegment]).contains openSegment = true :=
    List.contains_iff_mem.mpr (List.mem_append_right _ List.mem_cons_self)
  rw [accepts_segmented_iff htop hn, hcontains, leading_append_of_not_mem hopen, hleading,
    List.append_nil]

end patterns

/-- Every path that the second matcher accepts is accepted by the first. -/
def Matcher.Covers (n m : Matcher) : Prop := ∀ path, m.accepts path = true → n.accepts path = true

/-- A pattern that goes on below some segments, and the open pattern of these segments.  When the
first compiles, so does the second; it accepts a path of the first just when no line feed stands
below these segments.  It accepts all of them exactly when the first has no wildcard there, unless
the segments already hold `**`. -/
theorem covers_open_iff {text top : String} {front back : List (List Char)} {m : Matcher}
    (htext : Segmented (Text.strip text).toList (front ++ back))
    (htop : Segmented (Text.strip top).toList (front ++ [openSegment]))
    (hm : compile text = .ok (some m)) :
    ∃ n, compile top = .ok (some n) ∧
      (∀ path, m.accepts path = true →
        (n.accepts path = true ↔ openSegment ∈ front ∨ '\n' ∉ below front.length path.toList)) ∧
      (n.Covers m ↔ openSegment ∈ front ∨ ∀ segment ∈ leading back, ∀ name,
        Piece.token name ∉ scan segment) := by
  obtain ⟨n, hn⟩ := exists_compile_open htext htop hm
  refine ⟨n, hn, ?_⟩
  by_cases hopen : openSegment ∈ front
  · have hsame := accepts_open_of_mem htext htop hm hn hopen
    exact ⟨fun path hpath => iff_of_true ((hsame path).mpr hpath) (.inl hopen),
      iff_of_true (fun path hpath => (hsame path).mpr hpath) (.inl hopen)⟩
  have hfront : ∀ segment ∈ front, '/' ∉ segment :=
    fun segment hmem => htext.whole segment (List.mem_append_left _ hmem)
  have hpieces : (leading (front ++ back)).map scan = front.map scan ++
      (leading back).map scan := by
    rw [leading_append_of_not_mem hopen, List.map_append]
  have hlanguage := accepts_segmented_iff htext hm
  rw [hpieces] at hlanguage
  have hfeed : ∀ path, m.accepts path = true →
      (n.accepts path = true ↔ '\n' ∉ below front.length path.toList) := by
    intro path hpath
    rw [accepts_open_iff htop hn hopen]
    exact ((hlanguage path).mp hpath).open_iff hfront
  simp only [hopen, false_or]
  refine ⟨hfeed, fun hcovers segment hsegment name hname => ?_, fun htoken path hpath => ?_⟩
  · obtain ⟨cs, hpath, hnot⟩ :=
      exists_lineFeed_below hfront hsegment hname ((front ++ back).contains openSegment)
    rw [← String.toList_ofList (l := cs)] at hpath hnot
    exact hnot ((accepts_open_iff htop hn hopen _).mp (hcovers _ ((hlanguage _).mpr hpath)))
  · have hliteral : ∀ segment ∈ leading back, '\n' ∉ segment := by
      intro segment hsegment hmem
      obtain ⟨-, hforbidden, -⟩ := compile_eq_some_iff.mp hm
      have hback := List.mem_append_right front ((List.takeWhile_sublist _).subset hsegment)
      exact hforbidden ((forbidden_iff htext).mpr ⟨segment, hback, '\n', hmem, .inl (by decide)⟩)
    exact (accepts_open_iff htop hn hopen path).mpr
      (((hlanguage path).mp hpath).open_of_literals hliteral htoken)

/-- A pattern with a placeholder below `/orders`: a path with a line feed there is left out. -/
theorem covers_open_iff_orders : ∃ m n, compile "/orders/\x7bid\x7d/items" = .ok (some m) ∧
    compile "/orders/**" = .ok (some n) ∧ Segmented (Text.strip "/orders/\x7bid\x7d/items").toList
      (["orders".toList] ++ ["\x7bid\x7d".toList, "items".toList]) ∧
    Segmented (Text.strip "/orders/**").toList (["orders".toList] ++ [openSegment]) ∧
    m.accepts "/orders/7/items" = true ∧ n.accepts "/orders/7/items" = true ∧ ¬n.Covers m := by
  have htext : Segmented (Text.strip "/orders/\x7bid\x7d/items").toList
      (["orders".toList] ++ ["\x7bid\x7d".toList, "items".toList]) := segmented_iff.mpr (by decide)
  have htop : Segmented (Text.strip "/orders/**").toList (["orders".toList] ++ [openSegment]) :=
    segmented_iff.mpr (by decide)
  have hm : compile "/orders/\x7bid\x7d/items" = .ok (some ⟨"/orders/\x7bid\x7d/items",
      ⟨"/orders/".toList.map .char ++ .wildcard :: "/items".toList.map .char, false⟩⟩) := by
    decide +kernel
  obtain ⟨n, hn, hfeed, hcovers⟩ := covers_open_iff htext htop hm
  have hpath : Matcher.accepts ⟨"/orders/\x7bid\x7d/items",
      ⟨"/orders/".toList.map .char ++ .wildcard :: "/items".toList.map .char,
       false⟩⟩ "/orders/7/items" = true := by
    decide +kernel
  refine ⟨_, n, hm, hn, htext, htop, hpath, (hfeed _ hpath).mpr (.inr (by decide +kernel)),
    fun h => ?_⟩
  rcases hcovers.mp h with hopen | htoken
  · exact absurd hopen (by decide)
  · exact htoken "\x7bid\x7d".toList (by decide) "\x7bid\x7d".toList (by decide +kernel)

/-- A wildcard takes a line feed in the last segment, and the open tail does not. -/
theorem lineFeed_uncovered :
    ∃ m n, compile "/orders/*" = .ok (some m) ∧ compile "/orders/**" = .ok (some n) ∧
    m.accepts "/orders/a\nb" = true ∧ n.accepts "/orders/a\nb" = false :=
  ⟨⟨"/orders/*", ⟨"/orders/".toList.map .char ++ [.wildcard], false⟩⟩,
   ⟨"/orders/**", ⟨"/orders".toList.map .char, true⟩⟩,
    by decide +kernel, by decide +kernel, by decide +kernel, by decide +kernel⟩

end AccessControl.Path
