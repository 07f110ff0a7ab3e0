import AccessControl.Path.Stored
import AccessControl.Proofs.Path.Tokens
import AccessControl.Proofs.Text.Regex
import Mathlib

/-! # The paths that a pattern stands for

`Spells` says which characters some items stand for, `TailText` what may follow under an open
tail, and `Instance` which texts the pieces of a segment stand for: a token stands for one or
more characters other than a slash, any other character for itself.  `InLanguage` puts the
segments of a pattern together.

`accepts_iff` and `accepts_expression_iff` say that the matcher decides the language, and
`read_text` that the stored text of an expression denotes it again; in particular every stored
text can be read.  The main statement `compile_iff_language` follows a pattern from its text to
both ways of matching it. -/

namespace AccessControl.Path

/-! ### Items -/

/-- The characters that items stand for. -/
inductive Spells : List Item → List Char → Prop
  | done : Spells [] []
  | char (c : Char) {items : List Item} {cs : List Char} : Spells items cs →
      Spells (.char c :: items) (c :: cs)
  | run {run : List Char} {items : List Item} {cs : List Char} : run ≠ [] → '/' ∉ run →
      Spells items cs →
      Spells (.wildcard :: items) (run ++ cs)

/-- What may follow the last item: nothing, or under an open tail a slash and text without a line
feed. -/
def TailText (tail : Bool) (cs : List Char) : Prop :=
  cs = [] ∨ tail = true ∧ ∃ more, cs = '/' :: more ∧ '\n' ∉ more

theorem spells_nil_iff {cs : List Char} : Spells [] cs ↔ cs = [] :=
  ⟨fun h => by cases h; rfl, fun h => h ▸ .done⟩

theorem spells_char_iff {c : Char} {items : List Item} {cs : List Char} :
    Spells (.char c :: items) cs ↔ ∃ rest, cs = c :: rest ∧ Spells items rest :=
  ⟨fun h => by cases h with | char _ h => exact ⟨_, rfl, h⟩, fun ⟨_, he, h⟩ => he ▸ .char c h⟩

theorem spells_wildcard_iff {items : List Item} {cs : List Char} :
    Spells (.wildcard :: items) cs ↔ ∃ run rest, cs = run ++ rest ∧ run ≠ [] ∧ '/' ∉ run ∧
      Spells items rest :=
  ⟨fun h => by cases h with | run hne hs h => exact ⟨_, _, rfl, hne, hs, h⟩,
    fun ⟨_, _, he, hne, hs, h⟩ => he ▸ .run hne hs h⟩

/-! ### Written expressions -/

/-- The form of an item. -/
def Item.regex : Item → Regex
  | .char c => .one (.single c)
  | .wildcard => .plus (.one (.except '/'))

/-- The form of what follows the items. -/
def endRegex (tail : Bool) : Regex :=
  let closing : Regex := .seq .finish .empty
  if tail then
    .seq (.optional (.seq (.one (.single '/')) (.seq (.star (.one (.except '\n'))) .empty))) closing
  else closing

/-- The form of items with what follows them. -/
def itemsRegex (tail : Bool) (items : List Item) : Regex :=
  items.foldr (fun item rest => .seq item.regex rest) (endRegex tail)

/-- The form of an expression. -/
def Expression.regex (e : Expression) : Regex := .seq .start (itemsRegex e.tail e.items)

/-- The text of items with what follows them. -/
def itemsText (tail : Bool) (items : List Item) : List Char :=
  items.flatMap Item.text ++ (if tail then tailText else []) ++ ['$']

theorem itemsText_cons (tail : Bool) (item : Item) (items : List Item) :
    itemsText tail (item :: items) = item.text ++ itemsText tail items := by
  simp [itemsText]

theorem ne_of_isReserved {c d : Char} (hc : isReserved c = false) (hd : isReserved d = true) :
    c ≠ d := by
  rintro rfl
  exact Bool.false_ne_true (hc.symm.trans hd)

theorem item_text_cases (item : Item) :
    (∃ c, item = .char c ∧ isReserved c = true ∧ item.text = ['\\', c]) ∨
      (∃ c, item = .char c ∧ isReserved c = false ∧ item.text = [c]) ∨
      item = .wildcard ∧ item.text = ['[', '^', '/', ']', '+'] := by
  cases item with
  | char c =>
      cases hc : isReserved c with
      | true => exact .inl ⟨c, rfl, hc, by simp [Item.text, hc]⟩
      | false => exact .inr (.inl ⟨c, rfl, hc, by simp [Item.text, hc]⟩)
  | wildcard => exact .inr (.inr ⟨rfl, rfl⟩)

/-- No sign of repetition stands at the front of the text. -/
theorem head_itemsText (tail : Bool) (items : List Item) :
    ∃ c cs, itemsText tail items = c :: cs ∧ c ≠ '*' ∧ c ≠ '+' ∧ c ≠ '?' := by
  cases items with
  | nil => cases tail <;> exact ⟨_, _, rfl, by decide, by decide, by decide⟩
  | cons item items =>
      rw [itemsText_cons]
      rcases item_text_cases item with ⟨c, -, -, h⟩ | ⟨c, -, hc, h⟩ | ⟨-, h⟩
      · exact ⟨_, _, by rw [h]; rfl, by decide, by decide, by decide⟩
      · have hne : ∀ d, isReserved d = true → c ≠ d := fun d => ne_of_isReserved hc
        exact ⟨c, _, by rw [h]; rfl, hne _ (by decide), hne _ (by decide), hne _ (by decide)⟩
      · exact ⟨_, _, by rw [h]; rfl, by decide, by decide, by decide⟩

theorem takeSign_itemsText (part : Regex) (tail : Bool) (items : List Item) :
    Regex.takeSign part (itemsText tail items) = (part, itemsText tail items) := by
  obtain ⟨c, cs, htext, hstar, hplus, hoptional⟩ := head_itemsText tail items
  rw [htext]
  unfold Regex.takeSign
  split <;> simp_all

theorem afterSign_itemsText (tail : Bool) (items : List Item) :
    Regex.afterSign (itemsText tail items) = itemsText tail items := by
  obtain ⟨c, cs, htext, -, -, hoptional⟩ := head_itemsText tail items
  rw [htext]
  unfold Regex.afterSign
  split <;> simp_all

theorem takeSequence_part {count : ℕ} {c : Char} {cs rest left : List Char} {part more : Regex}
    (hc : c ≠ '|' ∧ c ≠ ')') (hpart : Regex.takePart count c cs = some (part, rest))
    (hmore : Regex.takeSequence count rest = some (more, left)) :
    Regex.takeSequence (count + 1) (c :: cs) = some (.seq part more, left) := by
  have hgo : ¬(c = '|' ∨ c = ')') := not_or.mpr hc
  rw [Regex.takeSequence, if_neg hgo, hpart]
  simp [hmore]

theorem takePart_char {c : Char} (hc : isReserved c = false) (count : ℕ) (cs : List Char) :
    Regex.takePart (count + 1) c cs = some (Regex.takeSign (.one (.single c)) cs) := by
  have hne : ∀ d, isReserved d = true → c ≠ d := fun d => ne_of_isReserved hc
  have hsigns : c ∉ Regex.signs := by
    simp [Regex.signs, hne '*' (by decide), hne '+' (by decide), hne '?' (by decide),
      hne '\x7b' (by decide)]
  rw [Regex.takePart]
  · simp [hsigns]
  all_goals exact hne _ (by decide)

theorem escaped_of_isReserved {c : Char} (hc : isReserved c = true) : Regex.escaped c = some c := by
  have hall : "()[]\x7b\x7d?*+-|^$\\.&~# \t\n\r\x0b\x0c".toList.all
      (fun d => Regex.escaped d == some d) = true := by decide +kernel
  exact beq_iff_eq.mp (List.all_eq_true.mp hall c (List.contains_iff_mem.mp hc))

theorem takeSequence_item {count : ℕ} {tail : Bool} (item : Item) {items : List Item} {more : Regex}
    (hmore : Regex.takeSequence (count + 1) (itemsText tail items) = some (more, [])) :
    Regex.takeSequence (count + 2) (itemsText tail (item :: items)) =
      some (.seq item.regex more, []) := by
  have hsign := fun part => takeSign_itemsText part tail items
  rw [itemsText_cons]
  rcases item_text_cases item with ⟨c, rfl, hc, h⟩ | ⟨c, rfl, hc, h⟩ | ⟨rfl, h⟩
  · rw [h]
    refine takeSequence_part (by decide) ?_ hmore
    simp [Regex.takePart, Regex.takeMember, escaped_of_isReserved hc, hsign, Item.regex]
  · rw [h]
    refine takeSequence_part ⟨ne_of_isReserved hc (by decide), ne_of_isReserved hc (by decide)⟩ ?_
      hmore
    change Regex.takePart (count + 1) c (itemsText tail items) = _
    rw [takePart_char hc, hsign]
    rfl
  · have hset : Regex.takeSet ('^' :: '/' :: ']' :: '+' :: itemsText tail items) =
        some (.except '/', '+' :: itemsText tail items) := rfl
    rw [h]
    refine takeSequence_part (by decide) ?_ hmore
    change Regex.takePart (count + 1) '[' ('^' :: '/' :: ']' :: '+' :: itemsText tail items) = _
    simp only [Regex.takePart, hset, Option.map_some, Regex.takeSign, afterSign_itemsText]
    rfl

theorem takeSequence_closing (count : ℕ) :
    Regex.takeSequence (count + 2) ['$'] = some (.seq .finish .empty, []) := rfl

theorem takeSequence_tail (count : ℕ) :
    Regex.takeSequence (count + 6) (itemsText true []) = some (endRegex true, []) := by
  have hgroup : Regex.takePart (count + 5) '(' ['?', ':', '/', '.', '*', ')', '?', '$'] =
      some (.optional (.seq (.one (.single '/')) (.seq (.star (.one (.except '\n'))) .empty)),
        ['$']) := by
    simp only [Regex.takePart, Regex.openGroup, Regex.takeChoice]
    rfl
  exact takeSequence_part (by decide) hgroup (takeSequence_closing _)

theorem length_itemsText_pos (tail : Bool) (items : List Item) :
    0 < (itemsText tail items).length := by
  simp [itemsText]

theorem takeSequence_items (tail : Bool) (items : List Item) {count : ℕ}
    (hcount : 3 * (itemsText tail items).length ≤ count) :
    Regex.takeSequence count (itemsText tail items) = some (itemsRegex tail items, []) := by
  induction items generalizing count with
  | nil =>
      have hpos := length_itemsText_pos tail []
      cases tail with
      | false =>
          obtain ⟨n, rfl⟩ : ∃ n, count = n + 2 := ⟨count - 2, by omega⟩
          exact takeSequence_closing n
      | true =>
          have hlength : (itemsText true []).length = 9 := by decide
          obtain ⟨n, rfl⟩ : ∃ n, count = n + 6 := ⟨count - 6, by omega⟩
          exact takeSequence_tail n
  | cons item items ih =>
      rw [itemsText_cons, List.length_append] at hcount
      have hpos := length_itemsText_pos tail items
      have hitem : 0 < item.text.length := by
        rcases item_text_cases item with ⟨c, -, -, h⟩ | ⟨c, -, -, h⟩ | ⟨-, h⟩ <;> simp [h]
      obtain ⟨n, rfl⟩ : ∃ n, count = n + 2 := ⟨count - 2, by omega⟩
      exact takeSequence_item item (ih (by omega))

/-- The text of an expression is read as its form. -/
theorem read_text (e : Expression) : Regex.read e.text = some e.regex := by
  have htext : e.text.toList = '^' :: itemsText e.tail e.items := by
    simp [Expression.text, itemsText]
  have hitems : Regex.takeSequence (3 * (itemsText e.tail e.items).length + 4)
      (itemsText e.tail e.items) = some (itemsRegex e.tail e.items, []) :=
    takeSequence_items e.tail e.items (by omega)
  have hwhole : Regex.takeSequence (3 * (itemsText e.tail e.items).length + 5)
      ('^' :: itemsText e.tail e.items) = some (e.regex, []) :=
    takeSequence_part (by decide) (by rw [Regex.takePart]) hitems
  have hcount : 3 * e.text.toList.length + 3 =
      3 * (itemsText e.tail e.items).length + 5 + 1 := by
    rw [htext, List.length_cons]
    omega
  rw [Regex.read, hcount, htext, Regex.takeChoice, hwhole]
  rfl

/-! ### Paths that are accepted -/

variable {length : ℕ} {cs rest : List Char}

theorem leaves_items_iff {tail : Bool} {items : List Item} :
    (itemsRegex tail items).Leaves length cs rest ↔
      ∃ front middle, cs = front ++ middle ∧ Spells items front ∧
        (endRegex tail).Leaves length middle rest := by
  induction items generalizing cs with
  | nil =>
      constructor
      · intro h
        exact ⟨[], cs, rfl, .done, h⟩
      · rintro ⟨front, middle, rfl, hfront, h⟩
        rw [spells_nil_iff.mp hfront]
        exact h
  | cons item items ih =>
      change (∃ next, item.regex.Leaves length cs next ∧
        (itemsRegex tail items).Leaves length next rest) ↔ _
      simp only [ih]
      cases item with
      | char c =>
          constructor
          · rintro ⟨_, ⟨d, rfl, hd⟩, front, middle, rfl, hfront, h⟩
            obtain rfl := CharSet.contains_single.mp hd
            exact ⟨d :: front, middle, rfl, .char d hfront, h⟩
          · rintro ⟨_, middle, rfl, hfront, h⟩
            obtain ⟨front, rfl, hspells⟩ := spells_char_iff.mp hfront
            have hc : (CharSet.single c).contains c = true := CharSet.contains_single.mpr rfl
            exact ⟨front ++ middle, ⟨c, rfl, hc⟩, front, middle, rfl, hspells, h⟩
      | wildcard =>
          constructor
          · rintro ⟨_, htaken, front, middle, rfl, hfront, h⟩
            obtain ⟨run, rfl, hne, hrun⟩ := Regex.leaves_plus_one_iff.mp htaken
            have hslash : '/' ∉ run := CharSet.forall_contains_except.mp hrun
            exact ⟨run ++ front, middle, (List.append_assoc ..).symm, .run hne hslash hfront, h⟩
          · rintro ⟨_, middle, rfl, hfront, h⟩
            obtain ⟨run, front, rfl, hne, hslash, hfront⟩ := spells_wildcard_iff.mp hfront
            have hrun := CharSet.forall_contains_except.mpr hslash
            refine ⟨front ++ middle, ?_, front, middle, rfl, hfront, h⟩
            exact Regex.leaves_plus_one_iff.mpr ⟨run, List.append_assoc .., hne, hrun⟩

/-- Nothing is left when the text ends, or under an open tail goes on at a slash without a line
feed. -/
theorem leaves_end_iff {tail : Bool} : (endRegex tail).Leaves length cs [] ↔ TailText tail cs := by
  have hclosing : ∀ ds, (Regex.seq .finish .empty).Leaves length ds [] ↔ ds = [] := by
    intro ds
    constructor
    · rintro ⟨_, ⟨rfl, -⟩, h⟩
      exact h.symm
    · rintro rfl
      exact ⟨[], ⟨rfl, .inl rfl⟩, rfl⟩
  cases tail with
  | false => simp [endRegex, hclosing, TailText]
  | true =>
      constructor
      · rintro ⟨middle, htaken, h⟩
        obtain rfl := (hclosing middle).mp h
        rcases htaken with ⟨_, ⟨c, rfl, hc⟩, ⟨_, hmore, rfl⟩⟩ | h
        · obtain rfl := CharSet.contains_single.mp hc
          obtain ⟨run, rfl, hrun⟩ := Regex.leaves_star_one_iff.mp hmore
          refine .inr ⟨rfl, run ++ [], rfl, ?_⟩
          rw [List.append_nil]
          exact CharSet.forall_contains_except.mp hrun
        · exact .inl h.symm
      · rintro (rfl | ⟨-, more, rfl, hmore⟩)
        · exact ⟨[], .inr rfl, (hclosing []).mpr rfl⟩
        · refine ⟨[], .inl ⟨more, ⟨'/', rfl, CharSet.contains_single.mpr rfl⟩, [], ?_, rfl⟩,
            (hclosing []).mpr rfl⟩
          exact Regex.leaves_star_one_iff.mpr
            ⟨more, (List.append_nil more).symm, CharSet.forall_contains_except.mpr hmore⟩

/-- What is read from the text of an expression accepts the characters that its items stand for,
with what may follow. -/
theorem accepts_iff {e : Expression} {path : String} :
    e.accepts path = true ↔
      ∃ front rest, path.toList = front ++ rest ∧ Spells e.items front ∧ TailText e.tail rest := by
  rw [Expression.accepts, read_text, Option.any_some, Regex.accepts_iff]
  constructor
  · rintro ⟨_, ⟨rfl, -⟩, h⟩
    obtain ⟨front, rest, hpath, hfront, hrest⟩ := leaves_items_iff.mp h
    exact ⟨front, rest, hpath, hfront, leaves_end_iff.mp hrest⟩
  · rintro ⟨front, rest, hpath, hfront, hrest⟩
    exact ⟨path.toList, ⟨rfl, rfl⟩,
      leaves_items_iff.mpr ⟨front, rest, hpath, hfront, leaves_end_iff.mpr hrest⟩⟩

/-! ### Stored texts -/

theorem storedMatches_text (e : Expression) (path : String) :
    storedMatches (.text e.text) (.text path) = .ok (e.accepts path) := by
  have htruthy : (Value.text e.text).isTruthy = true := by
    simp only [Value.isTruthy, Bool.not_eq_true']
    rw [Bool.eq_false_iff]
    intro h
    have hnil : e.text.toList = [] := by simpa using h
    simp [Expression.text] at hnil
  simp only [storedMatches, htruthy, Bool.not_true, Expression.accepts, read_text]
  rfl

/-! ### Patterns -/

/-- The texts that pieces stand for. -/
inductive Instance : List Piece → List Char → Prop
  | done : Instance [] []
  | literal (c : Char) {pieces : List Piece} {cs : List Char} : Instance pieces cs →
      Instance (.literal c :: pieces) (c :: cs)
  | token (text : List Char) {run : List Char} {pieces : List Piece} {cs : List Char} :
      run ≠ [] → '/' ∉ run →
      Instance pieces cs → Instance (.token text :: pieces) (run ++ cs)

/-- The paths of segments: each segment follows a slash, and a tail may come last. -/
def InLanguage (segments : List (List Piece)) (tail : Bool) (path : List Char) : Prop :=
  ∃ texts rest, path = texts.flatMap ('/' :: ·) ++ rest ∧ List.Forall₂ Instance segments texts ∧
    TailText tail rest

theorem spells_pieces_append {pieces : List Piece} {items : List Item} {cs : List Char} :
    Spells (pieces.map Piece.item ++ items) cs ↔
      ∃ text rest, cs = text ++ rest ∧ Instance pieces text ∧ Spells items rest := by
  induction pieces generalizing cs with
  | nil =>
      constructor
      · intro h
        exact ⟨[], cs, rfl, .done, h⟩
      · rintro ⟨text, rest, rfl, ht, hr⟩
        cases ht
        exact hr
  | cons piece pieces ih =>
      cases piece with
      | literal c =>
          simp only [List.map_cons, List.cons_append, Piece.item, spells_char_iff, ih]
          constructor
          · rintro ⟨_, rfl, text, rest, rfl, ht, hr⟩
            exact ⟨c :: text, rest, rfl, .literal c ht, hr⟩
          · rintro ⟨text, rest, rfl, ht, hr⟩
            cases ht with
            | literal _ ht => exact ⟨_, rfl, _, _, rfl, ht, hr⟩
      | token name =>
          simp only [List.map_cons, List.cons_append, Piece.item, spells_wildcard_iff, ih]
          constructor
          · rintro ⟨run, _, rfl, hne, hs, text, rest, rfl, ht, hr⟩
            exact ⟨run ++ text, rest, (List.append_assoc ..).symm, .token name hne hs ht, hr⟩
          · rintro ⟨text, rest, rfl, ht, hr⟩
            cases ht with
            | token _ hne hs ht => exact ⟨_, _, List.append_assoc .., hne, hs, _, _, rfl, ht, hr⟩

theorem spells_segments {segments : List (List Piece)} {cs : List Char} :
    Spells (segments.flatMap fun pieces => .char '/' :: pieces.map Piece.item) cs ↔
      ∃ texts, cs = texts.flatMap ('/' :: ·) ∧ List.Forall₂ Instance segments texts := by
  induction segments generalizing cs with
  | nil =>
      simp only [List.flatMap_nil, spells_nil_iff, List.forall₂_nil_left_iff]
      exact ⟨fun h => ⟨[], by simp [h], rfl⟩, fun ⟨_, h, hn⟩ => by simp [h, hn]⟩
  | cons pieces segments ih =>
      simp only [List.flatMap_cons, List.cons_append, spells_char_iff, spells_pieces_append, ih]
      constructor
      · rintro ⟨_, rfl, text, _, rfl, ht, texts, rfl, hts⟩
        exact ⟨text :: texts, rfl, .cons ht hts⟩
      · rintro ⟨texts, rfl, hts⟩
        cases hts with
        | cons ht hts => exact ⟨_, rfl, _, _, rfl, ht, _, rfl, hts⟩

/-- The expression of a pattern accepts the paths of its segments. -/
theorem accepts_expression_iff {p : Pattern} {path : String} :
    p.expression.accepts path = true ↔ InLanguage p.segments p.tail path.toList := by
  rw [accepts_iff]
  simp only [Pattern.expression, spells_segments, InLanguage]
  constructor
  · rintro ⟨_, rest, he, ⟨texts, rfl, hts⟩, hr⟩
    exact ⟨texts, rest, he, hts, hr⟩
  · rintro ⟨texts, rest, he, hts, hr⟩
    exact ⟨_, rest, he, ⟨texts, rfl, hts⟩, hr⟩

/-! ### Compilation -/

theorem trim_eq_nil {p : Char → Bool} {cs : List Char} :
    Text.trim p cs = [] ↔ ∀ c ∈ cs, p c = true := by
  unfold Text.trim
  rw [List.reverse_eq_nil_iff, List.dropWhile_eq_nil_iff]
  constructor
  · intro h c hc
    rw [← List.takeWhile_append_dropWhile (p := p) (l := cs)] at hc
    rcases List.mem_append.mp hc with hc | hc
    · exact List.mem_takeWhile_imp hc
    · exact h c (List.mem_reverse.mpr hc)
  · intro h c hc
    exact h c ((List.dropWhile_sublist p).subset (List.mem_reverse.mp hc))

theorem strip_toList (s : String) : (Text.strip s).toList = Text.trim Text.isBlank s.toList :=
  String.toList_ofList

/-- The segments before the first `**`. -/
def leading (segments : List (List Char)) : List (List Char) :=
  segments.takeWhile (· != openSegment)

theorem forall₂_scans (segments : List (List Char)) :
    List.Forall₂ Scans segments (segments.map scan) := by
  induction segments with
  | nil => exact .nil
  | cons segment segments ih => exact .cons (scans_iff.mpr rfl) ih

/-- The segments of a text up to the first `**`, cut into pieces. -/
def piecesOf (text : String) : List (List Piece) :=
  (leading (segmentsOf (Text.strip text).toList)).map scan

/-- The pattern of a text that is not refused. -/
def patternOf (text : String) : Pattern :=
  ⟨piecesOf text, (segmentsOf (Text.strip text).toList).contains openSegment⟩

theorem accepts_patternOf_iff {text path : String} :
    (patternOf text).expression.accepts path = true ↔
      InLanguage (piecesOf text) ((segmentsOf (Text.strip text).toList).contains openSegment)
        path.toList := by
  rw [accepts_expression_iff]
  simp only [patternOf]

/-- A text is no pattern when it holds white space, a question mark or a number sign. -/
def Forbidden (text : String) : Prop :=
  ∃ c ∈ (Text.strip text).toList, Text.isBlank c = true ∨ c = '?' ∨ c = '#'

/-- A text is no pattern when one of its pieces is a placeholder without a name. -/
def Nameless (text : String) : Prop :=
  ∃ pieces ∈ piecesOf text, Piece.token ['\x7b', '\x7d'] ∈ pieces

section outcomes

open Classical

/-- The outcomes of reading a pattern. -/
theorem read_eq (text : String) :
    Pattern.read text =
      if ∀ c ∈ text.toList, Text.isBlank c = true then .ok none
      else if Forbidden text then .error (.forbidden text)
      else if Nameless text then .error (.emptyPlaceholder text)
      else .ok (some (patternOf text)) := by
  have hblank : (∀ c ∈ text.toList, Text.isBlank c = true) ↔
      (Text.trim Text.isBlank text.toList).isEmpty = true := by
    rw [List.isEmpty_iff, trim_eq_nil]
  have hforbidden : Forbidden text ↔
      (Text.trim Text.isBlank text.toList).any isForbidden = true := by
    simp [Forbidden, strip_toList, isForbidden, or_assoc]
  have hnameless : Nameless text ↔
      (piecesOf text).any (·.contains (.token emptyPlaceholder)) = true := by
    simp [Nameless, emptyPlaceholder]
  simp only [hblank, hforbidden, hnameless, Pattern.read, piecesOf, patternOf, leading,
    strip_toList]

theorem compile_eq (text : String) :
    compile text =
      if ∀ c ∈ text.toList, Text.isBlank c = true then .ok none
      else if Forbidden text then .error (.forbidden text)
      else if Nameless text then .error (.emptyPlaceholder text)
      else .ok (some ⟨Text.strip text, (patternOf text).expression⟩) := by
  rw [compile, read_eq]
  split_ifs <;> rfl

end outcomes

theorem not_forbidden_of_blank {text : String} (h : ∀ c ∈ text.toList, Text.isBlank c = true) :
    ¬ Forbidden text ∧ ¬ Nameless text := by
  have hstrip : (Text.strip text).toList = [] := by rw [strip_toList, trim_eq_nil.mpr h]
  have hpieces : piecesOf text = [[]] := by rw [piecesOf, hstrip]; rfl
  exact ⟨by simp [Forbidden, hstrip], by simp [Nameless, hpieces]⟩

/-- A pattern from its text to its paths.  The text is cut at its slashes into segments, and
these, up to the first `**`, into pieces.  A blank text is no pattern; the text is refused when it
holds white space, a question mark or a number sign, or one of the pieces is a placeholder without
a name; any other text gives a matcher whose stored text can be read, and both match the paths of
the pieces and no others. -/
theorem compile_iff_language (text : String) :
    ∃ segments pieces, Segmented (Text.strip text).toList segments ∧
      List.Forall₂ Scans (leading segments) pieces ∧
      (compileText text = .ok none ↔ ∀ c ∈ text.toList, Text.isBlank c = true) ∧
      ((∃ e, compileText text = .error e) ↔
        (∃ c ∈ (Text.strip text).toList, Text.isBlank c = true ∨ c = '?' ∨ c = '#') ∨
          ∃ ps ∈ pieces, Piece.token ['\x7b', '\x7d'] ∈ ps) ∧
      ∀ stored, compileText text = .ok (some stored) →
        (∃ r, Regex.read stored = some r) ∧
        ∃ m, compile text = .ok (some m) ∧ m.stored = stored ∧ ∀ path : String,
          (m.accepts path = true ↔ InLanguage pieces (segments.contains openSegment) path.toList) ∧
          (storedMatches (.text stored) (.text path) = .ok true ↔
            InLanguage pieces (segments.contains openSegment) path.toList) := by
  refine ⟨segmentsOf (Text.strip text).toList, piecesOf text, segmented_segmentsOf _,
    forall₂_scans _, ?_⟩
  change _ ∧ (_ ↔ Forbidden text ∨ Nameless text) ∧ _
  have hcompile := compile_eq text
  by_cases hblank : ∀ c ∈ text.toList, Text.isBlank c = true
  · rw [if_pos hblank] at hcompile
    obtain ⟨hforbidden, hnameless⟩ := not_forbidden_of_blank hblank
    refine ⟨iff_of_true (by rw [compileText, hcompile]; rfl) hblank,
      ?_, by simp [compileText, hcompile]⟩
    simp [compileText, hcompile, hforbidden, hnameless]
  rw [if_neg hblank] at hcompile
  by_cases hbad : Forbidden text ∨ Nameless text
  · obtain ⟨e, he⟩ : ∃ e, compile text = .error e := by
      rw [hcompile]
      split_ifs with hforbidden hnameless
      · exact ⟨_, rfl⟩
      · exact ⟨_, rfl⟩
      · exact absurd hbad (not_or.mpr ⟨hforbidden, hnameless⟩)
    simp [compileText, he, hblank, hbad]
  · obtain ⟨hforbidden, hnameless⟩ := not_or.mp hbad
    rw [if_neg hforbidden, if_neg hnameless] at hcompile
    refine ⟨by simp [compileText, hcompile, hblank], by simp [compileText, hcompile,
      hbad], fun stored h => ?_⟩
    rw [compileText, hcompile] at h
    obtain rfl := Option.some.inj (Except.ok.inj h)
    refine ⟨⟨_, read_text _⟩, _, hcompile, rfl, fun path => ⟨accepts_patternOf_iff, ?_⟩⟩
    rw [Matcher.stored, storedMatches_text, Except.ok.injEq]
    exact accepts_patternOf_iff

end AccessControl.Path
