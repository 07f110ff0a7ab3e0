import AccessControl.Proofs.Text.Pieces
import AccessControl.Proofs.Value.Json
import Mathlib

/-! # The JSON texts of a list of texts

A list of texts has many JSON texts: blanks stand between the tokens or not, and inside a string a
character stands for itself, unless it has to be escaped, or is escaped by a letter, by its number
or by the numbers of its surrogate pair (`SpellsList`).  Each of them is read as the list
(`ofJson_of_spells`), and so is what is left of it when it is trimmed (`SpellsList.strip`), which
begins with a bracket. -/

namespace AccessControl.Value

/-! ### The grammar -/

/-- Characters that may stand between tokens. -/
def IsGap (cs : List Char) : Prop := ∀ c ∈ cs, isJsonBlank c = true

/-- Four hexadecimal digits, in either case, spell a unit. -/
inductive SpellsUnit : ℕ → List Char → Prop
  | digits {a b c d : Char} {i j k l : ℕ} (ha : hexValue a = some i) (hb : hexValue b = some j)
      (hc : hexValue c = some k) (hd : hexValue d = some l) :
      SpellsUnit (((i * 16 + j) * 16 + k) * 16 + l) [a, b, c, d]

/-- The letters after a backslash, and what they stand for. -/
def letterEscapes : List (Char × Char) :=
  [('"', '"'), ('\\', '\\'), ('/', '/'), ('b', '\x08'), ('f', '\x0c'), ('n', '\n'), ('r', '\r'),
   ('t', '\t')]

/-- The spellings of a character inside a string. -/
inductive SpellsChar : Char → List Char → Prop
  | plain {c : Char} (hquote : c ≠ '"') (hslash : c ≠ '\\') (hcontrol : 0x20 ≤ c.toNat) :
      SpellsChar c [c]
  | letter {letter c : Char} (h : (letter, c) ∈ letterEscapes) : SpellsChar c ['\\', letter]
  | unit {c : Char} {ds : List Char} (h : SpellsUnit c.toNat ds) : SpellsChar c ('\\' :: 'u' :: ds)
  | pair {c : Char} {high low : ℕ} {hs ls : List Char} (hhigh : SpellsUnit high hs)
      (hlow : SpellsUnit low ls)
      (hhighRange : 0xD800 ≤ high ∧ high ≤ 0xDBFF) (hlowRange : 0xDC00 ≤ low ∧ low ≤ 0xDFFF)
      (hc : c.toNat = 0x10000 + (high - 0xD800) * 0x400 + (low - 0xDC00)) :
      SpellsChar c ('\\' :: 'u' :: (hs ++ '\\' :: 'u' :: ls))

/-- The spellings of the characters of a string, up to its closing quote. -/
inductive SpellsChars : List Char → List Char → Prop
  | nil : SpellsChars [] []
  | cons {c : Char} {cs ts rest : List Char} (hc : SpellsChar c ts) (hcs : SpellsChars cs rest) :
      SpellsChars (c :: cs) (ts ++ rest)

/-- The spellings of one item or more, with commas between them. -/
inductive SpellsItems : List String → List Char → Prop
  | last {x : String} {before body after : List Char} (hbefore : IsGap before)
      (hx : SpellsChars x.toList body)
      (hafter : IsGap after) : SpellsItems [x] (before ++ '"' :: (body ++ '"' :: after))
  | cons {x : String} {xs : List String} {before body after rest : List Char}
      (hbefore : IsGap before)
      (hx : SpellsChars x.toList body) (hafter : IsGap after) (hxs : SpellsItems xs rest) :
      SpellsItems (x :: xs) (before ++ '"' :: (body ++ '"' :: (after ++ ',' :: rest)))

/-- The spellings of a list between its brackets. -/
inductive SpellsInner : List String → List Char → Prop
  | nil {gap : List Char} (h : IsGap gap) : SpellsInner [] gap
  | items {xs : List String} {inner : List Char} (h : SpellsItems xs inner) : SpellsInner xs inner

/-- The JSON texts of a list of texts. -/
inductive SpellsList : List String → List Char → Prop
  | list {xs : List String} {before inner after : List Char} (hbefore : IsGap before)
      (h : SpellsInner xs inner)
      (hafter : IsGap after) : SpellsList xs (before ++ '[' :: (inner ++ ']' :: after))

/-! ### Strings -/

theorem SpellsUnit.take {n : ℕ} {ds : List Char} (h : SpellsUnit n ds) (rest : List Char) :
    takeUnit (ds ++ rest) = some (n, rest) := by
  cases h with
  | digits ha hb hc hd => simp only [List.cons_append, List.nil_append, takeUnit, ha, hb, hc, hd]

theorem takeEscape_letter {letter c : Char} (h : (letter, c) ∈ letterEscapes) (rest : List Char) :
    takeEscape (letter :: rest) = some (c, rest) := by
  simp only [letterEscapes, List.mem_cons, Prod.mk.injEq, List.not_mem_nil, or_false] at h
  rcases h with ⟨rfl, rfl⟩ | ⟨rfl, rfl⟩ | ⟨rfl, rfl⟩ | ⟨rfl, rfl⟩ | ⟨rfl, rfl⟩ | ⟨rfl, rfl⟩ | ⟨rfl,
    rfl⟩ | ⟨rfl, rfl⟩ <;>
    rfl

theorem takeEscape_unit {c : Char} {ds : List Char} (h : SpellsUnit c.toNat ds) (rest : List Char) :
    takeEscape ('u' :: (ds ++ rest)) = some (c, rest) := by
  have hc := toNat_lt_or_ge c
  rw [takeEscape, h.take]
  dsimp only
  rw [if_neg (by omega), if_neg (by omega), Char.ofNat_toNat]

theorem takeEscape_units {c : Char} {high low : ℕ} {hs ls : List Char} (hhigh : SpellsUnit high hs)
    (hlow : SpellsUnit low ls) (hhighRange : 0xD800 ≤ high ∧ high ≤ 0xDBFF)
    (hlowRange : 0xDC00 ≤ low ∧ low ≤ 0xDFFF)
    (hc : c.toNat = 0x10000 + (high - 0xD800) * 0x400 + (low - 0xDC00)) (rest : List Char) :
    takeEscape ('u' :: (hs ++ '\\' :: 'u' :: (ls ++ rest))) = some (c, rest) := by
  rw [takeEscape, hhigh.take]
  dsimp only
  rw [if_pos hhighRange, takeLowSurrogate, hlow.take]
  dsimp only
  rw [if_pos hlowRange]
  dsimp only
  rw [← hc, Char.ofNat_toNat]

theorem SpellsChar.take {c : Char} {ts : List Char} (h : SpellsChar c ts) (fuel : ℕ)
    (rest : List Char) :
    takeString (fuel + 1) (ts ++ rest) = (takeString fuel rest).map fun (s, after) =>
      (c :: s, after) := by
  have hescape : ∀ {ts : List Char}, takeEscape ts = some (c, rest) →
      takeString (fuel + 1) ('\\' :: ts) = (takeString fuel rest).map fun (s, after) =>
        (c :: s, after) := by
    intro ts hts
    rw [takeString, if_neg (by decide), if_pos rfl, hts]
  cases h with
  | plain hquote hslash hcontrol =>
      rw [List.singleton_append, takeString, if_neg hquote, if_neg hslash, if_neg (by omega)]
  | letter h => exact hescape (takeEscape_letter h rest)
  | unit h => exact hescape (takeEscape_unit h rest)
  | pair hhigh hlow hhighRange hlowRange hc =>
      have hpair := takeEscape_units hhigh hlow hhighRange hlowRange hc rest
      rw [List.cons_append, List.cons_append, List.append_assoc, List.cons_append, List.cons_append]
      exact hescape hpair

theorem SpellsChar.length_pos {c : Char} {ts : List Char} (h : SpellsChar c ts) :
    0 < ts.length := by
  cases h <;> exact Nat.succ_pos _

theorem SpellsChars.length_le {cs ts : List Char} (h : SpellsChars cs ts) :
    cs.length ≤ ts.length := by
  induction h with
  | nil => exact Nat.le_refl 0
  | cons hc _ ih =>
      have := hc.length_pos
      rw [List.length_cons, List.length_append]
      omega

theorem SpellsChars.take {cs ts : List Char} (h : SpellsChars cs ts) {fuel : ℕ}
    (hfuel : cs.length < fuel) (rest : List Char) :
    takeString fuel (ts ++ '"' :: rest) = some (cs, rest) := by
  induction h generalizing fuel with
  | nil =>
      obtain ⟨fuel, rfl⟩ : ∃ k, fuel = k + 1 := ⟨fuel - 1, by simp at hfuel; omega⟩
      rw [List.nil_append, takeString, if_pos rfl]
  | cons hc _ ih =>
      rw [List.length_cons] at hfuel
      obtain ⟨fuel, rfl⟩ : ∃ k, fuel = k + 1 := ⟨fuel - 1, by omega⟩
      rw [List.append_assoc, hc.take, ih (by omega)]
      rfl

theorem takeValue_of_spells {x : String} {body : List Char} (h : SpellsChars x.toList body)
    {fuel : ℕ} (hfuel : 0 < fuel) (rest : List Char) :
    takeValue fuel ('"' :: (body ++ '"' :: rest)) = .ok (.text x, rest) := by
  obtain ⟨fuel, rfl⟩ : ∃ k, fuel = k + 1 := ⟨fuel - 1, by omega⟩
  have hlen := h.length_le
  rw [takeValue, if_pos rfl, h.take (by rw [List.length_append]; omega)]
  dsimp only
  rw [String.ofList_toList]

/-! ### Lists -/

theorem IsGap.skip {gap : List Char} (h : IsGap gap) {c : Char} (hc : isJsonBlank c = false)
    (rest : List Char) :
    skipBlanks (gap ++ c :: rest) = c :: rest := by
  rw [skipBlanks, List.dropWhile_append_of_pos h]
  exact skipBlanks_cons hc rest

theorem SpellsItems.length_le {xs : List String} {cs : List Char} (h : SpellsItems xs cs) :
    xs.length ≤ cs.length := by
  induction h with
  | last hbefore hx hafter =>
      rw [List.length_singleton, List.length_append, List.length_cons]
      omega
  | cons hbefore hx hafter hxs ih =>
      rw [List.length_cons, List.length_append, List.length_cons, List.length_append,
        List.length_cons, List.length_append, List.length_cons]
      omega

/-- The items of a list are read from each of their spellings. -/
theorem SpellsItems.take {xs : List String} {cs : List Char} (h : SpellsItems xs cs) {fuel : ℕ}
    (hfuel : xs.length < fuel) (rest : List Char) :
    takeItems fuel (skipBlanks (cs ++ ']' :: rest)) = .ok (xs.map .text, rest) := by
  induction h generalizing fuel with
  | last hbefore hx hafter =>
      rw [List.length_singleton] at hfuel
      obtain ⟨fuel, rfl⟩ : ∃ k, fuel = k + 1 := ⟨fuel - 1, by omega⟩
      rw [List.append_assoc, List.cons_append, List.append_assoc, List.cons_append,
        hbefore.skip rfl, takeItems, takeValue_of_spells hx (by omega)]
      dsimp only
      rw [hafter.skip rfl]
      rfl
  | @cons x xs before body after text hbefore hx hafter hxs ih =>
      rw [List.length_cons] at hfuel
      obtain ⟨fuel, rfl⟩ : ∃ k, fuel = k + 1 := ⟨fuel - 1, by omega⟩
      rw [List.append_assoc, List.cons_append, List.append_assoc, List.cons_append,
        List.append_assoc, List.cons_append, hbefore.skip rfl, takeItems,
        takeValue_of_spells hx (by omega)]
      dsimp only
      rw [hafter.skip rfl]
      split
      · next heq =>
          obtain rfl := (List.cons.inj heq).2
          rw [ih (by omega)]
          rfl
      · next heq => exact absurd (List.cons.inj heq).1 (by decide)
      · next hcomma _ => exact absurd rfl (hcomma _)

theorem SpellsItems.skip_ne {xs : List String} {cs : List Char} (h : SpellsItems xs cs)
    (rest tail : List Char) :
    skipBlanks (cs ++ rest) ≠ ']' :: tail := by
  have hquote : ∃ more, skipBlanks (cs ++ rest) = '"' :: more := by
    cases h with
    | last hbefore hx hafter =>
        exact ⟨_, by rw [List.append_assoc, List.cons_append, hbefore.skip rfl]⟩
    | cons hbefore hx hafter hxs =>
        exact ⟨_, by rw [List.append_assoc, List.cons_append, hbefore.skip rfl]⟩
  obtain ⟨more, hmore⟩ := hquote
  rw [hmore]
  exact fun heq => absurd (List.cons.inj heq).1 (by decide)

theorem SpellsInner.length_le {xs : List String} {cs : List Char} (h : SpellsInner xs cs) :
    xs.length ≤ cs.length := by
  cases h with
  | nil _ => exact Nat.zero_le _
  | items h => exact h.length_le

theorem SpellsInner.take {xs : List String} {cs : List Char} (h : SpellsInner xs cs) {fuel : ℕ}
    (hfuel : xs.length < fuel) (rest : List Char) :
    takeValue (fuel + 1) ('[' :: (cs ++ ']' :: rest)) = .ok (texts xs, rest) := by
  rw [takeValue, if_neg (by decide), if_pos rfl]
  cases h with
  | nil h =>
      rw [h.skip rfl]
      rfl
  | items h =>
      split
      · next heq => exact absurd heq (h.skip_ne _ _)
      · rw [h.take hfuel]
        rfl

/-- Each JSON text of a list of texts is read as the list. -/
theorem ofJson_of_spells {xs : List String} {text : String} (h : SpellsList xs text.toList) :
    ofJson text = .ok (texts xs) := by
  generalize hcs : text.toList = cs at h
  cases h with
  | @list before inner after hbefore h hafter =>
      have hlen := h.length_le
      have hskip : skipBlanks after = [] := List.dropWhile_eq_nil_iff.mpr hafter
      rw [ofJson, hcs, hbefore.skip rfl,
        h.take (by simp only [List.length_cons, List.length_append]; omega)]
      dsimp only
      rw [hskip]
      rfl

/-! ### Trimmed texts -/

theorem isBlank_of_isJsonBlank {c : Char} (h : isJsonBlank c = true) : Text.isBlank c = true := by
  simp only [isJsonBlank, Bool.or_eq_true, beq_iff_eq] at h
  rcases h with ((rfl | rfl) | rfl) | rfl <;> rfl

theorem isGap_nil : IsGap [] := fun _ h => absurd h List.not_mem_nil

/-- Trimming leaves a JSON text of the same list, which begins with the bracket. -/
theorem SpellsList.strip {xs : List String} {text : String} (h : SpellsList xs text.toList) :
    SpellsList xs (Text.strip text).toList ∧ ∃ rest, (Text.strip text).toList = '[' :: rest := by
  generalize hcs : text.toList = cs at h
  cases h with
  | @list before inner after hbefore h hafter =>
      have hstrip : (Text.strip text).toList = '[' :: (inner ++ [']']) := by
        rw [Text.strip, Text.stripOf, hcs, String.toList_ofList]
        exact Text.trim_between (fun c hc => isBlank_of_isJsonBlank (hbefore c hc))
          (fun c hc => isBlank_of_isJsonBlank (hafter c hc)) rfl rfl inner
      refine ⟨?_, _, hstrip⟩
      rw [hstrip]
      exact .list isGap_nil h isGap_nil

end AccessControl.Value
