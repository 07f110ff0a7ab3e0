import AccessControl.Proofs.Value.Number
import Mathlib

/-! # JSON text is read back

A text is read back from its JSON string, whatever its characters are (`takeString_flatMap`), so a
JSON string determines the text and the place where it ends (`jsonString_append_inj`).  So is every
value that JSON can stand for (`IsJson.readBack`), and not-a-number with them (`Lossless.readBack`).
Of these, values of truth values, numerals and texts, and lists and sorted objects of these, are
their own sorted form, and so are read back from it (`Plain.stable`).  -/

namespace AccessControl

/-! ### Fields -/

namespace Fields

theorem insert_new {fields : Fields} {name : String} (h : name ∉ fields.map Prod.fst)
    (value : Value) :
    fields.insert name value = fields ++ [(name, value)] := by
  induction fields with
  | nil => rfl
  | cons f fields ih =>
      rw [List.map_cons, List.mem_cons, not_or] at h
      rw [insert, if_neg (Ne.symm h.1), ih h.2, List.cons_append]

theorem insertAll_new {fields more : Fields} (h : ((fields ++ more).map Prod.fst).Nodup) :
    fields.insertAll more = fields ++ more := by
  induction more generalizing fields with
  | nil => exact (List.append_nil fields).symm
  | cons f more ih =>
      have hnew : f.1 ∉ fields.map Prod.fst := by
        rw [List.map_append, List.map_cons, List.nodup_middle] at h
        exact fun hmem => (List.nodup_cons.mp h).1 (List.mem_append_left _ hmem)
      have hstep : fields.insertAll (f :: more) = (fields.insert f.1 f.2).insertAll more := rfl
      rw [hstep, insert_new hnew, ih, List.append_assoc, List.singleton_append]
      rwa [List.append_assoc, List.singleton_append]

theorem names_insert {fields : Fields} {name : String} (h : name ∈ fields.map Prod.fst)
    (value : Value) :
    (fields.insert name value).map Prod.fst = fields.map Prod.fst := by
  induction fields with
  | nil => cases h
  | cons f fields ih =>
      rw [insert]
      split
      · rfl
      · next hne =>
          have hrest := (List.mem_cons.mp h).resolve_left (Ne.symm hne)
          rw [List.map_cons, List.map_cons, ih hrest]

theorem nodup_insert {fields : Fields} (h : (fields.map Prod.fst).Nodup) (name : String)
    (value : Value) :
    ((fields.insert name value).map Prod.fst).Nodup := by
  by_cases hname : name ∈ fields.map Prod.fst
  · rwa [names_insert hname]
  · rw [insert_new hname, List.map_append, List.map_singleton, ← List.concat_eq_append]
    exact h.concat hname

theorem nodup_insertAll {fields : Fields} (h : (fields.map Prod.fst).Nodup) (more : Fields) :
    ((fields.insertAll more).map Prod.fst).Nodup := by
  induction more generalizing fields with
  | nil => exact h
  | cons f more ih => exact ih (nodup_insert h f.1 f.2)

/-- Fields of different names that are set come before what was there. -/
theorem get?_insertAll {fields more : Fields} (h : (more.map Prod.fst).Nodup) (name : String) :
    (fields.insertAll more).get? name = (more.get? name).or (fields.get? name) := by
  induction more generalizing fields with
  | nil => rfl
  | cons f more ih =>
      rw [List.map_cons, List.nodup_cons] at h
      have hstep : fields.insertAll (f :: more) = (fields.insert f.1 f.2).insertAll more := rfl
      rw [hstep, ih h.2, get?_insert, get?_cons]
      by_cases hname : name = f.1
      · have hnone : get? more name = none := by
          rw [get?, List.lookup_eq_none_iff]
          intro g hg
          have hne : name ≠ g.1 := fun heq => h.1 (hname ▸ heq ▸ List.mem_map_of_mem hg)
          simpa using hne
        rw [hnone, if_pos hname, if_pos hname, Option.none_or, Option.some_or]
      · rw [if_neg hname, if_neg hname]

theorem ofPairs_eq_self {pairs : List (String × Value)} (h : (pairs.map Prod.fst).Nodup) :
    ofPairs pairs = pairs :=
  insertAll_new h

end Fields

namespace Value

-- Most proofs below rewrite with these equations; here they are made once, before proofs that run
-- side by side ask for them.
attribute [local simp] json jsonItems jsonFields takeValue takeItems takeFields

/-! ### Escapes -/

theorem hexValue_hexDigit {n : ℕ} (h : n < 16) : hexValue (Text.hexDigit n) = some n := by
  interval_cases n <;> decide

theorem takeUnit_hexDigits {n : ℕ} (h : n < 0x10000) (rest : List Char) :
    takeUnit (Text.hexDigits 4 n ++ rest) = some (n, rest) := by
  have hdigits :
      Text.hexDigits 4 n = [Text.hexDigit (n / 16 / 16 / 16 % 16), Text.hexDigit (n / 16 / 16 % 16),
      Text.hexDigit (n / 16 % 16), Text.hexDigit (n % 16)] := rfl
  simp only [hdigits, List.cons_append, List.nil_append, takeUnit,
    hexValue_hexDigit (Nat.mod_lt _ (by decide : 0 < 16)), Option.some.injEq, Prod.mk.injEq,
    and_true]
  omega

theorem toNat_lt_or_ge (c : Char) : c.toNat < 0xD800 ∨ (0xE000 ≤ c.toNat ∧ c.toNat < 0x110000) := by
  have h := c.valid
  simp only [UInt32.isValidChar, Nat.isValidChar] at h
  have : c.val.toNat = c.toNat := rfl
  omega

theorem takeEscape_pair {high low : ℕ} (hhigh : 0xD800 ≤ high ∧ high ≤ 0xDBFF)
    (hlow : 0xDC00 ≤ low ∧ low ≤ 0xDFFF) (rest : List Char) :
    takeEscape ('u' :: Text.hexDigits 4 high ++ (unitEscape low ++ rest)) =
      some (Char.ofNat (0x10000 + (high - 0xD800) * 0x400 + (low - 0xDC00)), rest) := by
  rw [List.cons_append, takeEscape, takeUnit_hexDigits (by omega)]
  dsimp only
  rw [if_pos hhigh, unitEscape, List.cons_append, List.cons_append, takeLowSurrogate,
    takeUnit_hexDigits (by omega)]
  dsimp only
  rw [if_pos hlow]

theorem surrogates {n : ℕ} (hlow : 0x10000 ≤ n) (hhigh : n < 0x110000) :
    ∃ a b, a < 0x400 ∧ b < 0x400 ∧ (n - 0x10000) / 0x400 = a ∧ (n - 0x10000) % 0x400 = b ∧
      0x10000 + a * 0x400 + b = n := by
  refine ⟨(n - 0x10000) / 0x400, (n - 0x10000) % 0x400, ?_, ?_, rfl, rfl, ?_⟩ <;> omega

/-- A character stands for itself, or is escaped. -/
theorem jsonChar_cases (c : Char) : (jsonChar c = [c] ∧ c ≠ '"' ∧ c ≠ '\\' ∧ 0x20 ≤ c.toNat) ∨
    ∃ cs, jsonChar c = '\\' :: cs ∧ ∀ rest, takeEscape (cs ++ rest) = some (c, rest) := by
  unfold jsonChar
  by_cases hquote : c = '"'
  · exact .inr ⟨['"'], if_pos hquote, fun rest => by rw [hquote]; rfl⟩
  rw [if_neg hquote]
  by_cases hslash : c = '\\'
  · exact .inr ⟨['\\'], if_pos hslash, fun rest => by rw [hslash]; rfl⟩
  rw [if_neg hslash]
  by_cases hline : c = '\n'
  · exact .inr ⟨['n'], if_pos hline, fun rest => by rw [hline]; rfl⟩
  rw [if_neg hline]
  by_cases hreturn : c = '\r'
  · exact .inr ⟨['r'], if_pos hreturn, fun rest => by rw [hreturn]; rfl⟩
  rw [if_neg hreturn]
  by_cases htab : c = '\t'
  · exact .inr ⟨['t'], if_pos htab, fun rest => by rw [htab]; rfl⟩
  rw [if_neg htab]
  by_cases hback : c = '\x08'
  · exact .inr ⟨['b'], if_pos hback, fun rest => by rw [hback]; rfl⟩
  rw [if_neg hback]
  by_cases hform : c = '\x0c'
  · exact .inr ⟨['f'], if_pos hform, fun rest => by rw [hform]; rfl⟩
  rw [if_neg hform]
  by_cases hplain : 0x20 ≤ c.toNat ∧ c.toNat ≤ 0x7E
  · exact .inl ⟨if_pos hplain, hquote, hslash, hplain.1⟩
  rw [if_neg hplain]
  have hc := toNat_lt_or_ge c
  by_cases hshort : c.toNat < 0x10000
  · refine .inr ⟨_, if_pos hshort, fun rest => ?_⟩
    rw [List.cons_append, takeEscape, takeUnit_hexDigits hshort]
    dsimp only
    rw [if_neg (by omega), if_neg (by omega), Char.ofNat_toNat]
  -- Any other character is written as a pair of surrogates.
  rw [if_neg hshort]
  obtain ⟨a, b, ha, hb, hdiv, hmod, hsum⟩ := surrogates (n := c.toNat) (by omega) (by omega)
  dsimp only
  rw [hdiv, hmod]
  refine .inr ⟨'u' :: Text.hexDigits 4 (0xD800 + a) ++ unitEscape (0xDC00 + b), rfl, fun rest => ?_⟩
  have hpair := takeEscape_pair (⟨by omega, by omega⟩ : 0xD800 ≤ 0xD800 + a ∧ 0xD800 + a ≤ 0xDBFF)
    (⟨by omega, by omega⟩ : 0xDC00 ≤ 0xDC00 + b ∧ 0xDC00 + b ≤ 0xDFFF) rest
  rwa [Nat.add_sub_cancel_left, Nat.add_sub_cancel_left, hsum, Char.ofNat_toNat,
    ← List.append_assoc] at hpair

theorem takeString_jsonChar (c : Char) (fuel : ℕ) (rest : List Char) :
    takeString (fuel + 1) (jsonChar c ++ rest) = (takeString fuel rest).map fun (s, after) =>
      (c :: s, after) := by
  rcases jsonChar_cases c with ⟨hchar, hquote, hslash, hge⟩ | ⟨cs, hchar, hescape⟩
  · rw [hchar, List.cons_append, List.nil_append, takeString, if_neg hquote, if_neg hslash,
      if_neg (by omega)]
  · rw [hchar, List.cons_append, takeString, if_neg (by decide), if_pos rfl, hescape]

/-! ### Texts -/

theorem length_jsonChar_pos (c : Char) : 0 < (jsonChar c).length := by
  rcases jsonChar_cases c with ⟨hchar, -⟩ | ⟨cs, hchar, -⟩
  · rw [hchar]
    exact Nat.one_pos
  · rw [hchar]
    exact Nat.succ_pos _

/-- A text is read back from its characters in a JSON string, up to the closing quote. -/
theorem takeString_flatMap (cs : List Char) (fuel : ℕ) (hfuel : cs.length < fuel)
    (rest : List Char) :
    takeString fuel (cs.flatMap jsonChar ++ '"' :: rest) = some (cs, rest) := by
  induction cs generalizing fuel with
  | nil =>
      obtain ⟨fuel, rfl⟩ : ∃ k, fuel = k + 1 := ⟨fuel - 1, by simp at hfuel; omega⟩
      rw [List.flatMap_nil, List.nil_append, takeString, if_pos rfl]
  | cons c cs ih =>
      obtain ⟨fuel, rfl⟩ : ∃ k, fuel = k + 1 := ⟨fuel - 1, by simp at hfuel; omega⟩
      rw [List.flatMap_cons, List.append_assoc, takeString_jsonChar, ih fuel (by simpa using hfuel)]
      rfl

theorem length_le_flatMap_jsonChar (cs : List Char) : cs.length ≤ (cs.flatMap jsonChar).length := by
  induction cs with
  | nil => exact Nat.zero_le _
  | cons c cs ih =>
      rw [List.flatMap_cons, List.length_append, List.length_cons]
      have := length_jsonChar_pos c
      omega

theorem jsonString_append (s : String) (rest : List Char) :
    jsonString s ++ rest = '"' :: (s.toList.flatMap jsonChar ++ '"' :: rest) := by
  simp [jsonString]

/-- A JSON string determines the text and the place where it ends. -/
theorem jsonString_append_inj {s t : String} {a b : List Char}
    (h : jsonString s ++ a = jsonString t ++ b) :
    s = t ∧ a = b := by
  rw [jsonString_append, jsonString_append, List.cons.injEq] at h
  have hs := takeString_flatMap s.toList (max s.toList.length t.toList.length + 1) (by omega) a
  have ht := takeString_flatMap t.toList (max s.toList.length t.toList.length + 1) (by omega) b
  rw [h.2, ht, Option.some.injEq, Prod.mk.injEq] at hs
  exact ⟨String.toList_injective hs.1.symm, hs.2.symm⟩

/-! ### Values -/

/-- A value of truth values, numerals that are not too long, texts, and lists and
sorted objects of these. -/
inductive Plain : Value → Prop
  | null : Plain .null
  | bool (b : Bool) : Plain (.bool b)
  | int (n : ℤ) (h : Text.Short n) : Plain (.int n)
  | text (s : String) : Plain (.text s)
  | list (items : List Value) (h : ∀ v ∈ items, Plain v) : Plain (.list items)
  | object (fields : Fields) (hnames : (fields.map Prod.fst).Pairwise (· < ·))
      (h : ∀ f ∈ fields, Plain f.2) :
      Plain (.object fields)

theorem plain_texts (names : List String) : Plain (Value.texts names) := by
  refine .list _ fun v hv => ?_
  obtain ⟨s, -, rfl⟩ := List.mem_map.mp hv
  exact .text s

/-- The first character of a value's text is no blank and no bracket that closes a list. -/
theorem json_eq_cons (v : Value) : ∃ c cs, json v = c :: cs ∧ isJsonBlank c = false ∧ c ≠ ']' := by
  have hnumber : ∀ c : Char, c = '-' ∨ Text.isAsciiDigit c = true → isJsonBlank c = false ∧
      c ≠ ']' := by
    intro c hc
    refine ⟨?_, ?_⟩
    · by_contra hblank
      simp only [Bool.not_eq_false, isJsonBlank, Bool.or_eq_true, beq_iff_eq] at hblank
      rcases hblank with ((rfl | rfl) | rfl) | rfl <;> exact absurd hc (by decide)
    · rintro rfl
      exact absurd hc (by decide)
  cases v with
  | null => exact ⟨'n', "ull".toList, rfl, rfl, by decide⟩
  | bool b =>
      cases b with
      | false => exact ⟨'f', "alse".toList, rfl, rfl, by decide⟩
      | true => exact ⟨'t', "rue".toList, rfl, rfl, by decide⟩
  | int n =>
      obtain ⟨c, cs, hcs, hc⟩ := jsonInt_eq_cons n
      exact ⟨c, cs, by rw [json, hcs], hnumber c hc⟩
  | float x =>
      rw [json]
      cases x with
      | nan => exact ⟨'N', "aN".toList, rfl, rfl, by decide⟩
      | infinite negative =>
          cases negative with
          | false => exact ⟨'I', "nfinity".toList, rfl, rfl, by decide⟩
          | true => exact ⟨'-', "Infinity".toList, rfl, rfl, by decide⟩
      | finite negative m e =>
          obtain ⟨c, cs, hcs, hc⟩ := decimalText_eq_cons (Double.shortest negative m e)
          exact ⟨c, cs, by rw [jsonFloat_finite, hcs], hnumber c hc⟩
  | text s => exact ⟨'"', s.toList.flatMap jsonChar ++ ['"'], rfl, rfl, by decide⟩
  | list items => exact ⟨'[', jsonItems items ++ [']'], rfl, rfl, by decide⟩
  | object fields => exact ⟨'\x7b', jsonFields fields ++ ['\x7d'], rfl, rfl, by decide⟩

theorem skipBlanks_cons {c : Char} (h : isJsonBlank c = false) (cs : List Char) :
    skipBlanks (c :: cs) = c :: cs :=
  List.dropWhile_cons_of_neg (by simp [h])

theorem skipBlanks_json (v : Value) (rest : List Char) :
    skipBlanks (json v ++ rest) = json v ++ rest := by
  obtain ⟨c, cs, hjson, hblank, -⟩ := json_eq_cons v
  rw [hjson, List.cons_append, skipBlanks_cons hblank]

theorem jsonItems_cons_cons (v w : Value) (vs : List Value) :
    jsonItems (v :: w :: vs) = json v ++ ',' :: jsonItems (w :: vs) := by
  rw [jsonItems]
  simp

theorem skipBlanks_jsonItems (v : Value) (vs : List Value) (rest : List Char) :
    skipBlanks (jsonItems (v :: vs) ++ rest) = jsonItems (v :: vs) ++ rest := by
  cases vs with
  | nil => exact skipBlanks_json v rest
  | cons w vs =>
      rw [jsonItems_cons_cons, List.append_assoc]
      exact skipBlanks_json v _

/-- The value is read back up to where it ends, with enough fuel. -/
def ReadBack (v : Value) : Prop :=
  ∀ (fuel : ℕ) (rest : List Char), 2 * (json v).length ≤ fuel → Ends rest →
    takeValue fuel (json v ++ rest) = .ok (v, rest)

theorem readBack_of_succ {v : Value}
    (h : ∀ (fuel : ℕ) (rest : List Char), 2 * (json v).length ≤ fuel + 1 → Ends rest →
      takeValue (fuel + 1) (json v ++ rest) = .ok (v, rest)) : ReadBack v := by
  intro fuel rest hfuel hrest
  cases fuel with
  | zero =>
      obtain ⟨c, cs, hjson, -, -⟩ := json_eq_cons v
      rw [hjson, List.length_cons] at hfuel
      omega
  | succ fuel => exact h fuel rest hfuel hrest

/-- The items of a list are read back when each of them is. -/
theorem takeItems_jsonItems : ∀ {items : List Value} (fuel : ℕ) (rest : List Char), items ≠ [] →
    (∀ v ∈ items, ReadBack v) → 2 * (jsonItems items).length + 1 ≤ fuel →
      takeItems fuel (jsonItems items ++ ']' :: rest) = .ok (items, rest)
  | [], _, _, hne, _, _ => absurd rfl hne
  | [v], fuel, rest, _, ih, hfuel => by
      rw [jsonItems] at hfuel ⊢
      obtain ⟨fuel, rfl⟩ : ∃ k, fuel = k + 1 := ⟨fuel - 1, by omega⟩
      rw [takeItems, ih v List.mem_cons_self fuel _ (by omega) (ends_bracket rest)]
      rfl
  | v :: w :: vs, fuel, rest, _, ih, hfuel => by
      rw [jsonItems_cons_cons] at hfuel ⊢
      rw [List.length_append, List.length_cons] at hfuel
      obtain ⟨fuel, rfl⟩ : ∃ k, fuel = k + 1 := ⟨fuel - 1, by omega⟩
      have hrest := takeItems_jsonItems fuel rest (List.cons_ne_nil w vs)
        (fun u hu => ih u (List.mem_cons_of_mem v hu)) (by omega)
      rw [List.append_assoc, List.cons_append, takeItems,
        ih v List.mem_cons_self fuel _ (by omega) (ends_comma _)]
      dsimp only
      rw [skipBlanks_cons (by decide)]
      have hskip := skipBlanks_jsonItems w vs (']' :: rest)
      split
      · next heq =>
          obtain rfl := (List.cons.inj heq).2
          rw [hskip, hrest]
      · next heq => exact absurd (List.cons.inj heq).1 (by decide)
      · next hcomma _ => exact absurd rfl (hcomma _)

theorem jsonFields_cons_cons (f g : String × Value) (fs : Fields) :
    jsonFields (f :: g :: fs) = jsonString f.1 ++
      ':' :: (json f.2 ++ ',' :: jsonFields (g :: fs)) := by
  rw [jsonFields]
  simp

theorem jsonFields_eq_cons (f : String × Value) (fs : Fields) :
    ∃ cs, jsonFields (f :: fs) = '"' :: cs := by
  cases fs with
  | nil => exact ⟨_, rfl⟩
  | cons g fs => exact ⟨_, jsonFields_cons_cons f g fs⟩

/-- The name of a field is read back, up to its value. -/
theorem takeFields_name (f : String × Value) (fuel : ℕ) (rest : List Char) :
    takeFields (fuel + 1) (jsonString f.1 ++ ':' :: (json f.2 ++ rest)) =
      match takeValue fuel (json f.2 ++ rest) with
      | .error e => .error e
      | .ok (v, rest) =>
        match skipBlanks rest with
        | ',' :: rest =>
          match takeFields fuel (skipBlanks rest) with
          | .ok (fs, after) => .ok ((f.1, v) :: fs, after)
          | .error e => .error e
        | '\x7d' :: rest => .ok ([(f.1, v)], rest)
        | _ => .error .malformed := by
  have hlen := length_le_flatMap_jsonChar f.1.toList
  rw [jsonString_append, takeFields,
    takeString_flatMap _ _ (by rw [List.length_append, List.length_cons]; omega)]
  dsimp only
  rw [skipBlanks_cons (by decide)]
  split
  · next heq =>
      obtain rfl := (List.cons.inj heq).2
      rewrite [skipBlanks_json, String.ofList_toList]
      rfl
  · next hcolon => exact absurd rfl (hcolon _)

/-- The fields of an object are read back when the value of each of them is. -/
theorem takeFields_jsonFields : ∀ {fields : Fields} (fuel : ℕ) (rest : List Char), fields ≠ [] →
    (∀ f ∈ fields, ReadBack f.2) → 2 * (jsonFields fields).length + 1 ≤ fuel →
      takeFields fuel (jsonFields fields ++ '\x7d' :: rest) = .ok (fields, rest)
  | [], _, _, hne, _, _ => absurd rfl hne
  | [f], fuel, rest, _, ih, hfuel => by
      rw [jsonFields, List.length_append, List.length_cons] at hfuel
      obtain ⟨fuel, rfl⟩ : ∃ k, fuel = k + 1 := ⟨fuel - 1, by omega⟩
      rw [jsonFields, List.append_assoc, List.cons_append, takeFields_name,
        ih f List.mem_cons_self fuel _ (by omega) (ends_brace rest)]
      rfl
  | f :: g :: fs, fuel, rest, _, ih, hfuel => by
      rw [jsonFields_cons_cons, List.length_append, List.length_cons, List.length_append,
        List.length_cons] at hfuel
      obtain ⟨fuel, rfl⟩ : ∃ k, fuel = k + 1 := ⟨fuel - 1, by omega⟩
      have hrest := takeFields_jsonFields fuel rest (List.cons_ne_nil g fs)
        (fun e he => ih e (List.mem_cons_of_mem f he)) (by omega)
      rw [jsonFields_cons_cons, List.append_assoc, List.cons_append, List.append_assoc,
        List.cons_append, takeFields_name, ih f List.mem_cons_self fuel _ (by omega) (ends_comma _)]
      dsimp only
      rw [skipBlanks_cons (by decide)]
      obtain ⟨cs, hcs⟩ := jsonFields_eq_cons g fs
      rw [hcs, List.cons_append] at hrest ⊢
      split
      · next heq =>
          obtain rfl := (List.cons.inj heq).2
          rw [skipBlanks_cons (by decide), hrest]
      · next heq => exact absurd (List.cons.inj heq).1 (by decide)
      · next hcomma _ => exact absurd rfl (hcomma _)

theorem readBack_null : ReadBack .null := readBack_of_succ fun _ _ _ _ => rfl

theorem readBack_bool (b : Bool) : ReadBack (.bool b) := by
  cases b <;> exact readBack_of_succ fun _ _ _ _ => rfl

theorem takeValue_number {c : Char} (hc : c = '-' ∨ Text.isAsciiDigit c = true) (fuel : ℕ)
    (cs : List Char) :
    takeValue (fuel + 1) (c :: cs) = takeNumber (c :: cs) := by
  have hother : ∀ d, ¬ (d = '-' ∨ Text.isAsciiDigit d = true) → c ≠ d := fun d hd h => hd (h ▸ hc)
  rw [takeValue, if_neg (hother _ (by decide)), if_neg (hother _ (by decide)),
    if_neg (hother _ (by decide)), if_neg (hother _ (by decide)), if_neg (hother _ (by decide)),
    if_neg (hother _ (by decide)), if_neg (hother _ (by decide)), if_neg (hother _ (by decide))]

theorem readBack_number {v : Value} {c : Char} {cs : List Char} (hjson : json v = c :: cs)
    (hc : c = '-' ∨ Text.isAsciiDigit c = true)
    (hnumber : ∀ rest, Ends rest → takeNumber (json v ++ rest) = .ok (v, rest)) : ReadBack v := by
  refine readBack_of_succ fun fuel rest _ hrest => ?_
  have hread := hnumber rest hrest
  rw [hjson, List.cons_append] at hread ⊢
  rw [takeValue_number hc, hread]

theorem readBack_int {n : ℤ} (hn : Text.Short n) : ReadBack (.int n) := by
  obtain ⟨c, cs, hcs, hc⟩ := jsonInt_eq_cons n
  exact readBack_number hcs hc fun _ hrest => takeNumber_jsonInt hn hrest

theorem readBack_float {x : Double} (hx : x.Canonical) : ReadBack (.float x) := by
  cases x with
  | nan => exact readBack_of_succ fun _ _ _ _ => rfl
  | infinite negative =>
      cases negative with
      | false => exact readBack_of_succ fun _ _ _ _ => rfl
      | true => exact readBack_number rfl (.inl rfl) fun rest _ => takeNumber_minusInfinity rest
  | finite negative m e =>
      obtain ⟨c, cs, hcs, hc⟩ := decimalText_eq_cons (Double.shortest negative m e)
      exact readBack_number ((jsonFloat_finite negative m e).trans hcs) hc fun _ hrest =>
        takeNumber_jsonFloat hx hrest

theorem readBack_text (s : String) : ReadBack (.text s) := by
  refine readBack_of_succ fun fuel rest _ _ => ?_
  have hlen := length_le_flatMap_jsonChar s.toList
  rw [json, jsonString_append, takeValue, if_pos rfl,
    takeString_flatMap _ _ (by rw [List.length_append, List.length_cons]; omega)]
  dsimp only
  rw [String.ofList_toList]

theorem readBack_list {items : List Value} (hback : ∀ v ∈ items, ReadBack v) :
    ReadBack (.list items) := by
  refine readBack_of_succ fun fuel rest hfuel _ => ?_
  rw [json] at hfuel ⊢
  rw [List.cons_append, takeValue, if_neg (by decide), if_pos rfl, List.append_assoc,
    List.singleton_append]
  cases items with
  | nil => rfl
  | cons v vs =>
      rw [List.length_cons, List.length_append] at hfuel
      have hitems := takeItems_jsonItems fuel rest (List.cons_ne_nil v vs) hback
        (by simp only [List.length_singleton] at hfuel; omega)
      rw [skipBlanks_jsonItems]
      split
      · next heq =>
          -- No item begins with the bracket that ends a list.
          obtain ⟨c, cs, hjson, -, hc⟩ := json_eq_cons v
          exfalso
          cases vs with
          | nil =>
              rw [jsonItems, hjson] at heq
              exact hc (List.cons.inj heq).1
          | cons w vs =>
              rw [jsonItems_cons_cons, hjson] at heq
              exact hc (List.cons.inj heq).1
      · rw [hitems]

/-- An object whose names are different keeps all its fields. -/
theorem readBack_object {fields : Fields} (hnames : (fields.map Prod.fst).Nodup)
    (hback : ∀ f ∈ fields, ReadBack f.2) : ReadBack (.object fields) := by
  refine readBack_of_succ fun fuel rest hfuel _ => ?_
  rw [json] at hfuel ⊢
  rw [List.cons_append, takeValue, if_neg (by decide), if_neg (by decide), if_pos rfl,
    List.append_assoc, List.singleton_append]
  cases fields with
  | nil => rfl
  | cons f fs =>
      rw [List.length_cons, List.length_append] at hfuel
      have hfields := takeFields_jsonFields fuel rest (List.cons_ne_nil f fs) hback
        (by simp only [List.length_singleton] at hfuel; omega)
      obtain ⟨cs, hcs⟩ := jsonFields_eq_cons f fs
      rw [hcs, List.cons_append] at hfields ⊢
      rw [skipBlanks_cons (by decide)]
      split
      · next heq => exact absurd (List.cons.inj heq).1 (by decide)
      · rw [hfields]
        dsimp only
        rw [Fields.ofPairs_eq_self hnames]

/-- A value that a JSON text stands for: its numerals are not too long, its floating-point numbers
are in their stored form and are numbers, and the names of an object are different. -/
inductive IsJson : Value → Prop
  | null : IsJson .null
  | bool (b : Bool) : IsJson (.bool b)
  | int (n : ℤ) (h : Text.Short n) : IsJson (.int n)
  | float (x : Double) (h : x.Canonical) (hnan : x ≠ .nan) : IsJson (.float x)
  | text (s : String) : IsJson (.text s)
  | list (items : List Value) (h : ∀ v ∈ items, IsJson v) : IsJson (.list items)
  | object (fields : Fields) (hnames : (fields.map Prod.fst).Nodup) (h : ∀ f ∈ fields, IsJson f.2) :
      IsJson (.object fields)

/-- A value that a JSON text keeps as it is.  Not-a-number has a name in such a
text, so it is kept too. -/
inductive Lossless : Value → Prop
  | null : Lossless .null
  | bool (b : Bool) : Lossless (.bool b)
  | int (n : ℤ) (h : Text.Short n) : Lossless (.int n)
  | float (x : Double) (h : x.Canonical) : Lossless (.float x)
  | text (s : String) : Lossless (.text s)
  | list (items : List Value) (h : ∀ v ∈ items, Lossless v) : Lossless (.list items)
  | object (fields : Fields) (hnames : (fields.map Prod.fst).Nodup)
      (h : ∀ f ∈ fields, Lossless f.2) :
      Lossless (.object fields)

theorem Lossless.readBack {v : Value} (h : Lossless v) : ReadBack v := by
  induction h with
  | null => exact readBack_null
  | bool b => exact readBack_bool b
  | int n hn => exact readBack_int hn
  | float x hx => exact readBack_float hx
  | text s => exact readBack_text s
  | list items _ ih => exact readBack_list ih
  | object fields hnames _ ih => exact readBack_object hnames ih

theorem IsJson.lossless {v : Value} (h : IsJson v) : Lossless v := by
  induction h with
  | null => exact .null
  | bool b => exact .bool b
  | int n hn => exact .int n hn
  | float x hx _ => exact .float x hx
  | text s => exact .text s
  | list items _ ih => exact .list items ih
  | object fields hnames _ ih => exact .object fields hnames ih

/-- Every value that JSON can stand for is read back. -/
theorem IsJson.readBack {v : Value} (h : IsJson v) : ReadBack v := h.lossless.readBack

theorem ReadBack.ofJson_toJson {v : Value} (h : ReadBack v) : ofJson v.toJson = .ok v := by
  have hread := h (2 * (json v).length + 2) [] (by omega) trivial
  have hskip := skipBlanks_json v []
  rw [List.append_nil] at hread hskip
  rw [ofJson, toJson, String.toList_ofList]
  rw [hskip, hread]
  rfl

theorem Plain.isJson {v : Value} (h : Plain v) : IsJson v := by
  induction h with
  | null => exact .null
  | bool b => exact .bool b
  | int n hn => exact .int n hn
  | text s => exact .text s
  | list items _ ih => exact .list items ih
  | object fields hnames _ ih => exact .object fields (hnames.imp fun hlt => ne_of_lt hlt) ih

theorem insertField_of_lt {f : String × Value} {fs : Fields} (h : ∀ g ∈ fs, f.1 < g.1) :
    insertField f fs = f :: fs := by
  cases fs with
  | nil => rfl
  | cons g fs => exact if_pos (le_of_lt (h g List.mem_cons_self))

theorem sortedItems_eq_self {items : List Value} (h : ∀ v ∈ items, v.sorted = v) :
    sortedItems items = items := by
  induction items with
  | nil => rfl
  | cons v items ih =>
      rw [sortedItems, h v List.mem_cons_self, ih fun w hw => h w (List.mem_cons_of_mem v hw)]

theorem sortedFields_eq_self {fields : Fields} (hnames : (fields.map Prod.fst).Pairwise (· < ·))
    (h : ∀ f ∈ fields, f.2.sorted = f.2) : sortedFields fields = fields := by
  induction fields with
  | nil => rfl
  | cons f fields ih =>
      rw [List.map_cons, List.pairwise_cons] at hnames
      rw [sortedFields, h f List.mem_cons_self,
        ih hnames.2 fun g hg => h g (List.mem_cons_of_mem f hg)]
      exact insertField_of_lt fun g hg => hnames.1 g.1 (List.mem_map_of_mem hg)

theorem Plain.sorted_eq {v : Value} (h : Plain v) : v.sorted = v := by
  induction h with
  | list items _ ih => rw [sorted, sortedItems_eq_self ih]
  | object fields hnames _ ih => rw [sorted, sortedFields_eq_self hnames ih]
  | _ => rfl

/-- A value whose JSON text is read back as the value. -/
def Stable (v : Value) : Prop := ofJson v.toSortedJson = .ok v

theorem Stable.read {v : Value} (h : v.Stable) : ofJson v.toSortedJson = .ok v := h

/-- A value whose fields are sorted is read back from its sorted form. -/
theorem IsJson.stable {v : Value} (h : IsJson v) (hsorted : v.sorted = v) : v.Stable := by
  rw [Stable, toSortedJson, hsorted]
  exact h.readBack.ofJson_toJson

theorem Plain.stable {v : Value} (h : Plain v) : v.Stable := h.isJson.stable h.sorted_eq

theorem toSortedJson_int (n : ℤ) : (Value.int n).toSortedJson = Text.intText n := by
  rw [← String.toList_inj, intText_toList, toSortedJson, toJson, String.toList_ofList]
  rfl

end Value
end AccessControl
