import AccessControl.Numeric.Duration
import AccessControl.Proofs.Value.Number
import AccessControl.Value.Display
import Mathlib

/-! # Which characters are shown

Numerals, durations, floating-point numbers and JSON texts are written in the printed characters of
ASCII (`basic_json`).  A quoted text may hold others, but only such as have a printed form
(`isPrintable_quoted`), and so may a value inside another one.  So a character without a printed
form is shown just where it stands in a text that stands for itself (`mem_display_iff`); such are
all the characters that end a line (`isPrintable_of_endsLine`). -/

namespace AccessControl

/-! ### Characters -/

namespace Text

/-- A character of ASCII that has a printed form. -/
def IsBasic (c : Char) : Prop := 0x20 ≤ c.toNat ∧ c.toNat ≤ 0x7E

instance (c : Char) : Decidable (IsBasic c) := inferInstanceAs (Decidable (_ ∧ _))

theorem IsBasic.isPrintable {c : Char} (h : IsBasic c) : isPrintable c = true := by
  obtain ⟨hlow, hhigh⟩ := h
  rw [Text.isPrintable, if_pos (by omega)]
  exact decide_eq_true hlow

/-- The characters at which a text is cut into lines. -/
def lineEnds : List Char :=
  ['\n', '\x0b', '\x0c', '\r', '\x1c', '\x1d', '\x1e', '\u0085', '\u2028', '\u2029']

/-- Does a line end at the character? -/
def EndsLine (c : Char) : Prop := c ∈ lineEnds

instance (c : Char) : Decidable (EndsLine c) := inferInstanceAs (Decidable (_ ∈ _))

theorem isPrintable_of_endsLine {c : Char} (h : EndsLine c) : isPrintable c = false := by
  have hall : lineEnds.all (fun c => !isPrintable c) = true := by decide +kernel
  simpa using List.all_eq_true.mp hall c h

theorem isBasic_of_isAsciiDigit {c : Char} (h : isAsciiDigit c = true) : IsBasic c := by
  simp only [isAsciiDigit, Bool.and_eq_true, decide_eq_true_eq] at h
  unfold IsBasic
  omega

theorem isBasic_hexDigit {n : ℕ} (h : n < 16) : IsBasic (hexDigit n) := by
  interval_cases n <;> decide

theorem isBasic_of_mem_hexDigits {width n : ℕ} {c : Char} (h : c ∈ hexDigits width n) :
    IsBasic c := by
  induction width generalizing n with
  | zero => cases h
  | succ width ih =>
      rw [hexDigits, List.mem_append, List.mem_singleton] at h
      rcases h with h | rfl
      · exact ih h
      · exact isBasic_hexDigit (Nat.mod_lt n (by decide))

/-! ### Texts -/

/-- All characters are printed characters of ASCII. -/
def Basic (cs : List Char) : Prop := ∀ c ∈ cs, IsBasic c

instance (cs : List Char) : Decidable (Basic cs) := List.decidableBAll IsBasic cs

@[simp]
theorem basic_append {cs ds : List Char} : Basic (cs ++ ds) ↔ Basic cs ∧ Basic ds :=
  List.forall_mem_append

@[simp]
theorem basic_cons {c : Char} {cs : List Char} : Basic (c :: cs) ↔ IsBasic c ∧ Basic cs :=
  List.forall_mem_cons

theorem basic_nil : Basic [] := List.forall_mem_nil _

theorem basic_replicate {c : Char} (h : IsBasic c) (n : ℕ) : Basic (List.replicate n c) := by
  intro d hd
  rw [List.eq_of_mem_replicate hd]
  exact h

theorem basic_of_digits {cs : List Char} (h : ∀ c ∈ cs, isAsciiDigit c = true) : Basic cs :=
  fun c hc => isBasic_of_isAsciiDigit (h c hc)

theorem basic_natText (n : ℕ) : Basic (natText n).toList := by
  rw [natText, String.toList_ofList]
  exact basic_of_digits fun c hc => isAsciiDigit_of_mem_toDigits hc

theorem basic_intText (n : ℤ) : Basic (intText n).toList := by
  intro c hc
  rcases mem_intText hc with rfl | hdigit
  · decide
  · exact isBasic_of_isAsciiDigit hdigit

theorem isPrintable_quotedChar {q : Char} (hq : IsBasic q) {c d : Char} (h : d ∈ quotedChar q c) :
    isPrintable d = true := by
  have hescape : ∀ letter width n, IsBasic letter → d ∈ '\\' :: letter :: hexDigits width n →
      isPrintable d = true := by
    intro letter width n hletter hd
    simp only [List.mem_cons] at hd
    rcases hd with rfl | rfl | hd
    · decide
    · exact hletter.isPrintable
    · exact (isBasic_of_mem_hexDigits hd).isPrintable
  have hshort : ∀ letter, IsBasic letter → d ∈ ['\\', letter] → isPrintable d = true :=
    fun letter hletter hd => hescape letter 0 0 hletter hd
  unfold quotedChar at h
  split_ifs at h with hescaped htab hline hreturn hprinted hbyte hunit
  · refine hshort c ?_ h
    rcases hescaped with rfl | rfl
    · exact hq
    · decide
  · exact hshort 't' (by decide) h
  · exact hshort 'n' (by decide) h
  · exact hshort 'r' (by decide) h
  · rw [List.mem_singleton.mp h]
    exact hprinted
  · exact hescape 'x' 2 _ (by decide) h
  · exact hescape 'u' 4 _ (by decide) h
  · exact hescape 'U' 8 _ (by decide) h

/-- Every character of a quoted text has a printed form. -/
theorem isPrintable_quoted (s : String) : ∀ c ∈ (quoted s).toList, isPrintable c = true := by
  have hquote : IsBasic (quoteFor s.toList) := by
    unfold quoteFor
    split <;> decide
  intro c hc
  simp only [quoted, String.toList_ofList, List.mem_append, List.mem_cons, List.mem_flatMap,
    List.not_mem_nil, or_false] at hc
  rcases hc with (rfl | ⟨d, -, hd⟩) | rfl
  · exact hquote.isPrintable
  · exact isPrintable_quotedChar hquote hd
  · exact hquote.isPrintable

end Text

open Text
  (Basic basic_append basic_cons basic_natText basic_intText basic_replicate basic_of_digits)

/-! ### Numbers -/

namespace Duration

theorem basic_twoDigits (n : ℕ) : Basic (twoDigits n).toList := by
  unfold twoDigits
  split
  · rw [String.toList_append, basic_append]
    exact ⟨by decide, basic_natText n⟩
  · exact basic_natText n

theorem basic_padded (width n : ℕ) : Basic (padded width n).toList := by
  rw [padded, String.toList_append, String.toList_ofList, basic_append]
  exact ⟨basic_replicate (by decide) _, basic_natText n⟩

theorem basic_text (d : Duration) : Basic d.text.toList := by
  have hday : ∀ days : ℤ, Basic (if days = 0 then ""
      else Text.intText days ++ (if days.natAbs = 1 then " day, " else " days, ")).toList := by
    intro days
    split
    · decide
    · rw [String.toList_append, basic_append]
      refine ⟨basic_intText days, ?_⟩
      split <;> decide
  have hmicros :
      ∀ micros : ℕ, Basic (if micros = 0 then "" else "." ++ padded 6 micros).toList := by
    intro micros
    split
    · decide
    · rw [String.toList_append, basic_append]
      exact ⟨by decide, basic_padded 6 micros⟩
  have hcolon : Basic ":".toList := by decide
  simp only [text, String.toList_append, basic_append]
  exact ⟨⟨hday _, ⟨⟨⟨basic_natText _, hcolon⟩, basic_twoDigits _⟩, hcolon⟩, basic_twoDigits _⟩,
    hmicros _⟩

end Duration

namespace Double

theorem basic_decimalText (d : Decimal) : Basic (decimalText d) := by
  obtain ⟨whole, fraction, power, htext, hparts⟩ := Value.decimalText_parts d
  have hsign : Basic (Value.signText d.negative) := by
    unfold Value.signText
    split <;> decide
  have hfraction : Basic (Value.fractionText fraction) := by
    cases fraction with
    | nil => exact Text.basic_nil
    | cons c cs => exact basic_cons.mpr ⟨by decide, basic_of_digits hparts.fractionDigits⟩
  have hpower : Basic (Value.powerText power) := by
    cases power with
    | none => exact Text.basic_nil
    | some e =>
        obtain ⟨ds, hexponent, hdigits, -, -⟩ := Value.exponentText_eq e
        rw [Value.powerText, hexponent, basic_cons, basic_cons]
        refine ⟨by decide, ?_, basic_of_digits hdigits⟩
        split <;> decide
  simp only [htext, basic_append]
  exact ⟨hsign, basic_of_digits hparts.wholePart.digits, hfraction, hpower⟩

theorem basic_text (x : Double) : Basic x.text.toList := by
  cases x with
  | nan => decide
  | infinite negative => cases negative <;> decide
  | finite negative m e =>
      rw [text, String.toList_ofList]
      exact basic_decimalText _

end Double

namespace Value

/-- Induction on what a value is made of: the items of a list and the values of the fields of an
object. -/
@[elab_as_elim]
theorem structure_induction {P : Value → Prop} (null : P .null) (bool : ∀ b, P (.bool b))
    (int : ∀ n, P (.int n)) (float : ∀ x, P (.float x)) (text : ∀ s, P (.text s))
    (list : ∀ items : List Value, (∀ v ∈ items, P v) → P (.list items))
    (object : ∀ fields : Fields, (∀ f ∈ fields, P f.2) → P (.object fields)) (v : Value) : P v :=
  @Value.rec P (fun items => ∀ v ∈ items, P v) (fun fields => ∀ f ∈ fields, P f.2) (fun f => P f.2)
    null bool int float text list object
    (List.forall_mem_nil _) (fun _ _ hv hvs => List.forall_mem_cons.mpr ⟨hv, hvs⟩)
    (List.forall_mem_nil _) (fun _ _ hf hfs => List.forall_mem_cons.mpr ⟨hf, hfs⟩)
    (fun _ _ hv => hv) v

/-! ### JSON texts -/

theorem basic_unitEscape (n : ℕ) : Basic (unitEscape n) := by
  simp only [unitEscape, basic_cons]
  exact ⟨by decide, by decide, fun c hc => Text.isBasic_of_mem_hexDigits hc⟩

theorem basic_jsonChar (c : Char) : Basic (jsonChar c) := by
  unfold jsonChar
  split_ifs with hquote hslash hline hreturn htab hback hform hprinted hshort
  · decide
  · decide
  · decide
  · decide
  · decide
  · decide
  · decide
  · exact basic_cons.mpr ⟨hprinted, Text.basic_nil⟩
  · exact basic_unitEscape _
  · exact basic_append.mpr ⟨basic_unitEscape _, basic_unitEscape _⟩

theorem basic_jsonString (s : String) : Basic (jsonString s) := by
  simp only [jsonString, basic_append, basic_cons]
  refine ⟨⟨by decide, fun d hd => ?_⟩, by decide, Text.basic_nil⟩
  obtain ⟨c, -, hc⟩ := List.mem_flatMap.mp hd
  exact basic_jsonChar c d hc

theorem basic_jsonFloat (x : Double) : Basic (jsonFloat x) := by
  cases x with
  | nan => decide
  | infinite negative => cases negative <;> decide
  | finite negative m e => exact Double.basic_text _

theorem basic_jsonItems {items : List Value} (h : ∀ v ∈ items, Basic (json v)) :
    Basic (jsonItems items) := by
  induction items with
  | nil =>
      rw [jsonItems]
      exact Text.basic_nil
  | cons v vs ih =>
      obtain ⟨hv, hvs⟩ := List.forall_mem_cons.mp h
      cases vs with
      | nil =>
          rw [jsonItems]
          exact hv
      | cons w vs =>
          rw [jsonItems, basic_append, basic_cons]
          · exact ⟨hv, by decide, ih hvs⟩
          · simp

theorem basic_jsonFields {fields : Fields} (h : ∀ f ∈ fields, Basic (json f.2)) :
    Basic (jsonFields fields) := by
  induction fields with
  | nil =>
      rw [jsonFields]
      exact Text.basic_nil
  | cons f fs ih =>
      obtain ⟨hf, hfs⟩ := List.forall_mem_cons.mp h
      cases fs with
      | nil =>
          rw [jsonFields, basic_append, basic_cons]
          exact ⟨basic_jsonString f.1, by decide, hf⟩
      | cons g fs =>
          rw [jsonFields, basic_append, basic_cons, basic_append, basic_cons]
          · exact ⟨basic_jsonString f.1, by decide, hf, by decide, ih hfs⟩
          · simp

/-- A JSON text is written in the printed characters of ASCII. -/
theorem basic_json (v : Value) : Basic (json v) := by
  induction v using structure_induction with
  | null => decide
  | bool b => cases b <;> decide
  | int n =>
      rw [json, ← intText_toList]
      exact basic_intText n
  | float x =>
      rw [json]
      exact basic_jsonFloat x
  | text s =>
      rw [json]
      exact basic_jsonString s
  | list items ih =>
      simp only [json, basic_cons, basic_append]
      exact ⟨by decide, basic_jsonItems ih, by decide, Text.basic_nil⟩
  | object fields ih =>
      simp only [json, basic_cons, basic_append]
      exact ⟨by decide, basic_jsonFields ih, by decide, Text.basic_nil⟩

/-! ### Values that are shown -/

theorem isPrintable_of_basic {s : String} (h : Basic s.toList) :
    ∀ c ∈ s.toList, Text.isPrintable c = true :=
  fun c hc => (h c hc).isPrintable

theorem isPrintable_quotedItems {items : List Value}
    (h : ∀ v ∈ items, ∀ c ∈ v.quoted.toList, Text.isPrintable c = true) :
    ∀ c ∈ (quotedItems items).toList, Text.isPrintable c = true := by
  have hcomma := isPrintable_of_basic (s := ", ") (by decide)
  induction items with
  | nil =>
      rw [quotedItems]
      simp
  | cons v vs ih =>
      obtain ⟨hv, hvs⟩ := List.forall_mem_cons.mp h
      cases vs with
      | nil =>
          rw [quotedItems]
          exact hv
      | cons w vs =>
          rw [quotedItems, String.toList_append, String.toList_append]
          · exact List.forall_mem_append.mpr ⟨List.forall_mem_append.mpr ⟨hv, hcomma⟩, ih hvs⟩
          · simp

theorem isPrintable_quotedFields {fields : Fields}
    (h : ∀ f ∈ fields, ∀ c ∈ f.2.quoted.toList, Text.isPrintable c = true) :
    ∀ c ∈ (quotedFields fields).toList, Text.isPrintable c = true := by
  have hcomma := isPrintable_of_basic (s := ", ") (by decide)
  have hcolon := isPrintable_of_basic (s := ": ") (by decide)
  induction fields with
  | nil =>
      rw [quotedFields]
      simp
  | cons f fs ih =>
      obtain ⟨hf, hfs⟩ := List.forall_mem_cons.mp h
      have hname := Text.isPrintable_quoted f.1
      cases fs with
      | nil =>
          rw [quotedFields]
          simp only [String.toList_append, List.forall_mem_append]
          exact ⟨⟨hname, hcolon⟩, hf⟩
      | cons g fs =>
          rw [quotedFields]
          · simp only [String.toList_append, List.forall_mem_append]
            exact ⟨⟨⟨⟨hname, hcolon⟩, hf⟩, hcomma⟩, ih hfs⟩
          · simp

/-- Every character of a value inside another one has a printed form. -/
theorem isPrintable_quoted (v : Value) : ∀ c ∈ v.quoted.toList, Text.isPrintable c = true := by
  induction v using structure_induction with
  | null =>
      rw [quoted]
      exact isPrintable_of_basic (by decide)
  | bool b =>
      cases b <;>
        rw [quoted] <;>
        exact isPrintable_of_basic (by decide)
  | int n =>
      rw [quoted]
      exact isPrintable_of_basic (basic_intText n)
  | float x =>
      rw [quoted]
      exact isPrintable_of_basic (Double.basic_text x)
  | text s =>
      rw [quoted]
      exact Text.isPrintable_quoted s
  | list items ih =>
      rw [quoted]
      simp only [String.toList_append, List.forall_mem_append]
      exact ⟨⟨isPrintable_of_basic (by decide), isPrintable_quotedItems ih⟩,
        isPrintable_of_basic (by decide)⟩
  | object fields ih =>
      rw [quoted]
      simp only [String.toList_append, List.forall_mem_append]
      exact ⟨⟨isPrintable_of_basic (by decide), isPrintable_quotedFields ih⟩,
        isPrintable_of_basic (by decide)⟩

/-- A character without a printed form is shown just where the value is a text that holds it. -/
theorem mem_display_iff {c : Char} (hc : Text.isPrintable c = false) (v : Value) :
    c ∈ v.display.toList ↔ ∃ s, v.text? = some s ∧ c ∈ s.toList := by
  cases v with
  | text s => simp [display, text?]
  | _ =>
      refine iff_of_false ?_ (by simp [text?])
      intro hmem
      rw [isPrintable_quoted _ c hmem] at hc
      cases hc

/-! ### Whole numbers in a value -/

/-- The whole number is the value or stands in it. -/
inductive Holds (n : ℤ) : Value → Prop
  | int : Holds n (.int n)
  | item {items : List Value} {v : Value} (hv : v ∈ items) (h : Holds n v) : Holds n (.list items)
  | field {fields : Fields} {f : String × Value} (hf : f ∈ fields) (h : Holds n f.2) :
      Holds n (.object fields)

theorem anyOverlong_iff (items : List Value) :
    anyOverlong items = true ↔ ∃ v ∈ items, v.isOverlong = true := by
  induction items with
  | nil => simp [anyOverlong]
  | cons v vs ih => simp [anyOverlong, ih]

theorem anyOverlongField_iff (fields : Fields) :
    anyOverlongField fields = true ↔ ∃ f ∈ fields, f.2.isOverlong = true := by
  induction fields with
  | nil => simp [anyOverlongField]
  | cons f fs ih => rw [anyOverlongField, Bool.or_eq_true, ih, List.exists_mem_cons_iff]

/-- A value has no text just when it holds a whole number whose numeral is too long. -/
theorem isOverlong_iff (v : Value) : v.isOverlong = true ↔ ∃ n, v.Holds n ∧ ¬Text.Short n := by
  constructor
  · intro h
    induction v using structure_induction with
    | int n =>
        rw [isOverlong] at h
        exact ⟨n, .int, Text.isOverlong_iff.mp h⟩
    | list items ih =>
        rw [isOverlong, anyOverlong_iff] at h
        obtain ⟨v, hv, hlong⟩ := h
        obtain ⟨n, hn, hshort⟩ := ih v hv hlong
        exact ⟨n, .item hv hn, hshort⟩
    | object fields ih =>
        rw [isOverlong, anyOverlongField_iff] at h
        obtain ⟨f, hf, hlong⟩ := h
        obtain ⟨n, hn, hshort⟩ := ih f hf hlong
        exact ⟨n, .field hf hn, hshort⟩
    | _ => simp [isOverlong] at h
  · rintro ⟨n, hn, hshort⟩
    induction hn with
    | int =>
        rw [isOverlong]
        exact Text.isOverlong_iff.mpr hshort
    | item hv _ ih =>
        rw [isOverlong, anyOverlong_iff]
        exact ⟨_, hv, ih⟩
    | field hf _ ih =>
        rw [isOverlong, anyOverlongField_iff]
        exact ⟨_, hf, ih⟩

end Value
end AccessControl
