import AccessControl.Proofs.Rule.Restating
import AccessControl.Proofs.Value.Spelling
import AccessControl.Settings.Read
import Mathlib

/-! # The forms of a list of names

A list of names can be given as a list, as a JSON text or as a text with commas.  All three forms
are read as the same names (`readList_forms`): those of the list, trimmed, without blank ones, and
each once where it first stands.  The text with commas is cut after it is trimmed, which does not
show, since its pieces are trimmed too (`cleanList_split_strip`). -/

namespace AccessControl.Settings

open Value (SpellsList SpellsChars)

/-! ### Names -/

theorem cleanList_eq (xs : List String) :
    cleanList xs = ((xs.map Text.strip).filter (· != "")).eraseDups :=
  distinct_eq_eraseDups _

theorem cleanList_cleanList (xs : List String) : cleanList (cleanList xs) = cleanList xs :=
  RuleText.names_names xs

theorem readList_texts (absent xs : List String) :
    readList absent (Value.texts xs) = .ok (cleanList xs) := by
  have hdisplay : (xs.map Value.text).map Value.display = xs := by
    rw [List.map_map]
    exact List.map_id xs
  rw [Value.texts, readList, hdisplay]

/-! ### JSON texts -/

theorem readList_of_spells (absent : List String) {xs : List String} {text : String}
    (h : SpellsList xs text.toList) :
    readList absent (.text text) = .ok (cleanList xs) := by
  obtain ⟨hstrip, rest, hrest⟩ := h.strip
  have hbracket : (Text.strip text).startsWith "[" = true := by
    rw [String.startsWith_string_iff, hrest]
    exact ⟨rest, rfl⟩
  have hlist := readList_texts absent xs
  rw [Value.texts, readList] at hlist
  rw [readList, if_pos hbracket, readJsonList, Value.ofJson_of_spells hstrip]
  exact hlist

/-! ### Texts with commas -/

theorem cleanList_congr {xs ys : List String} (h : xs.map Text.strip = ys.map Text.strip) :
    cleanList xs = cleanList ys := by
  rw [cleanList, cleanList, h]

/-- What stands at the ends of a text stands at the ends of its pieces. -/
theorem cleanList_split_strip (text : String) :
    cleanList (Text.split ',' (Text.strip text)) = cleanList (Text.split ',' text) := by
  have hpieces : ∀ s : String, (Text.split ',' s).map Text.strip =
      ((Text.splitOn ',' s.toList).map (Text.trim Text.isBlank)).map String.ofList := by
    intro s
    rw [Text.split, List.map_map, List.map_map]
    exact List.map_congr_left fun piece _ => by
      rw [Function.comp_apply, Function.comp_apply, Text.strip, Text.stripOf, String.toList_ofList]
  apply cleanList_congr
  rw [hpieces, hpieces, Path.strip_toList, Text.map_trim_splitOn rfl]

/-- The pieces of joined names are the names; no names are joined to a blank piece. -/
theorem cleanList_split_intercalate {xs : List String} (hfree : ∀ x ∈ xs, ',' ∉ x.toList) :
    cleanList (Text.split ',' (",".intercalate xs)) = cleanList xs := by
  rcases List.eq_nil_or_concat xs with rfl | ⟨front, last, hxs⟩
  · rfl
  have hne : xs.map String.toList ≠ [] := by
    rw [hxs, List.concat_eq_append, List.map_append]
    exact List.append_ne_nil_of_right_ne_nil _ (List.cons_ne_nil _ _)
  have hpieces : Text.splitOn ',' (",".intercalate xs).toList = xs.map String.toList := by
    rw [String.toList_intercalate]
    exact Text.splitOn_intercalate hne (List.forall_mem_map.mpr hfree)
  have hsplit : Text.split ',' (",".intercalate xs) = xs := by
    rw [Text.split, hpieces, List.map_map]
    exact (List.map_congr_left fun x _ => String.ofList_toList).trans (List.map_id xs)
  rw [hsplit]

theorem readList_intercalate (absent : List String) {xs : List String}
    (hfree : ∀ x ∈ xs, ',' ∉ x.toList)
    (hbracket : (Text.strip (",".intercalate xs)).startsWith "[" = false) :
    readList absent (.text (",".intercalate xs)) = .ok (cleanList xs) := by
  rw [readList, if_neg (by rw [hbracket]; exact Bool.false_ne_true), cleanList_split_strip,
    cleanList_split_intercalate hfree]

/-! ### All forms -/

/-- A list, what is read from it, its JSON texts and, where it has no commas and does not look like
JSON, its text with commas are read as the same names. -/
theorem readList_forms (absent xs : List String) :
    let names := ((xs.map Text.strip).filter (· != "")).eraseDups
    readList absent (Value.texts xs) = .ok names ∧ readList absent (Value.texts names) = .ok names ∧
      (∀ text : String, SpellsList xs text.toList → readList absent (.text text) = .ok names) ∧
      ((∀ x ∈ xs, ',' ∉ x.toList) → (Text.strip (",".intercalate xs)).startsWith "[" = false →
        readList absent (.text (",".intercalate xs)) = .ok names) := by
  intro names
  have hnames : cleanList xs = names := cleanList_eq xs
  refine ⟨?_, ?_, fun text htext => ?_, fun hfree hbracket => ?_⟩
  · rw [readList_texts, hnames]
  · rw [← hnames, readList_texts, cleanList_cleanList]
  · rw [readList_of_spells absent htext, hnames]
  · rw [readList_intercalate absent hfree hbracket, hnames]

/-- One name, with a blank in front, an escape and repeats, in a JSON text and in a text with
commas. -/
theorem readList_forms_repeated :
    SpellsList [" a", "", "a"] "[\" \\u0061\",\t\"\" , \"a\"]".toList ∧
      readList [] (.text "[\" \\u0061\",\t\"\" , \"a\"]") = .ok ["a"] ∧
        readList [] (.text " a,,a") = .ok ["a"] := by
  have hunit : Value.SpellsUnit 0x61 ['0', '0', '6', '1'] :=
    @Value.SpellsUnit.digits '0' '0' '6' '1' 0 0 6 1 rfl rfl rfl rfl
  have hescaped : SpellsChars " a".toList [' ', '\\', 'u', '0', '0', '6', '1'] :=
    .cons (.plain (by decide) (by decide) (by decide)) (.cons (.unit (c := 'a') hunit) .nil)
  have hplain : SpellsChars "a".toList ['a'] :=
    .cons (.plain (by decide) (by decide) (by decide)) .nil
  have hempty : SpellsChars "".toList [] := .nil
  have htab : Value.IsGap ['\t'] := by simp [Value.IsGap, Value.isJsonBlank]
  have hblank : Value.IsGap [' '] := by simp [Value.IsGap, Value.isJsonBlank]
  have hitems : Value.SpellsItems [" a", "", "a"] "\" \\u0061\",\t\"\" , \"a\"".toList :=
    .cons Value.isGap_nil hescaped Value.isGap_nil
      (.cons htab hempty hblank (.last hblank hplain Value.isGap_nil))
  have htext : SpellsList [" a", "", "a"] "[\" \\u0061\",\t\"\" , \"a\"]".toList :=
    .list Value.isGap_nil (.items hitems) Value.isGap_nil
  have hnames : (([" a", "", "a"].map Text.strip).filter (· != "")).eraseDups = ["a"] := by decide
  have hbracket : (Text.strip (",".intercalate [" a", "", "a"])).startsWith "[" = false :=
    Bool.eq_false_iff.mpr fun h => absurd (String.startsWith_string_iff.mp h) (by decide)
  obtain ⟨-, -, hjson, hcommas⟩ := readList_forms [] [" a", "", "a"]
  rw [hnames] at hjson hcommas
  exact ⟨htext, hjson _ htext, hcommas (by decide) hbracket⟩

end AccessControl.Settings
