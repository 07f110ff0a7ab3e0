import AccessControl.Proofs.Numeric.Rounding
import AccessControl.Proofs.Order
import AccessControl.Proofs.Text.Numeral
import AccessControl.Stores.Context
import Mathlib

/-! # Which store ids a request names

Where the parts of a dotted key lead (`Leads`) and which ids a value names (`Names`) is said here
without reference to the search: parts are names of fields or decimal indices, and an id is named
by a number that is equal to it, by a numeral in a text, or by an item of a list.  While no run of
digits is too long to be read, the search finds in ascending order the ids that are named under
the keys of the sources (`storeIds_named`).  So nothing else of the request counts, and neither
does the order of the keys. -/

namespace AccessControl

/-! ### Runs of digits -/

namespace Text

/-- The characters are a numeral of ASCII digits for the number. -/
structure Denotes (cs : List Char) (n : ℕ) : Prop where
  nonempty : cs ≠ []
  digits : ∀ c ∈ cs, c.isDigit = true
  value : Nat.ofDigitChars 10 cs 0 = n

/-- If the characters are digits, there are not too many of them to be read. -/
def WithinLimit (cs : List Char) : Prop := (∀ c ∈ cs, c.isDigit = true) → cs.length ≤ digitLimit

theorem isAsciiDigit_eq_isDigit (c : Char) : isAsciiDigit c = c.isDigit := by
  rw [Bool.eq_iff_iff, Char.isDigit_iff_toNat]
  simp [isAsciiDigit]

theorem isDigitRun_iff {cs : List Char} :
    isDigitRun cs = true ↔ cs ≠ [] ∧ ∀ c ∈ cs, c.isDigit = true := by
  simp only [isDigitRun, Bool.and_eq_true, Bool.not_eq_true', List.isEmpty_eq_false_iff,
    List.all_eq_true, isAsciiDigit_eq_isDigit]

theorem denotes_iff {cs : List Char} (h : isDigitRun cs = true) {n : ℕ} :
    Denotes cs n ↔ ofDigitRun cs = n := by
  obtain ⟨hne, hdigits⟩ := isDigitRun_iff.mp h
  rw [ofDigitRun_eq]
  constructor
  · intro hn
    exact hn.value
  · intro hn
    exact ⟨hne, hdigits, hn⟩

theorem Denotes.isDigitRun {cs : List Char} {n : ℕ} (h : Denotes cs n) : isDigitRun cs = true :=
  isDigitRun_iff.mpr ⟨h.nonempty, h.digits⟩

theorem readDigitRun_eq {cs : List Char} (hrun : isDigitRun cs = true) (h : WithinLimit cs) :
    readDigitRun cs = .ok (ofDigitRun cs) := by
  rw [readDigitRun, if_neg (Nat.not_lt.mpr (h (isDigitRun_iff.mp hrun).2))]

end Text

/-! ### Whole floats -/

namespace Double

/-- The exact value of a finite number. -/
def exact : Double → Option ℚ
  | .finite negative m e => some ((if negative then -1 else 1) * (m * 2 ^ e))
  | _ => none

theorem eq_quotient_iff {num den : ℕ} (hden : 0 < den) {i : ℤ} :
    (num % den = 0 ∧ num ≠ 0) ∧ i = (num / den : ℕ) ↔ 0 < i ∧ (num : ℚ) = i * den := by
  constructor
  · rintro ⟨⟨hmod, hne⟩, rfl⟩
    obtain ⟨k, rfl⟩ := Nat.dvd_of_mod_eq_zero hmod
    rw [Nat.mul_div_cancel_left k hden]
    refine ⟨by exact_mod_cast Nat.pos_of_ne_zero (right_ne_zero_of_mul hne), ?_⟩
    push_cast
    ring
  · rintro ⟨hpos, hnum⟩
    obtain ⟨k, rfl⟩ := Int.eq_ofNat_of_zero_le hpos.le
    obtain rfl : num = k * den := by exact_mod_cast hnum
    have hk : 0 < k := by exact_mod_cast hpos
    exact ⟨⟨Nat.mul_mod_left k den, (Nat.mul_pos hk hden).ne'⟩, by rw [Nat.mul_div_cancel k hden]⟩

/-- A whole number above zero has its integer part as exact value. -/
theorem mem_truncate_iff {x : Double} {i : ℤ} :
    i ∈ (if x.isWhole && x.isPositive then x.truncate.toList else []) ↔
      0 < i ∧ x.exact = some (i : ℚ) := by
  cases x with
  | nan => simp [isWhole, exact]
  | infinite negative => simp [isWhole, exact]
  | finite negative m e =>
      obtain ⟨hden, hvalue⟩ := ratio_spec m e
      have hden' : ((ratio m e).2 : ℚ) ≠ 0 := by exact_mod_cast hden.ne'
      simp only [exact, ← hvalue, Option.some.injEq]
      cases negative with
      | true =>
          have hle : (if true = true then (-1 : ℚ) else 1) * ((ratio m e).1 / (ratio m e).2) ≤
              0 := by
            rw [if_pos rfl, neg_one_mul, neg_nonpos]
            positivity
          refine iff_of_false (by simp [isPositive]) fun ⟨hpos, hi⟩ => ?_
          rw [hi] at hle
          exact absurd (by exact_mod_cast hle : i ≤ 0) (not_le.mpr hpos)
      | false =>
          simp only [Bool.false_eq_true, if_false, one_mul, div_eq_iff hden', isWhole, isPositive,
            truncate]
          have hzero : m = 0 ↔ (ratio m e).1 = 0 := ratio_fst_eq_zero.symm
          rw [← eq_quotient_iff hden, ne_eq, ← hzero]
          split
          · next hwhole => simpa using fun _ => by simpa using hwhole
          · next hwhole => simpa using fun hmod hm => absurd (by simp [hmod, hm]) hwhole

end Double

/-! ### Dotted keys -/

namespace Stores

/-- The parts of a dotted key. -/
def keyParts (key : String) : List (List Char) := Text.splitOn '.' key.toList

/-- The parts of a key lead from a value to another: through objects by name, and through
lists by decimal index. -/
inductive Leads : Value → List (List Char) → Value → Prop
  | here (v : Value) : Leads v [] v
  | field {fields : Fields} {part : List Char} {parts : List (List Char)} {next v : Value} :
      fields.get? (String.ofList part) = some next → Leads next parts v →
        Leads (.object fields) (part :: parts) v
  | item {items : List Value} {part : List Char} {parts : List (List Char)} {index : ℕ}
      {next v : Value} :
      Text.Denotes part index → items[index]? = some next → Leads next parts v →
        Leads (.list items) (part :: parts) v

/-- A part leads to what stands under it, and from there the others lead on. -/
theorem child_spec (node : Value) {part : List Char} (hpart : Text.WithinLimit part) :
    ∃ found, child node part = .ok found ∧
      ∀ parts v, Leads node (part :: parts) v ↔ ∃ next, found = some next ∧ Leads next parts v := by
  cases node with
  | object fields =>
      refine ⟨_, rfl, fun parts v => ?_⟩
      constructor
      · intro h
        cases h with
        | field hnext h => exact ⟨_, hnext, h⟩
      · rintro ⟨next, hnext, h⟩
        exact .field hnext h
  | list items =>
      by_cases hrun : Text.isDigitRun part = true
      · have hfound : child (.list items) part = .ok items[Text.ofDigitRun part]? := by
          rw [child, if_pos hrun, Text.readDigitRun_eq hrun hpart]
          rfl
        refine ⟨_, hfound, fun parts v => ?_⟩
        constructor
        · intro h
          cases h with
          | item hindex hnext h =>
              rw [(Text.denotes_iff hrun).mp hindex]
              exact ⟨_, hnext, h⟩
        · rintro ⟨next, hnext, h⟩
          exact .item ((Text.denotes_iff hrun).mpr rfl) hnext h
      · refine ⟨none, by rw [child, if_neg hrun], fun parts v => iff_of_false ?_ (by simp)⟩
        intro h
        cases h with
        | item hindex _ _ => exact hrun hindex.isDigitRun
  | _ =>
      refine ⟨none, rfl, fun parts v => iff_of_false ?_ (by simp)⟩
      intro h
      cases h

/-- What is found under a key is where its parts lead; null is found when they lead nowhere. -/
theorem follow_spec {parts : List (List Char)} (hparts : ∀ part ∈ parts, Text.WithinLimit part)
    (node : Value) :
    ∃ found, follow node parts = .ok found ∧
      ((∀ v, Leads node parts v ↔ v = found) ∨ found = .null ∧ ∀ v, ¬Leads node parts v) := by
  induction parts generalizing node with
  | nil =>
      refine ⟨node, rfl, .inl fun v => ?_⟩
      constructor
      · intro h
        cases h
        rfl
      · rintro rfl
        exact .here v
  | cons part parts ih =>
      obtain ⟨hpart, hparts⟩ := List.forall_mem_cons.mp hparts
      obtain ⟨found, hfound, hleads⟩ := child_spec node hpart
      rw [follow, hfound]
      simp only [hleads parts]
      cases found with
      | none => exact ⟨.null, rfl, .inr ⟨rfl, by simp⟩⟩
      | some next => simpa using ih hparts next

/-! ### Ids that a value names -/

/-- The value names the id: by a number above zero that is equal to it, by a numeral between the
commas of a text, or by an item of a list. -/
inductive Names : Value → ℤ → Prop
  | int {i : ℤ} : 0 < i → Names (.int i) i
  | float {x : Double} {i : ℤ} : 0 < i → x.exact = some (i : ℚ) → Names (.float x) i
  | text {s : String} {part : List Char} {n : ℕ} : part ∈ Text.splitOn ',' s.toList →
      Text.Denotes (Text.trim Text.isBlank part) n → 0 < n → Names (.text s) n
  | item {items : List Value} {v : Value} {i : ℤ} : v ∈ items → Names v i → Names (.list items) i

/-- Trimmed text that stands between the commas of a text, in the value or an item of it. -/
inductive HasPart : Value → List Char → Prop
  | text {s : String} {part : List Char} : part ∈ Text.splitOn ',' s.toList →
      HasPart (.text s) (Text.trim Text.isBlank part)
  | item {items : List Value} {v : Value} {part : List Char} : v ∈ items → HasPart v part →
      HasPart (.list items) part

/-- No run of digits in the texts of a value is too long to be read. -/
def Legible (v : Value) : Prop := ∀ part, HasPart v part → Text.WithinLimit part

/-- A search succeeds and finds the ids with a property. -/
def Finds (search : Except Text.NumeralError (List ℤ)) (P : ℤ → Prop) : Prop :=
  ∃ ids, search = .ok ids ∧ ∀ i, i ∈ ids ↔ P i

theorem finds_ok (ids : List ℤ) : Finds (.ok ids) (· ∈ ids) := ⟨ids, rfl, fun _ => Iff.rfl⟩

theorem Finds.congr {search : Except Text.NumeralError (List ℤ)} {P Q : ℤ → Prop}
    (h : Finds search P) (hPQ : ∀ i, P i ↔ Q i) : Finds search Q := by
  obtain ⟨ids, hids, hmem⟩ := h
  exact ⟨ids, hids, fun i => (hmem i).trans (hPQ i)⟩

theorem Finds.append {x y : Except Text.NumeralError (List ℤ)} {P Q : ℤ → Prop} (hx : Finds x P)
    (hy : Finds y Q) :
    Finds (do let first ← x; let rest ← y; return first ++ rest) fun i => P i ∨ Q i := by
  obtain ⟨first, rfl, hfirst⟩ := hx
  obtain ⟨rest, rfl, hrest⟩ := hy
  exact ⟨first ++ rest, rfl, fun i => by rw [List.mem_append, hfirst, hrest]⟩

theorem finds_partId {part : List Char} (h : Text.WithinLimit part) :
    Finds (partId part) fun i => ∃ n : ℕ, Text.Denotes part n ∧ 0 < n ∧ i = n := by
  unfold partId
  split
  · next hrun =>
      rw [Text.readDigitRun_eq hrun h]
      refine (finds_ok _).congr fun i => ?_
      simp only [Text.denotes_iff hrun, exists_eq_left']
      split
      · next hpos =>
          have hpos : 0 < Text.ofDigitRun part := by exact_mod_cast hpos
          simp [hpos]
      · next hpos =>
          have hpos : ¬0 < Text.ofDigitRun part := by exact_mod_cast hpos
          simp [hpos]
  · next hrun =>
      refine (finds_ok []).congr fun i => iff_of_false List.not_mem_nil ?_
      rintro ⟨n, hn, -⟩
      exact hrun hn.isDigitRun

theorem finds_partIds {parts : List (List Char)}
    (h : ∀ part ∈ parts, Text.WithinLimit (Text.trim Text.isBlank part)) :
    Finds (partIds parts) fun i =>
      ∃ part ∈ parts, ∃ n : ℕ, Text.Denotes (Text.trim Text.isBlank part) n ∧ 0 < n ∧ i = n := by
  induction parts with
  | nil => exact (finds_ok []).congr (by simp)
  | cons part parts ih =>
      obtain ⟨hpart, hparts⟩ := List.forall_mem_cons.mp h
      exact ((finds_partId hpart).append (ih hparts)).congr (by simp)

theorem finds_namedIdsOf {items : List Value} (h : ∀ v ∈ items, Finds (namedIds v) (Names v)) :
    Finds (namedIdsOf items) fun i => ∃ v ∈ items, Names v i := by
  induction items with
  | nil =>
      rw [namedIdsOf]
      exact (finds_ok []).congr (by simp)
  | cons v items ih =>
      obtain ⟨hv, hitems⟩ := List.forall_mem_cons.mp h
      rw [namedIdsOf]
      exact (hv.append (ih hitems)).congr (by simp)

/-- The ids that are found in a legible value are those that it names. -/
theorem finds_namedIds : ∀ {v : Value}, Legible v → Finds (namedIds v) (Names v)
  | .int n, _ => by
      rw [namedIds]
      refine (finds_ok _).congr fun i => ?_
      constructor
      · intro hi
        split at hi
        · next hpos =>
            obtain rfl := List.mem_singleton.mp hi
            exact .int hpos
        · cases hi
      · intro hnames
        cases hnames with
        | int hpos => simp [hpos]
  | .float x, _ => by
      rw [namedIds]
      refine (finds_ok _).congr fun i => Double.mem_truncate_iff.trans ?_
      constructor
      · rintro ⟨hpos, hx⟩
        exact .float hpos hx
      · intro hnames
        cases hnames with
        | float hpos hx => exact ⟨hpos, hx⟩
  | .text s, h => by
      rw [namedIds]
      refine (finds_partIds fun part hpart => h _ (.text hpart)).congr fun i => ?_
      constructor
      · rintro ⟨part, hpart, n, hn, hpos, rfl⟩
        exact .text hpart hn hpos
      · intro hnames
        cases hnames with
        | text hpart hn hpos => exact ⟨_, hpart, _, hn, hpos, rfl⟩
  | .list items, h => by
      rw [namedIds]
      have hitems : ∀ v ∈ items, Finds (namedIds v) (Names v) :=
        fun v hv => finds_namedIds fun part hpart => h part (.item hv hpart)
      refine (finds_namedIdsOf hitems).congr fun i => ?_
      constructor
      · rintro ⟨v, hv, hnames⟩
        exact .item hv hnames
      · intro hnames
        cases hnames with
        | item hv hnames => exact ⟨_, hv, hnames⟩
  | .null, _ | .bool _, _ | .object _, _ => by
      rw [namedIds]
      · exact (finds_ok []).congr fun i => iff_of_false List.not_mem_nil nofun
      all_goals simp

/-! ### Keys and buckets -/

/-- The value names the id under the key: the key leads to a value that names it. -/
def NamesUnder (data : Value) (key : String) (i : ℤ) : Prop :=
  ∃ v, Leads data (keyParts key) v ∧ Names v i

/-- The id is named in the context under a key of the sources. -/
def NamedIn (context : Context) (sources : Sources) (i : ℤ) : Prop :=
  ∃ b, ∃ key ∈ sources.keys b, NamesUnder (.object (context.bucket b)) key i

/-- No run of digits that the search meets is too long to be read: neither in a key nor in
what stands under it. -/
structure Readable (context : Context) (sources : Sources) : Prop where
  keys : ∀ b, ∀ key ∈ sources.keys b, ∀ part ∈ keyParts key, Text.WithinLimit part
  values : ∀ b, ∀ key ∈ sources.keys b, ∀ v, Leads (.object (context.bucket b)) (keyParts key) v →
      Legible v

theorem finds_under {data : Value} {key : String}
    (hkey : ∀ part ∈ keyParts key, Text.WithinLimit part)
    (hvalues : ∀ v, Leads data (keyParts key) v → Legible v) :
    Finds (dig data key >>= namedIds) (NamesUnder data key) := by
  obtain ⟨found, hfound, hleads⟩ := follow_spec hkey data
  have hsearch : (dig data key >>= namedIds) = namedIds found := by
    rw [show dig data key = .ok found from hfound]
    rfl
  rw [hsearch]
  rcases hleads with hleads | ⟨rfl, hnone⟩
  · refine (finds_namedIds (hvalues found ((hleads found).mpr rfl))).congr fun i => ?_
    simp [NamesUnder, hleads]
  · -- null is found where the key leads nowhere, and it names nothing
    have hnull : Legible .null := fun part hpart => nomatch hpart
    refine (finds_namedIds hnull).congr fun i => iff_of_false nofun ?_
    rintro ⟨v, hv, -⟩
    exact hnone v hv

theorem finds_idsUnder {data : Fields} {keys : List String}
    (hkeys : ∀ key ∈ keys, ∀ part ∈ keyParts key, Text.WithinLimit part)
    (hvalues : ∀ key ∈ keys, ∀ v, Leads (.object data) (keyParts key) v → Legible v) :
    Finds (idsUnder data keys) fun i => ∃ key ∈ keys, NamesUnder (.object data) key i := by
  induction keys with
  | nil => exact (finds_ok []).congr (by simp)
  | cons key keys ih =>
      obtain ⟨hkey, hkeys⟩ := List.forall_mem_cons.mp hkeys
      obtain ⟨hvalue, hvalues⟩ := List.forall_mem_cons.mp hvalues
      rw [idsUnder, ← bind_assoc]
      exact ((finds_under hkey hvalue).append (ih hkeys hvalues)).congr (by simp)

theorem finds_idsIn {context : Context} {sources : Sources} (h : Readable context sources)
    (buckets : List Bucket) :
    Finds (idsIn context sources buckets) fun i =>
      ∃ b ∈ buckets, ∃ key ∈ sources.keys b, NamesUnder (.object (context.bucket b)) key i := by
  induction buckets with
  | nil => exact (finds_ok []).congr (by simp)
  | cons b buckets ih => exact ((finds_idsUnder (h.keys b) (h.values b)).append ih).congr (by simp)

theorem ascending_storeIds {context : Context} {sources : Sources} (h : Readable context sources) :
    ∃ ids, storeIds context sources = .ok ids ∧ ids.Pairwise (· < ·) ∧ ∀ i, i ∈ ids ↔
      NamedIn context sources i := by
  obtain ⟨ids, hids, hmem⟩ := finds_idsIn h Bucket.all
  refine ⟨ascendingInts ids, by rw [storeIds, hids]; rfl, pairwise_ascending ids, fun i => ?_⟩
  rw [mem_ascendingInts, hmem]
  constructor
  · rintro ⟨b, -, hb⟩
    exact ⟨b, hb⟩
  · rintro ⟨b, hb⟩
    exact ⟨b, by cases b <;> decide, hb⟩

theorem Names.pos {v : Value} {i : ℤ} (h : Names v i) : 1 ≤ i := by
  induction h with
  | int hpos => exact hpos
  | float hpos _ => exact hpos
  | text _ _ hpos => exact_mod_cast hpos
  | item _ _ ih => exact ih

/-- Where the keys of the sources lead in two contexts is the same. -/
def Alike (context context' : Context) (sources : Sources) : Prop :=
  ∀ b, ∀ key ∈ sources.keys b, ∀ v,
    Leads (.object (context'.bucket b)) (keyParts key) v ↔
      Leads (.object (context.bucket b)) (keyParts key) v

section alike

variable {context context' : Context} {sources sources' : Sources}
  (hkeys : ∀ b key, key ∈ sources'.keys b ↔
    key ∈ sources.keys b) (halike : Alike context context' sources)

include hkeys halike

theorem Readable.alike (h : Readable context sources) : Readable context' sources' where
  keys b key hkey := h.keys b key ((hkeys b key).mp hkey)
  values b key hkey v hv :=
    have hkey : key ∈ sources.keys b := (hkeys b key).mp hkey
    h.values b key hkey v ((halike b key hkey v).mp hv)

theorem namedIn_alike {i : ℤ} : NamedIn context' sources' i ↔ NamedIn context sources i := by
  refine exists_congr fun b => exists_congr fun key => ?_
  rw [hkeys]
  refine and_congr_right fun hkey => exists_congr fun v => ?_
  rw [halike b key hkey v]

end alike

/-- While no run of digits is too long to be read, the search succeeds: it finds in ascending
order the ids that are named in the context under a key of the sources, all of them at least 1.
It finds the same ids for keys in another order or number, and in another context that the keys
lead to the same values. -/
theorem storeIds_named {context : Context} {sources : Sources} (h : Readable context sources) :
    ∃ ids, storeIds context sources = .ok ids ∧ ids.Pairwise (· < ·) ∧ (∀ i ∈ ids, 1 ≤ i) ∧
      (∀ i, i ∈ ids ↔
        ∃ b, ∃ key ∈ sources.keys b, ∃ v, Leads (.object (context.bucket b)) (keyParts key) v ∧
          Names v i) ∧
      ∀ context' sources', (∀ b key, key ∈ sources'.keys b ↔ key ∈ sources.keys b) →
        Alike context context' sources →
        storeIds context' sources' = .ok ids := by
  obtain ⟨ids, hids, hsorted, hmem⟩ := ascending_storeIds h
  refine ⟨ids, hids, hsorted, ?_, hmem, ?_⟩
  · intro i hi
    obtain ⟨b, key, hkey, v, hleads, hnames⟩ := (hmem i).mp hi
    exact hnames.pos
  · intro context' sources' hkeys halike
    obtain ⟨ids', hids', hsorted', hmem'⟩ := ascending_storeIds (h.alike hkeys halike)
    have hsame : ids' = ids := by
      refine List.Pairwise.eq_of_mem_iff hsorted' hsorted fun i => ?_
      rw [hmem', hmem, namedIn_alike hkeys halike]
    rw [hids', hsame]

/-- Ids in a text between commas, in a list with a whole float, a boolean and an inner list, and
under an index; keys that are repeated and data beside them do not count. -/
theorem storeIds_named_nested :
    let context (page : ℤ) : Context :=
      { path := [("store_id", .text "7, x,-1, 07")]
        query :=
          [("store_ids", .list [.float (.finite false 1 1), .bool true, .list [.int 9, .int 0]]),
           ("page", .int page)]
        body := [("filters", .list [.null, .object [("id", .int 3)]])] }
    let sources : Sources :=
      { path := ["store_id"], query := ["store_ids"], body := ["filters.1.id", "filters.x"] }
    let repeated : Sources :=
      { path := ["store_id", "store_id"], query := ["store_ids"],
        body := ["filters.x", "filters.1.id"] }
    Readable (context 4) sources ∧ Alike (context 4) (context 5) sources ∧
      storeIds (context 4) sources = .ok [2, 3, 7, 9] ∧
        storeIds (context 5) repeated = .ok [2, 3, 7, 9] := by
  intro context sources repeated
  have hkeys : ∀ b, ∀ key ∈ sources.keys b, ∀ part ∈ keyParts key, Text.WithinLimit part := by
    have hshort : ∀ b, ∀ key ∈ sources.keys b, ∀ part ∈ keyParts key,
        part.length ≤ Text.digitLimit := by
      intro b
      cases b <;> decide +kernel
    exact fun b key hkey part hpart _ => hshort b key hkey part hpart
  have hlegible : ∀ b, ∀ key ∈ sources.keys b, ∀ found, dig (.object ((context 4).bucket b)) key =
      .ok found →
      Legible found := by
    intro b key hkey found hfound part hpart
    cases b with
    | path =>
        obtain rfl := List.mem_singleton.mp hkey
        obtain rfl := Except.ok.inj hfound
        obtain ⟨hpart⟩ := hpart
        have hshort : ∀ part ∈ Text.splitOn ',' "7, x,-1, 07".toList,
            (Text.trim Text.isBlank part).length ≤ Text.digitLimit := by decide +kernel
        exact fun _ => hshort _ hpart
    | query =>
        obtain rfl := List.mem_singleton.mp hkey
        obtain rfl := Except.ok.inj hfound
        cases hpart with
        | item hv hpart =>
            simp only [List.mem_cons, List.not_mem_nil, or_false] at hv
            rcases hv with rfl | rfl | rfl
            · cases hpart
            · cases hpart
            · cases hpart with
              | item hv hpart =>
                  simp only [List.mem_cons, List.not_mem_nil, or_false] at hv
                  rcases hv with rfl | rfl <;> cases hpart
    | body =>
        simp only [sources, Sources.keys, List.mem_cons, List.not_mem_nil, or_false] at hkey
        rcases hkey with rfl | rfl
        · obtain rfl := Except.ok.inj hfound
          cases hpart
        · obtain rfl := Except.ok.inj hfound
          cases hpart
  have h : Readable (context 4) sources := by
    refine ⟨hkeys, fun b key hkey v hv => ?_⟩
    obtain ⟨found, hfound, hleads | ⟨_, hnone⟩⟩ :=
      follow_spec (hkeys b key hkey) (.object ((context 4).bucket b))
    · exact (hleads v).mp hv ▸ hlegible b key hkey found hfound
    · exact absurd hv (hnone v)
  have halike : Alike (context 4) (context 5) sources := by
    intro b key hkey v
    cases b with
    | path | body => exact Iff.rfl
    | query =>
        obtain rfl := List.mem_singleton.mp hkey
        constructor
        · intro h
          cases h with
          | field hnext h => exact .field hnext h
        · intro h
          cases h with
          | field hnext h => exact .field hnext h
  obtain ⟨ids, hids, -, -, -, hsame⟩ := storeIds_named h
  have hfound : storeIds (context 4) sources = .ok [2, 3, 7, 9] := by rfl
  obtain rfl := Except.ok.inj (hids.symm.trans hfound)
  refine ⟨h, halike, hfound, hsame (context 5) repeated (fun b key => ?_) halike⟩
  cases b with
  | path => simp [sources, repeated, Sources.keys]
  | query => exact Iff.rfl
  | body => simp [sources, repeated, Sources.keys, or_comm]

end Stores
end AccessControl
