import AccessControl.Proofs.Numeric.Rounding
import AccessControl.Proofs.Text.Numeral
import AccessControl.Value.Json
import Mathlib

/-! # Numbers in JSON text are read back

A number is read up to where it ends: a numeral that is not too long (`takeNumber_jsonInt`), and the
text of a floating-point number.  Whichever way its digits are written, `decimalText_parts` cuts the
text into a whole part, a fraction and a power that together have the magnitude of the decimal, and
those are what is read (`takeNumber_decimalText`). -/

namespace AccessControl.Value

theorem intText_toList (n : ℤ) : (Text.intText n).toList = jsonInt n := Text.intText_toList n

/-! ### Where a number ends -/

/-- No text of a number goes on with the character. -/
def EndsNumber (c : Char) : Prop := Text.isAsciiDigit c = false ∧ c ≠ '.' ∧ c ≠ 'e' ∧ c ≠ 'E'

/-- What follows a number ends it. -/
def Ends : List Char → Prop
  | [] => True
  | c :: _ => EndsNumber c

theorem ends_comma (rest : List Char) : Ends (',' :: rest) :=
  ⟨by decide, by decide, by decide, by decide⟩

theorem ends_bracket (rest : List Char) : Ends (']' :: rest) :=
  ⟨by decide, by decide, by decide, by decide⟩

theorem ends_brace (rest : List Char) : Ends ('\x7d' :: rest) :=
  ⟨by decide, by decide, by decide, by decide⟩

theorem Ends.head {rest : List Char} (h : Ends rest) : ∀ c ∈ rest.head?, EndsNumber c := by
  cases rest with
  | nil => simp
  | cons d ds =>
      rintro c ⟨⟩
      exact h

/-! ### Parts of a number -/

/-- A run of digits that stands before the point: it is not empty, and a zero stands there alone. -/
structure WholePart (ds : List Char) : Prop where
  digits : ∀ c ∈ ds, Text.isAsciiDigit c = true
  nonempty : ds ≠ []
  zero : ∀ rest, ds = '0' :: rest → rest = []

theorem wholePart_toDigits (n : ℕ) : WholePart (Nat.toDigits 10 n) := by
  refine ⟨fun c hc => Text.isAsciiDigit_of_mem_toDigits hc, Nat.toDigits_ne_nil, fun rest h => ?_⟩
  by_cases hn : n = 0
  · rw [hn, Nat.toDigits_zero] at h
    exact (List.cons.inj h).2.symm
  · exact absurd h (Text.toDigits_head_ne_zero n (Nat.pos_of_ne_zero hn) rest)

theorem spanDigits_append {ds rest : List Char} (hds : ∀ c ∈ ds, Text.isAsciiDigit c = true)
    (hrest : ∀ c ∈ rest.head?, Text.isAsciiDigit c = false) :
    spanDigits (ds ++ rest) = (ds, rest) := by
  have hstop : rest.takeWhile Text.isAsciiDigit = [] ∧ rest.dropWhile Text.isAsciiDigit = rest := by
    cases rest with
    | nil => exact ⟨rfl, rfl⟩
    | cons c cs =>
        have hc : ¬ Text.isAsciiDigit c = true := by rw [hrest c rfl]; decide
        exact ⟨List.takeWhile_cons_of_neg hc, List.dropWhile_cons_of_neg hc⟩
  rw [spanDigits, List.takeWhile_append_of_pos hds, List.dropWhile_append_of_pos hds, hstop.1,
    hstop.2, List.append_nil]

theorem WholePart.take {ds rest : List Char} (h : WholePart ds)
    (hrest : ∀ c ∈ rest.head?, Text.isAsciiDigit c = false) :
    takeWhole (ds ++ rest) = (ds, rest) := by
  cases hds : ds with
  | nil => exact absurd hds h.nonempty
  | cons c cs =>
      have hspan := spanDigits_append h.digits hrest
      rw [hds, List.cons_append] at hspan
      rw [List.cons_append]
      unfold takeWhole
      split
      · next heq =>
          obtain ⟨rfl, rfl⟩ := List.cons.inj heq
          rw [h.zero cs hds, List.nil_append]
      · exact hspan

/-- A point with the digits after it, if there are any. -/
def fractionText : List Char → List Char
  | [] => []
  | d :: ds => '.' :: d :: ds

/-- A mark with the exponent after it, if there is one. -/
def powerText : Option ℤ → List Char
  | none => []
  | some e => 'e' :: Double.exponentText e

theorem takeFraction_fractionText {ds rest : List Char} (hds : ∀ c ∈ ds, Text.isAsciiDigit c = true)
    (hrest : ∀ c ∈ rest.head?, Text.isAsciiDigit c = false ∧ c ≠ '.') :
    takeFraction (fractionText ds ++ rest) = (if ds = [] then none else some ds, rest) := by
  cases ds with
  | nil =>
      rw [fractionText, List.nil_append, if_pos rfl]
      unfold takeFraction
      split
      · exact absurd rfl (hrest '.' rfl).2
      · rfl
  | cons d ds =>
      have hspan := spanDigits_append hds fun c hc => (hrest c hc).1
      rw [fractionText, List.cons_append, takeFraction, hspan, if_neg (List.cons_ne_nil d ds)]
      rfl

theorem takePower_ends {rest : List Char} (h : Ends rest) : takePower rest = (none, rest) := by
  cases rest with
  | nil => rfl
  | cons c cs =>
      have hc : ¬ (c = 'e' ∨ c = 'E') := by
        rintro (hc | hc)
        · exact h.2.2.1 hc
        · exact h.2.2.2 hc
      simp only [takePower, hc, if_false]

theorem exponentText_eq (e : ℤ) :
    ∃ ds : List Char, Double.exponentText e = (if e < 0 then '-' else '+') :: ds ∧
    (∀ c ∈ ds, Text.isAsciiDigit c = true) ∧ ds ≠ [] ∧ Text.ofDigitRun ds = e.natAbs := by
  have hdigits : ∀ c ∈ Nat.toDigits 10 e.natAbs, Text.isAsciiDigit c = true :=
    fun c hc => Text.isAsciiDigit_of_mem_toDigits hc
  refine ⟨_, rfl, ?_⟩
  split
  · refine ⟨List.forall_mem_cons.mpr ⟨by decide, hdigits⟩, List.cons_ne_nil _ _, ?_⟩
    exact (Text.ofDigitRun_zeros_append 1 _).trans (Text.ofDigitRun_toDigits _)
  · exact ⟨hdigits, Nat.toDigits_ne_nil, Text.ofDigitRun_toDigits _⟩

theorem takePower_powerText (power : Option ℤ) {rest : List Char} (hrest : Ends rest) :
    takePower (powerText power ++ rest) = (power, rest) := by
  cases power with
  | none => exact takePower_ends hrest
  | some e =>
      obtain ⟨ds, htext, hdigits, hne, hvalue⟩ := exponentText_eq e
      have hspan := spanDigits_append hdigits fun c hc => (hrest.head c hc).1
      have hsign : Text.takeSign ((if e < 0 then '-' else '+') :: (ds ++ rest)) =
          (decide (e < 0), ds ++ rest) := by
        split
        · next hneg => simp [Text.takeSign, hneg]
        · next hneg => simp [Text.takeSign, hneg]
      rw [powerText, htext, List.cons_append, List.cons_append, takePower, if_pos (.inl rfl), hsign]
      dsimp only
      rw [hspan]
      dsimp only
      rw [if_neg (by simpa using hne), hvalue]
      congr 2
      split
      · next hneg =>
          have : e < 0 := of_decide_eq_true hneg
          omega
      · next hneg =>
          have : ¬ e < 0 := fun h => hneg (decide_eq_true h)
          omega

/-! ### Whole numbers -/

theorem jsonInt_eq_cons (n : ℤ) :
    ∃ c cs, jsonInt n = c :: cs ∧ (c = '-' ∨ Text.isAsciiDigit c = true) := by
  cases h : jsonInt n with
  | nil =>
      unfold jsonInt at h
      split at h
      · cases h
      · exact absurd h Nat.toDigits_ne_nil
  | cons c cs =>
      refine ⟨c, cs, rfl, Text.mem_intText (n := n) ?_⟩
      rw [intText_toList, h]
      exact List.mem_cons_self

theorem takeFraction_ends {rest : List Char} (h : Ends rest) : takeFraction rest = (none, rest) :=
  takeFraction_fractionText (List.forall_mem_nil _) fun c hc => ⟨(h.head c hc).1, (h.head c hc).2.1⟩

/-- A numeral is read back up to where it ends. -/
theorem takeNumber_jsonInt {n : ℤ} (hn : Text.Short n) {rest : List Char} (hrest : Ends rest) :
    takeNumber (jsonInt n ++ rest) = .ok (.int n, rest) := by
  have hlen := Text.length_toDigits_le_iff.mpr hn
  have hempty : (Nat.toDigits 10 n.natAbs).isEmpty = false := by simp
  have hvalue := Text.ofDigitRun_toDigits n.natAbs
  have hwhole := (wholePart_toDigits n.natAbs).take fun c hc => (hrest.head c hc).1
  unfold takeNumber jsonInt
  by_cases hneg : n < 0
  · simp only [hneg, if_true, List.cons_append, hwhole, hempty, Bool.false_eq_true, if_false,
      takeFraction_ends hrest, takePower_ends hrest, Option.isNone_none, Bool.and_self,
      Nat.not_lt.mpr hlen, hvalue]
    congr 4
    omega
  · have hsign : ∀ cs, Nat.toDigits 10 n.natAbs ++ rest ≠ '-' :: cs := by
      intro cs h
      cases hds : Nat.toDigits 10 n.natAbs with
      | nil => exact Nat.toDigits_ne_nil hds
      | cons d ds =>
          rw [hds, List.cons_append] at h
          exact Text.not_minus_mem_toDigits ((List.cons.inj h).1 ▸ hds)
    simp only [hneg, if_false, hwhole, hempty, Bool.false_eq_true, takeFraction_ends hrest,
      takePower_ends hrest, Option.isNone_none, Bool.and_self, if_true, Nat.not_lt.mpr hlen, hvalue]
    congr 4
    omega

/-! ### Floating-point numbers -/

/-- The sign of a number. -/
def signText (negative : Bool) : List Char := if negative then ['-'] else []

/-- A number with a fraction or a power is read by its parts. -/
theorem takeNumber_parts (negative : Bool) {whole fraction : List Char} (power : Option ℤ)
    {rest : List Char} (hwhole : WholePart whole)
    (hfraction : ∀ c ∈ fraction, Text.isAsciiDigit c = true) (hfloat : fraction ≠ [] ∨ power ≠ none)
    (hrest : Ends rest) :
    takeNumber
      (signText negative ++ (whole ++ (fractionText fraction ++ (powerText power ++ rest)))) =
      .ok (.float
        (Decimal.mk negative (Text.ofDigitRun (whole ++ fraction))
          (power.getD 0 - fraction.length)).toDouble,
        rest) := by
  have hpowerText : ∀ c ∈ (powerText power ++ rest).head?, Text.isAsciiDigit c = false ∧
      c ≠ '.' := by
    cases power with
    | none => exact fun c hc => ⟨(hrest.head c hc).1, (hrest.head c hc).2.1⟩
    | some e =>
        rintro c ⟨⟩
        exact ⟨by decide, by decide⟩
  have hfractionText : ∀ c ∈ (fractionText fraction ++ (powerText power ++ rest)).head?,
      Text.isAsciiDigit c = false := by
    cases fraction with
    | nil => exact fun c hc => (hpowerText c hc).1
    | cons d ds =>
        rintro c ⟨⟩
        decide
  have htakeWhole := hwhole.take hfractionText
  have htakeFraction := takeFraction_fractionText hfraction hpowerText
  have htakePower := takePower_powerText power hrest
  have hempty : whole.isEmpty = false := by simpa using hwhole.nonempty
  have hsign : ∀ cs, whole ++ (fractionText fraction ++ (powerText power ++ rest)) ≠ '-' :: cs := by
    intro cs h
    cases hcs : whole with
    | nil => exact hwhole.nonempty hcs
    | cons c tail =>
        rw [hcs, List.cons_append] at h
        have hdigit := hwhole.digits c (hcs ▸ List.mem_cons_self)
        rw [(List.cons.inj h).1] at hdigit
        exact absurd hdigit (by decide)
  have hkind : ((if fraction = [] then none else some fraction).isNone && power.isNone) =
      false := by
    rcases hfloat with h | h
    · rw [if_neg h]
      rfl
    · rw [Option.isNone_eq_false_iff.mpr (Option.isSome_iff_ne_none.mpr h), Bool.and_false]
  have hdigits : (if fraction = [] then none else some fraction).getD [] = fraction := by
    split
    · next h => exact h.symm
    · rfl
  unfold takeNumber signText
  cases negative with
  | true =>
      simp only [if_true, List.cons_append, List.nil_append, htakeWhole, hempty, Bool.false_eq_true,
        if_false, htakeFraction, htakePower, hkind, hdigits]
  | false =>
      simp only [Bool.false_eq_true, if_false, List.nil_append, htakeWhole, hempty, htakeFraction,
        htakePower, hkind, hdigits]

/-- Parts of a number that together have the magnitude of a decimal. -/
structure PartsOf (d : Decimal) (whole fraction : List Char) (power : Option ℤ) : Prop where
  wholePart : WholePart whole
  fractionDigits : ∀ c ∈ fraction, Text.isAsciiDigit c = true
  float : fraction ≠ [] ∨ power ≠ none
  magnitude :
      (Text.ofDigitRun (whole ++ fraction) : ℚ) * 10 ^ (power.getD 0 - fraction.length) =
      d.magnitude

theorem isAsciiDigit_zeros {k : ℕ} {c : Char} (h : c ∈ Double.zeros k) :
    Text.isAsciiDigit c = true := by
  rw [List.eq_of_mem_replicate h]
  decide

theorem fractionText_of_ne_nil {ds : List Char} (h : ds ≠ []) : fractionText ds = '.' :: ds := by
  cases ds with
  | nil => exact absurd rfl h
  | cons d ds => rfl

theorem wholePart_of_head {ds : List Char} (hdigits : ∀ c ∈ ds, Text.isAsciiDigit c = true)
    (hne : ds ≠ []) (hhead : ds.head? ≠ some '0') : WholePart ds :=
  ⟨hdigits, hne, fun _ h => absurd (congrArg List.head? h) hhead⟩

theorem isAsciiDigit_zero : ∀ c ∈ ['0'], Text.isAsciiDigit c = true := by
  intro c hc
  rw [List.mem_singleton.mp hc]
  decide

theorem wholePart_zero : WholePart ['0'] :=
  ⟨isAsciiDigit_zero, List.cons_ne_nil _ _, fun _ h => (List.cons.inj h).2.symm⟩

section Digits

/-! The digits of a decimal above zero, as its text is made of them. -/

variable {d : Decimal} {ds : List Char} (hdigits : ∀ c ∈ ds, Text.isAsciiDigit c = true)
  (hne : ds ≠ [])
  (hvalue : Text.ofDigitRun ds = d.digits)
include hdigits hne hvalue

theorem partsOf_after {k : ℕ} (hk : d.exponent + ds.length = -(k : ℤ)) :
    PartsOf d ['0'] (Double.zeros k ++ ds) none := by
  refine ⟨wholePart_zero, fun c hc => ?_, .inl (by simp [hne]), ?_⟩
  · exact (List.mem_append.mp hc).elim isAsciiDigit_zeros (hdigits c)
  · have hrun : Text.ofDigitRun (['0'] ++ (Double.zeros k ++ ds)) = d.digits :=
      (Text.ofDigitRun_zeros_append (k + 1) ds).trans hvalue
    have hexponent : (0 : ℤ) - ((Double.zeros k ++ ds).length : ℕ) = d.exponent := by
      rw [Double.zeros, List.length_append, List.length_replicate]
      omega
    rw [hrun, Option.getD_none, hexponent, Decimal.magnitude]

variable (hhead : ds.head? ≠ some '0')
include hhead

theorem partsOf_before {k : ℕ} (hk : d.exponent = k) :
    PartsOf d (ds ++ Double.zeros k) ['0'] none := by
  refine ⟨?_, isAsciiDigit_zero, .inl (List.cons_ne_nil _ _), ?_⟩
  · refine wholePart_of_head (fun c hc => ?_) (by simp [hne])
      (by rwa [List.head?_append_of_ne_nil _ hne])
    exact (List.mem_append.mp hc).elim (hdigits c) isAsciiDigit_zeros
  · have hrun : Text.ofDigitRun (ds ++ Double.zeros k ++ ['0']) = d.digits * 10 ^ (k + 1) := by
      rw [← hvalue, ← Text.ofDigitRun_append_zeros, List.replicate_succ', List.append_assoc]
      rfl
    rw [hrun, Option.getD_none, Decimal.magnitude, hk]
    push_cast
    rw [pow_succ, ← mul_assoc, zero_sub, List.length_singleton, Nat.cast_one, zpow_neg_one,
      mul_inv_cancel_right₀ (by decide), zpow_natCast]

theorem partsOf_between {k : ℕ} (hk : d.exponent + ds.length = k) (hpos : 0 < k)
    (hlt : k < ds.length) :
    PartsOf d (ds.take k) (ds.drop k) none := by
  have hwhole : WholePart (ds.take k) :=
    wholePart_of_head (fun c hc => hdigits c (List.mem_of_mem_take hc)) (by simp [hne]; omega)
      (by rwa [List.head?_take, if_neg (by omega)])
  have hexponent : (0 : ℤ) - ((ds.drop k).length : ℕ) = d.exponent := by
    rw [List.length_drop]
    omega
  refine ⟨hwhole, fun c hc => hdigits c (List.mem_of_mem_drop hc), .inl (by simpa using hlt), ?_⟩
  rw [List.take_append_drop, hvalue, Option.getD_none, hexponent, Decimal.magnitude]

theorem positional_parts : ∃ whole fraction,
    Double.positional ds (d.exponent + ds.length) = whole ++ fractionText fraction ∧
      PartsOf d whole fraction none := by
  unfold Double.positional
  split
  · next hpoint =>
      obtain ⟨k, hk⟩ : ∃ k : ℕ, d.exponent + ds.length = -(k : ℤ) :=
        ⟨(-(d.exponent + ds.length)).toNat, by omega⟩
      have hfraction : Double.zeros k ++ ds ≠ [] := by simp [hne]
      rw [hk, neg_neg, Int.toNat_natCast]
      refine ⟨['0'], Double.zeros k ++ ds, ?_, partsOf_after hdigits hne hvalue hk⟩
      rw [fractionText_of_ne_nil hfraction]
      rfl
  · split
    · next hpoint hlong =>
        obtain ⟨k, hk⟩ : ∃ k : ℕ, d.exponent = k := ⟨d.exponent.toNat, by omega⟩
        have hzeros : (d.exponent + ds.length).toNat - ds.length = k := by omega
        rw [hzeros]
        exact ⟨ds ++ Double.zeros k, ['0'], rfl, partsOf_before hdigits hne hvalue hhead hk⟩
    · next hpoint hlong =>
        obtain ⟨k, hk⟩ : ∃ k : ℕ, d.exponent + ds.length = k :=
          ⟨(d.exponent + ds.length).toNat, by omega⟩
        rw [hk, Int.toNat_natCast] at hlong ⊢
        have hfraction : ds.drop k ≠ [] := by simpa using hlong
        refine ⟨ds.take k, ds.drop k, by rw [fractionText_of_ne_nil hfraction], ?_⟩
        exact partsOf_between hdigits hne hvalue hhead hk (by omega) (not_le.mp hlong)

theorem scientific_parts : ∃ whole fraction power,
    Double.scientific ds (d.exponent + ds.length) = whole ++
      (fractionText fraction ++ powerText power) ∧
      PartsOf d whole fraction power := by
  cases ds with
  | nil => exact absurd rfl hne
  | cons c cs =>
      obtain ⟨hfirst, hrest⟩ := List.forall_mem_cons.mp hdigits
      have hwhole : WholePart [c] :=
        wholePart_of_head (by simpa using hfirst) (List.cons_ne_nil _ _) hhead
      refine ⟨[c], cs, some (d.exponent + (c :: cs).length - 1), ?_, hwhole, hrest,
        .inr (Option.some_ne_none _), ?_⟩
      · cases cs with
        | nil => rfl
        | cons b bs => rfl
      · have hexponent :
            d.exponent + ((c :: cs).length : ℕ) - 1 - (cs.length : ℕ) = d.exponent := by
          rw [List.length_cons]
          omega
        rw [List.singleton_append, hvalue, Option.getD_some, hexponent, Decimal.magnitude]

end Digits

/-- The text of a decimal has a sign and parts of its magnitude. -/
theorem decimalText_parts (d : Decimal) : ∃ whole fraction power,
    Double.decimalText d = signText d.negative ++
      (whole ++ (fractionText fraction ++ powerText power)) ∧
      PartsOf d whole fraction power := by
  obtain ⟨negative, digits, exponent⟩ := d
  by_cases hd : digits = 0
  · subst hd
    refine ⟨['0'], ['0'], none, ?_, wholePart_zero, isAsciiDigit_zero, .inl (List.cons_ne_nil _ _),
      ?_⟩
    · unfold Double.decimalText
      simp only [if_true, Nat.toDigits_zero]
      rfl
    · rw [Decimal.magnitude_eq_zero.mpr rfl]
      exact mul_eq_zero_of_left (Nat.cast_eq_zero.mpr (Text.ofDigitRun_toDigits 0)) _
  · have hdigits : ∀ c ∈ Nat.toDigits 10 digits, Text.isAsciiDigit c = true :=
      fun c hc => Text.isAsciiDigit_of_mem_toDigits hc
    have hhead : (Nat.toDigits 10 digits).head? ≠ some '0' := fun h =>
      Text.toDigits_head_ne_zero digits (Nat.pos_of_ne_zero hd) _ (List.eq_cons_of_mem_head? h)
    have hvalue : Text.ofDigitRun (Nat.toDigits 10 digits) = digits :=
      Text.ofDigitRun_toDigits digits
    obtain ⟨whole, fraction, hpositional, hparts⟩ :=
      positional_parts (d := ⟨negative, digits, exponent⟩) hdigits Nat.toDigits_ne_nil hvalue hhead
    obtain ⟨whole', fraction', power', hscientific, hparts'⟩ :=
      scientific_parts (d := ⟨negative, digits, exponent⟩) hdigits Nat.toDigits_ne_nil hvalue hhead
    unfold Double.decimalText
    simp only [hd, if_false, hpositional, hscientific]
    by_cases hpoint : -4 < exponent + ((Nat.toDigits 10 digits).length : ℤ) ∧
        exponent + ((Nat.toDigits 10 digits).length : ℤ) ≤ 16
    · rw [if_pos hpoint]
      exact ⟨whole, fraction, none, by rw [powerText, List.append_nil, signText], hparts⟩
    · rw [if_neg hpoint]
      exact ⟨whole', fraction', power', by rw [signText], hparts'⟩

/-- The text of a decimal is read as the double nearest to it. -/
theorem takeNumber_decimalText (d : Decimal) {rest : List Char} (hrest : Ends rest) :
    takeNumber (Double.decimalText d ++ rest) = .ok (.float d.toDouble, rest) := by
  obtain ⟨whole, fraction, power, htext, hparts⟩ := decimalText_parts d
  have hread :=
    takeNumber_parts d.negative power hparts.wholePart hparts.fractionDigits hparts.float hrest
  have hdouble :
      (Decimal.mk d.negative (Text.ofDigitRun (whole ++ fraction))
        (power.getD 0 - fraction.length)).toDouble =
      d.toDouble := Decimal.toDouble_congr rfl hparts.magnitude
  rw [htext, List.append_assoc, List.append_assoc, List.append_assoc, hread, hdouble]

theorem decimalText_eq_cons (d : Decimal) :
    ∃ c cs, Double.decimalText d = c :: cs ∧ (c = '-' ∨ Text.isAsciiDigit c = true) := by
  obtain ⟨whole, fraction, power, htext, hparts⟩ := decimalText_parts d
  rw [htext, signText]
  cases d.negative with
  | true => exact ⟨'-', _, rfl, .inl rfl⟩
  | false =>
      cases hwhole : whole with
      | nil => exact absurd hwhole hparts.wholePart.nonempty
      | cons c cs =>
          exact ⟨c, _, rfl, .inr (hparts.wholePart.digits c (hwhole ▸ List.mem_cons_self))⟩

theorem jsonFloat_finite (negative : Bool) (m : ℕ) (e : ℤ) :
    jsonFloat (.finite negative m e) = Double.decimalText (Double.shortest negative m e) := by
  simp [jsonFloat, Double.text]

theorem takeNumber_jsonFloat {negative : Bool} {m : ℕ} {e : ℤ}
    (h : (Double.finite negative m e).Canonical) {rest : List Char} (hrest : Ends rest) :
    takeNumber (jsonFloat (.finite negative m e) ++ rest) = .ok (.float (.finite negative m e),
      rest) := by
  rw [jsonFloat_finite, takeNumber_decimalText _ hrest, Double.toDouble_shortest h]

theorem takeNumber_minusInfinity (rest : List Char) :
    takeNumber (jsonFloat (.infinite true) ++ rest) = .ok (.float (.infinite true), rest) := by
  rfl

end AccessControl.Value
