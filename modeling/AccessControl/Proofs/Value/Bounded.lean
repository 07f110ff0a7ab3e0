import AccessControl.Proofs.Numeric.Ordering
import AccessControl.Proofs.Rule.Sound
import AccessControl.Proofs.Text.Numeral
import AccessControl.Value.Json
import Mathlib

/-! # Numbers that are read are short

A JSON text denotes no number with more digits than a numeral may have: a whole number is refused
when it is longer, and a floating-point number is not that great (`Decimal.short_truncate`).  So
what is read is bounded (`bounded_ofJson`). -/

namespace AccessControl

/-! ### Floating-point numbers -/

namespace Double

theorem natAbs_truncate {negative : Bool} {m : ℕ} {e z : ℤ}
    (h : (finite negative m e).truncate = some z) :
    z.natAbs = (ratio m e).1 / (ratio m e).2 := by
  have hz :
      (if negative then -(((ratio m e).1 / (ratio m e).2 : ℕ) : ℤ)
        else ((ratio m e).1 / (ratio m e).2 : ℕ)) = z :=
    Option.some.inj h
  rw [← hz]
  cases negative with
  | true => exact (Int.natAbs_neg _).trans (Int.natAbs_natCast _)
  | false => exact Int.natAbs_natCast _

/-- A number that is made of a mantissa is that mantissa on the grid, unless it is infinite. -/
theorem truncate_ofMantissa {negative : Bool} {m : ℕ} {e z : ℤ}
    (h : (ofMantissa negative m e).truncate = some z) :
    e ≤ maxExponent ∧ z.natAbs ≤ if 0 ≤ e then m * 2 ^ e.toNat else m / 2 ^ (-e).toNat := by
  unfold ofMantissa at h
  by_cases hfull : m = Nat.pow 2 precision
  · -- The next power of two has half the mantissa on a grid twice as coarse.
    simp only [if_pos hfull] at h
    split at h
    · cases h
    · next he =>
        refine ⟨by omega, ?_⟩
        have hm : m = 2 ^ 52 * 2 := hfull.trans (by decide)
        rw [natAbs_truncate h, hm]
        unfold ratio
        by_cases hpos : 0 ≤ e
        · rw [if_pos (by omega), if_pos hpos, show (e + 1).toNat = e.toNat + 1 by omega]
          exact le_of_eq (by rw [Nat.div_one, Nat.pow_eq, Nat.pow_eq, pow_succ', mul_assoc]; rfl)
        · rw [if_neg hpos]
          by_cases hone : e = -1
          · subst hone
            decide
          · rw [if_neg (by omega), show (-e).toNat = (-(e + 1)).toNat + 1 by omega,
              pow_succ 2 (-(e + 1)).toNat, Nat.mul_div_mul_right _ _ (by decide)]
            exact le_rfl
  · simp only [if_neg hfull] at h
    split at h
    · cases h
    · refine ⟨by omega, ?_⟩
      rw [natAbs_truncate h]
      unfold ratio
      split
      · exact le_of_eq (Nat.div_one _)
      · exact le_rfl

/-- A quotient is rounded by no more than the coarsest grid. -/
theorem truncate_ofRatio {negative : Bool} {num den : ℕ} (hden : 0 < den) {z : ℤ}
    (h : (ofRatio negative num den).truncate = some z) :
    z.natAbs ≤ num / den + 2 ^ maxExponent.toNat := by
  unfold ofRatio at h
  split at h
  · exact (natAbs_truncate h).le.trans
      (by rw [ratio_fst_eq_zero.mpr rfl, Nat.zero_div]; exact Nat.zero_le _)
  · generalize gridExponent num den = e at h
    change (ofMantissa negative (divRoundEven (scaleRatio num den e).1 (scaleRatio num den e).2)
      e).truncate = some z at h
    obtain ⟨hmax, hle⟩ := truncate_ofMantissa h
    refine hle.trans ?_
    unfold scaleRatio
    by_cases hpos : 0 ≤ e
    · have hscale : (2 : ℕ) ^ e.toNat ≤ 2 ^ maxExponent.toNat :=
        Nat.pow_le_pow_right (by decide) (by omega)
      rw [if_pos hpos, if_pos hpos]
      calc divRoundEven num (den * 2 ^ e.toNat) * 2 ^ e.toNat
          ≤ (num / (den * 2 ^ e.toNat) + 1) * 2 ^ e.toNat :=
        Nat.mul_le_mul_right _ (divRoundEven_le _ _)
        _ = num / den / 2 ^ e.toNat * 2 ^ e.toNat + 2 ^ e.toNat := by
          rw [← Nat.div_div_eq_div_mul, Nat.add_mul, one_mul]
        _ ≤ num / den + 2 ^ maxExponent.toNat := Nat.add_le_add (Nat.div_mul_le_self _ _) hscale
    · have hpow : 0 < 2 ^ (-e).toNat := Nat.pow_pos (by decide)
      have hround : divRoundEven (num * 2 ^ (-e).toNat) den ≤ (num / den + 1) * 2 ^ (-e).toNat := by
        refine (divRoundEven_le _ _).trans (Nat.succ_le_of_lt ?_)
        rw [Nat.div_lt_iff_lt_mul hden]
        calc num * 2 ^ (-e).toNat < (num / den + 1) * den * 2 ^ (-e).toNat :=
              Nat.mul_lt_mul_of_pos_right ((Nat.div_lt_iff_lt_mul hden).mp (Nat.lt_succ_self _))
                hpow
          _ = (num / den + 1) * 2 ^ (-e).toNat * den := by rw [mul_right_comm]
      rw [if_neg hpos, if_neg hpos]
      calc divRoundEven (num * 2 ^ (-e).toNat) den / 2 ^ (-e).toNat
          ≤ (num / den + 1) * 2 ^ (-e).toNat / 2 ^ (-e).toNat := Nat.div_le_div_right hround
        _ = num / den + 1 := Nat.mul_div_cancel _ hpow
        _ ≤ num / den + 2 ^ maxExponent.toNat := Nat.add_le_add_left Nat.one_le_two_pow _

end Double

theorem Decimal.pow_add_pow_lt {j k l : ℕ} (hj : j < l) (hk : k < l) : 10 ^ j + 2 ^ k < 10 ^ l := by
  have hpos : 0 < 10 ^ (l - 1) := Nat.pow_pos (by decide)
  calc 10 ^ j + 2 ^ k ≤ 10 ^ (l - 1) + 10 ^ (l - 1) :=
        Nat.add_le_add (Nat.pow_le_pow_right (by decide) (by omega))
          ((Nat.pow_le_pow_left (by decide) k).trans (Nat.pow_le_pow_right (by decide) (by omega)))
    _ < 10 ^ (l - 1) * 10 := by omega
    _ = 10 ^ l := by rw [← pow_succ, Nat.sub_add_cancel (by omega)]

/-- The whole part of a number that is read from a decimal is short. -/
theorem Decimal.short_truncate {d : Decimal} {z : ℤ} (h : d.toDouble.truncate = some z) :
    Text.Short z := by
  have hlimit : 10 ^ hugePower.toNat + 2 ^ Double.maxExponent.toNat < 10 ^ Text.digitLimit :=
    pow_add_pow_lt (by decide) (by decide)
  have hzero : (Double.zero d.negative).truncate = some z → Text.Short z := by
    intro hz
    have hnatAbs := Double.natAbs_truncate hz
    rw [Double.ratio_fst_eq_zero.mpr rfl, Nat.zero_div] at hnatAbs
    exact hnatAbs.trans_lt (Nat.pow_pos (by decide))
  have hdigits := lt_pow_digitCount d.digits
  unfold toDouble at h
  dsimp only at h
  split at h
  · exact hzero h
  · split at h
    · cases h
    · next hlead =>
        split at h
        · exact hzero h
        · split at h
          · next hpos =>
              refine (Double.truncate_ofRatio (by decide) h).trans_lt (lt_of_le_of_lt ?_ hlimit)
              refine Nat.add_le_add_right ?_ _
              rw [Nat.div_one]
              calc d.digits * 10 ^ d.exponent.toNat ≤ 10 ^ digitCount d.digits *
                    10 ^ d.exponent.toNat :=
                    Nat.mul_le_mul_right _ hdigits.le
                _ = 10 ^ (digitCount d.digits + d.exponent.toNat) := (pow_add 10 _ _).symm
                _ ≤ 10 ^ hugePower.toNat := Nat.pow_le_pow_right (by decide) (by omega)
          · have hden : 0 < 10 ^ (-d.exponent).toNat := Nat.pow_pos (by decide)
            refine (Double.truncate_ofRatio hden h).trans_lt (lt_of_le_of_lt ?_ hlimit)
            refine Nat.add_le_add_right ?_ _
            refine Nat.div_le_of_le_mul ?_
            calc d.digits ≤ 10 ^ digitCount d.digits := hdigits.le
              _ ≤ 10 ^ ((-d.exponent).toNat + hugePower.toNat) :=
                Nat.pow_le_pow_right (by decide) (by omega)
              _ = 10 ^ (-d.exponent).toNat * 10 ^ hugePower.toNat := pow_add 10 _ _

/-! ### Values -/

theorem Value.Fields.forall_insert {P : Value → Prop} {fields : Fields} (h : ∀ f ∈ fields, P f.2)
    (name : String) {v : Value} (hv : P v) : ∀ f ∈ fields.insert name v, P f.2 := by
  induction fields with
  | nil => simpa [Fields.insert] using hv
  | cons f fields ih =>
      obtain ⟨hf, hrest⟩ := List.forall_mem_cons.mp h
      unfold Fields.insert
      split
      · exact List.forall_mem_cons.mpr ⟨hv, hrest⟩
      · exact List.forall_mem_cons.mpr ⟨hf, ih hrest⟩

theorem Value.Fields.forall_insertAll {P : Value → Prop} {fields more : Fields}
    (h : ∀ f ∈ fields, P f.2) (hmore : ∀ f ∈ more, P f.2) : ∀ f ∈ fields.insertAll more, P f.2 := by
  induction more generalizing fields with
  | nil => exact h
  | cons f more ih =>
      obtain ⟨hf, hrest⟩ := List.forall_mem_cons.mp hmore
      exact ih (forall_insert h f.1 hf) hrest

theorem Value.Fields.forall_ofPairs {P : Value → Prop} {pairs : List (String × Value)}
    (h : ∀ f ∈ pairs, P f.2) :
    ∀ f ∈ Fields.ofPairs pairs, P f.2 := forall_insertAll (List.forall_mem_nil _) h

namespace Value

/-- A value whose numbers are short, whatever their fractions. -/
inductive Bounded : Value → Prop
  | null : Bounded .null
  | bool (b : Bool) : Bounded (.bool b)
  | int (n : ℤ) (h : Text.Short n) : Bounded (.int n)
  | float (x : Double) (h : ∀ n, x.truncate = some n → Text.Short n) : Bounded (.float x)
  | text (s : String) : Bounded (.text s)
  | list (items : List Value) (h : ∀ v ∈ items, Bounded v) : Bounded (.list items)
  | object (fields : Fields) (h : ∀ f ∈ fields, Bounded f.2) : Bounded (.object fields)

variable {cs rest : List Char} {v : Value}

theorem isAsciiDigit_of_mem_takeWhole {c : Char} (h : c ∈ (takeWhole cs).1) :
    Text.isAsciiDigit c = true := by
  unfold takeWhole at h
  split at h
  · obtain rfl := List.mem_singleton.mp h
    decide
  · exact List.mem_takeWhile_imp h

/-- A whole number is refused when it has more digits than a numeral may have. -/
theorem bounded_takeNumber (h : takeNumber cs = .ok (v, rest)) : Bounded v := by
  have hint : ∀ (body : List Char) (negative : Bool), ¬Text.digitLimit < (takeWhole body).1.length →
      Text.Short
        (if negative then -(Text.ofDigitRun (takeWhole body).1 : ℤ)
          else Text.ofDigitRun (takeWhole body).1) := by
    intro body negative hlength
    have hlt : Text.ofDigitRun (takeWhole body).1 < 10 ^ Text.digitLimit :=
      (Text.ofDigitRun_lt fun c hc => isAsciiDigit_of_mem_takeWhole hc).trans_le
        (Nat.pow_le_pow_right (by decide) (Nat.le_of_not_lt hlength))
    unfold Text.Short
    cases negative with
    | true => rwa [if_pos rfl, Int.natAbs_neg, Int.natAbs_natCast]
    | false => rwa [if_neg Bool.false_ne_true, Int.natAbs_natCast]
  unfold takeNumber at h
  dsimp only at h
  split at h
  all_goals
    dsimp only at h
    split at h
    · -- Only an infinity has no digits.
      split at h
      · obtain ⟨rfl, -⟩ := Prod.mk.inj (Except.ok.inj h)
        exact .float _ fun n hn => by cases hn
      · cases h
    · split at h
      · split at h
        · cases h
        · next hlength =>
            obtain ⟨rfl, -⟩ := Prod.mk.inj (Except.ok.inj h)
            exact .int _ (hint _ _ hlength)
      · obtain ⟨rfl, -⟩ := Prod.mk.inj (Except.ok.inj h)
        exact .float _ fun n hn => Decimal.short_truncate hn

theorem bounded_takeWord {word : String} {w : Value} (hw : Bounded w)
    (h : takeWord word w cs = .ok (v, rest)) :
    Bounded v := by
  unfold takeWord at h
  dsimp only at h
  split at h
  · obtain ⟨rfl, -⟩ := Prod.mk.inj (Except.ok.inj h)
    exact hw
  · cases h

section take

variable {fuel : ℕ}

/-- A value is bounded if the items and the fields are that it may have. -/
theorem bounded_takeValue
    (hitems : ∀ cs items rest, takeItems fuel cs = .ok (items, rest) → ∀ v ∈ items, Bounded v)
    (hfields : ∀ cs fields rest, takeFields fuel cs = .ok (fields, rest) →
      ∀ f ∈ fields, Bounded f.2)
    (h : takeValue (fuel + 1) cs = .ok (v, rest)) : Bounded v := by
  cases cs with
  | nil =>
      rw [takeValue] at h
      cases h
  | cons c cs =>
      rw [takeValue] at h
      split at h
      · split at h
        · obtain ⟨rfl, -⟩ := Prod.mk.inj (Except.ok.inj h)
          exact .text _
        · cases h
      · split at h
        · split at h
          · obtain ⟨rfl, -⟩ := Prod.mk.inj (Except.ok.inj h)
            exact .list [] (by simp)
          · split at h
            · next htake =>
                obtain ⟨rfl, -⟩ := Prod.mk.inj (Except.ok.inj h)
                exact .list _ (hitems _ _ _ htake)
            · cases h
        · split at h
          · split at h
            · obtain ⟨rfl, -⟩ := Prod.mk.inj (Except.ok.inj h)
              exact .object [] (by simp)
            · split at h
              · next htake =>
                  obtain ⟨rfl, -⟩ := Prod.mk.inj (Except.ok.inj h)
                  exact .object _ (Fields.forall_ofPairs (hfields _ _ _ htake))
              · cases h
          · repeat' split at h
            · exact bounded_takeWord .null h
            · exact bounded_takeWord (.bool true) h
            · exact bounded_takeWord (.bool false) h
            · exact bounded_takeWord (.float .nan fun n hn => by cases hn) h
            · exact bounded_takeWord (.float (.infinite false) fun n hn => by cases hn) h
            · exact bounded_takeNumber h

theorem bounded_takeItems (hvalue : ∀ cs v rest, takeValue fuel cs = .ok (v, rest) → Bounded v)
    (hitems : ∀ cs items rest, takeItems fuel cs = .ok (items, rest) → ∀ v ∈ items, Bounded v)
    {items : List Value} (h : takeItems (fuel + 1) cs = .ok (items, rest)) :
    ∀ v ∈ items, Bounded v := by
  rw [takeItems] at h
  split at h
  · cases h
  · next hv =>
      have hhead := hvalue _ _ _ hv
      split at h
      · split at h
        · next htake =>
            obtain ⟨rfl, -⟩ := Prod.mk.inj (Except.ok.inj h)
            exact List.forall_mem_cons.mpr ⟨hhead, hitems _ _ _ htake⟩
        · cases h
      · obtain ⟨rfl, -⟩ := Prod.mk.inj (Except.ok.inj h)
        exact List.forall_mem_singleton.mpr hhead
      · cases h

theorem bounded_takeFields (hvalue : ∀ cs v rest, takeValue fuel cs = .ok (v, rest) → Bounded v)
    (hfields : ∀ cs fields rest, takeFields fuel cs = .ok (fields, rest) →
      ∀ f ∈ fields, Bounded f.2)
    {fields : List (String × Value)} (h : takeFields (fuel + 1) cs = .ok (fields, rest)) :
    ∀ f ∈ fields, Bounded f.2 := by
  rw [takeFields.eq_def] at h
  dsimp only at h
  split at h
  · split at h
    · cases h
    · split at h
      · split at h
        · cases h
        · next hv =>
            have hhead := hvalue _ _ _ hv
            split at h
            · split at h
              · next htake =>
                  obtain ⟨rfl, -⟩ := Prod.mk.inj (Except.ok.inj h)
                  exact List.forall_mem_cons.mpr ⟨hhead, hfields _ _ _ htake⟩
              · cases h
            · obtain ⟨rfl, -⟩ := Prod.mk.inj (Except.ok.inj h)
              exact List.forall_mem_singleton.mpr hhead
            · cases h
      · cases h
  · cases h

end take

/-- Whatever is read is bounded, by induction on the fuel of the readers, which call each other. -/
theorem bounded_take (fuel : ℕ) :
    (∀ cs v rest, takeValue fuel cs = .ok (v, rest) → Bounded v) ∧
      (∀ cs items rest, takeItems fuel cs = .ok (items, rest) → ∀ v ∈ items, Bounded v) ∧
      ∀ cs fields rest, takeFields fuel cs = .ok (fields, rest) → ∀ f ∈ fields, Bounded f.2 := by
  induction fuel with
  | zero =>
      refine ⟨fun cs v rest h => ?_, fun cs items rest h => ?_, fun cs fields rest h => ?_⟩
      · rw [takeValue] at h
        cases h
      · rw [takeItems] at h
        cases h
      · rw [takeFields] at h
        cases h
  | succ fuel ih =>
      obtain ⟨hvalue, hitems, hfields⟩ := ih
      exact ⟨fun cs v rest => bounded_takeValue hitems hfields,
        fun cs items rest => bounded_takeItems hvalue hitems,
        fun cs fields rest => bounded_takeFields hvalue hfields⟩

/-- A value that a JSON text denotes is bounded. -/
theorem bounded_ofJson {text : String} (h : ofJson text = .ok v) : Bounded v := by
  unfold ofJson at h
  dsimp only at h
  split at h
  · cases h
  · next htake =>
      split at h
      · obtain rfl := Except.ok.inj h
        exact (bounded_take _).1 _ _ _ htake
      · cases h

theorem Bounded.get? {fields : Fields} (h : ∀ f ∈ fields, Bounded f.2) {name : String}
    (hv : fields.get? name = some v) :
    Bounded v := h _ (Fields.mem_of_get? hv)

theorem Bounded.field (h : Bounded v) (name : String) : Bounded (v.field name) := by
  cases h with
  | object fields hfields =>
      change Bounded ((Fields.get? fields name).getD .null)
      cases hget : Fields.get? fields name with
      | none => exact .null
      | some v => exact .get? hfields hget
  | _ => exact .null

end Value

end AccessControl
