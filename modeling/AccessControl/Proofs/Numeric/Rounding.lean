import AccessControl.Numeric.Decimal
import Mathlib

/-! # Numbers that rounding leaves as they are

The double nearest to a quotient depends on the quotient alone (`Double.ofRatio_congr`), and a
number in its stored form is the nearest one to itself (`Double.ofRatio_ratio`).  So a decimal
stands for one double, however its digits are written (`Decimal.toDouble_congr`), and the shortest
decimal of a number stands for that number (`Double.toDouble_shortest`). -/

namespace AccessControl

theorem log_eq_of_bounds {b : ℕ} (hb : 1 < b) {q : ℚ} {k : ℤ} (hlow : (b : ℚ) ^ k ≤ q)
    (hhigh : q < (b : ℚ) ^ (k + 1)) :
    Int.log b q = k := by
  have hq : 0 < q := lt_of_lt_of_le (zpow_pos (by exact_mod_cast (by omega : 0 < b)) k) hlow
  have hle := (Int.zpow_le_iff_le_log hb hq).mp hlow
  have hlt := (Int.lt_zpow_iff_log_lt hb hq).mp hhigh
  omega

namespace Double

/-! ### Quotients on a grid -/

theorem scaleRatio_spec (num : ℕ) {den : ℕ} (hden : 0 < den) (e : ℤ) :
    0 < (scaleRatio num den e).2 ∧
    ((scaleRatio num den e).1 : ℚ) / (scaleRatio num den e).2 = (num : ℚ) / den / 2 ^ e := by
  unfold scaleRatio
  split
  · next he =>
      refine ⟨Nat.mul_pos hden (Nat.pow_pos (by decide)), ?_⟩
      obtain ⟨k, rfl⟩ := Int.eq_ofNat_of_zero_le he
      simp [div_div]
  · next he =>
      refine ⟨hden, ?_⟩
      obtain ⟨k, rfl⟩ : ∃ k : ℕ, e = -(k : ℤ) := ⟨(-e).toNat, by omega⟩
      simp [div_eq_mul_inv, mul_right_comm]

/-- The quotient of the logarithms is off by one at most. -/
theorem quotient_bounds {num den : ℕ} (hnum : 0 < num) (hden : 0 < den) :
    (2 : ℚ) ^ ((num.log2 : ℤ) - den.log2 - 1) ≤ num / den ∧
      (num : ℚ) / den < 2 ^ ((num.log2 : ℤ) - den.log2 + 1) := by
  have hden' : (0 : ℚ) < den := by exact_mod_cast hden
  have hnumLow : (2 : ℚ) ^ (num.log2 : ℤ) ≤ num := by exact_mod_cast Nat.log2_self_le hnum.ne'
  have hnumHigh : (num : ℚ) < 2 ^ ((num.log2 : ℤ) + 1) := by exact_mod_cast Nat.lt_log2_self
  have hdenLow : (2 : ℚ) ^ (den.log2 : ℤ) ≤ den := by exact_mod_cast Nat.log2_self_le hden.ne'
  have hdenHigh : (den : ℚ) < 2 ^ ((den.log2 : ℤ) + 1) := by exact_mod_cast Nat.lt_log2_self
  constructor
  · rw [le_div_iff₀ hden']
    calc (2 : ℚ) ^ ((num.log2 : ℤ) - den.log2 - 1) * den
        ≤ 2 ^ ((num.log2 : ℤ) - den.log2 - 1) * 2 ^ ((den.log2 : ℤ) + 1) := by gcongr
      _ = 2 ^ (num.log2 : ℤ) := by
        rw [← zpow_add₀ (by decide : (2 : ℚ) ≠ 0)]
        congr 1
        omega
      _ ≤ num := hnumLow
  · rw [div_lt_iff₀ hden']
    calc (num : ℚ) < 2 ^ ((num.log2 : ℤ) + 1) := hnumHigh
      _ = 2 ^ ((num.log2 : ℤ) - den.log2 + 1) * 2 ^ (den.log2 : ℤ) := by
        rw [← zpow_add₀ (by decide : (2 : ℚ) ≠ 0)]
        congr 1
        omega
      _ ≤ 2 ^ ((num.log2 : ℤ) - den.log2 + 1) * den := by gcongr

/-- The grid on which a quotient is rounded, by its logarithm. -/
theorem gridExponent_eq {num den : ℕ} (hnum : 0 < num) (hden : 0 < den) :
    gridExponent num den = max (Int.log 2 ((num : ℚ) / den) - 52) minExponent := by
  obtain ⟨hlow, hhigh⟩ := quotient_bounds hnum hden
  set guess : ℤ := (num.log2 : ℤ) - den.log2 - precision with hguess
  rw [show (num.log2 : ℤ) - den.log2 - 1 = guess + 52 by simp only [hguess, precision]; omega]
    at hlow
  rw [show (num.log2 : ℤ) - den.log2 + 1 = guess + 54 by simp only [hguess, precision]; omega]
    at hhigh
  obtain ⟨hpos, hscaled⟩ := scaleRatio_spec num hden guess
  have hpos' : (0 : ℚ) < (scaleRatio num den guess).2 := by exact_mod_cast hpos
  have hbelow : (scaleRatio num den guess).1 / (scaleRatio num den guess).2 < 2 ^ precision ↔
      (num : ℚ) / den < 2 ^ (guess + 53) := by
    rw [Nat.div_lt_iff_lt_mul hpos, ← Nat.cast_lt (α := ℚ), Nat.cast_mul, ← div_lt_iff₀ hpos',
      hscaled, div_lt_iff₀ (zpow_pos (by decide) guess), add_comm guess,
      zpow_add₀ (by decide : (2 : ℚ) ≠ 0)]
    norm_num [precision]
  change max (if (scaleRatio num den guess).1 / (scaleRatio num den guess).2 <
    2 ^ precision then guess
    else guess + 1) _ = _
  congr 1
  split
  · next hlt =>
      rw [log_eq_of_bounds (by decide) (by exact_mod_cast hlow) (by
        rw [add_assoc]
        exact_mod_cast hbelow.mp hlt)]
      omega
  · next hge =>
      rw [hbelow, not_lt] at hge
      rw [log_eq_of_bounds (k := guess + 53) (by decide) (by exact_mod_cast hge) (by
        rw [add_assoc]
        exact_mod_cast hhigh)]
      omega

/-! ### Rounding -/

theorem divRoundEven_mul_left {k : ℕ} (hk : 0 < k) (num den : ℕ) :
    divRoundEven (k * num) (k * den) = divRoundEven num den := by
  unfold divRoundEven
  simp only [Nat.mul_div_mul_left _ _ hk, Nat.mul_mod_mul_left, mul_left_comm 2 k,
    Nat.mul_lt_mul_left hk]

theorem divRoundEven_congr {num den num' den' : ℕ} (hden : 0 < den) (hden' : 0 < den')
    (h : num * den' = num' * den) :
    divRoundEven num den = divRoundEven num' den' := by
  rw [← divRoundEven_mul_left hden', ← divRoundEven_mul_left hden num' den', mul_comm den' num, h,
    mul_comm den' den, mul_comm den num']

theorem divRoundEven_self {k : ℕ} (hk : 0 < k) (m : ℕ) : divRoundEven (m * k) k = m := by
  unfold divRoundEven
  simp only [Nat.mul_div_cancel _ hk, Nat.mul_mod_left, mul_zero, hk, if_true]

/-- The nearest double depends on the quotient alone. -/
theorem ofRatio_congr (negative : Bool) {num den num' den' : ℕ} (hden : 0 < den) (hden' : 0 < den')
    (h : (num : ℚ) / den = (num' : ℚ) / den') :
    ofRatio negative num den = ofRatio negative num' den' := by
  have hd : (den : ℚ) ≠ 0 := by exact_mod_cast hden.ne'
  have hd' : (den' : ℚ) ≠ 0 := by exact_mod_cast hden'.ne'
  have hcross : num * den' = num' * den := by exact_mod_cast (div_eq_div_iff hd hd').mp h
  unfold ofRatio
  by_cases hnum : num = 0
  · have hnum' : num' = 0 := by simpa [hnum, hden.ne'] using hcross.symm
    rw [if_pos hnum, if_pos hnum']
  · have hnum' : num' ≠ 0 := by
      rintro rfl
      exact hnum (by simpa [hden'.ne'] using hcross)
    rw [if_neg hnum, if_neg hnum', gridExponent_eq (Nat.pos_of_ne_zero hnum) hden,
      gridExponent_eq (Nat.pos_of_ne_zero hnum') hden', h]
    generalize max (Int.log 2 ((num' : ℚ) / den') - 52) minExponent = e
    obtain ⟨hpos, hscaled⟩ := scaleRatio_spec num hden e
    obtain ⟨hpos', hscaled'⟩ := scaleRatio_spec num' hden' e
    have hequal : ((scaleRatio num den e).1 : ℚ) / (scaleRatio num den e).2 =
        (scaleRatio num' den' e).1 / (scaleRatio num' den' e).2 := by rw [hscaled, hscaled', h]
    have hgrid : (scaleRatio num den e).1 * (scaleRatio num' den' e).2 =
        (scaleRatio num' den' e).1 * (scaleRatio num den e).2 := by
      exact_mod_cast (div_eq_div_iff (by exact_mod_cast hpos.ne') (by exact_mod_cast hpos'.ne')).mp
        hequal
    exact congrArg (ofMantissa negative · e) (divRoundEven_congr hpos hpos' hgrid)

theorem ratio_spec (m : ℕ) (e : ℤ) :
    0 < (ratio m e).2 ∧ ((ratio m e).1 : ℚ) / (ratio m e).2 = m * 2 ^ e := by
  unfold ratio
  split
  · next he =>
      obtain ⟨k, rfl⟩ := Int.eq_ofNat_of_zero_le he
      simp
  · next he =>
      obtain ⟨k, rfl⟩ : ∃ k : ℕ, e = -(k : ℤ) := ⟨(-e).toNat, by omega⟩
      simp [div_eq_mul_inv]

@[simp] theorem ratio_fst_eq_zero {m : ℕ} {e : ℤ} : (ratio m e).1 = 0 ↔ m = 0 := by
  unfold ratio
  split <;> simp

/-- A number in its stored form lies on the grid on which it is rounded. -/
theorem gridExponent_ratio {negative : Bool} {m : ℕ} {e : ℤ} (h : (finite negative m e).Canonical)
    (hm : 0 < m) :
    gridExponent (ratio m e).1 (ratio m e).2 = e := by
  obtain ⟨hfull, hmin, -, hnormal⟩ := h
  obtain ⟨hpos, hratio⟩ := ratio_spec m e
  have hnum : 0 < (ratio m e).1 := Nat.pos_of_ne_zero (by simpa using hm.ne')
  have hlog : Int.log 2 (m * 2 ^ e : ℚ) = Nat.log 2 m + e := by
    refine log_eq_of_bounds (by decide) ?_ ?_
    · rw [Nat.cast_ofNat, zpow_add₀ (by decide)]
      gcongr
      exact_mod_cast Nat.pow_log_le_self 2 hm.ne'
    · rw [Nat.cast_ofNat, add_right_comm, zpow_add₀ (by decide)]
      gcongr
      exact_mod_cast Nat.lt_pow_succ_log_self (by decide) m
  have hlogHigh : Nat.log 2 m < 53 := Nat.log_lt_of_lt_pow hm.ne' hfull
  rw [gridExponent_eq hnum hpos, hratio, hlog]
  rcases hnormal with hlow | hfinest
  · have hlogLow : 52 ≤ Nat.log 2 m := Nat.le_log_of_pow_le (by decide) hlow
    rw [max_eq_left (by omega)]
    omega
  · rw [max_eq_right (by omega), hfinest]

/-- A number in its stored form is the double nearest to itself. -/
theorem ofRatio_ratio {negative : Bool} {m : ℕ} {e : ℤ} (h : (finite negative m e).Canonical) :
    ofRatio negative (ratio m e).1 (ratio m e).2 = finite negative m e := by
  obtain ⟨hpos, hratio⟩ := ratio_spec m e
  unfold ofRatio
  by_cases hm : m = 0
  · -- Zero is stored on the finest grid.
    obtain ⟨-, -, -, hnormal⟩ := h
    have hfinest : e = minExponent := hnormal.resolve_left (by simp [hm, precision])
    rw [if_pos (ratio_fst_eq_zero.mpr hm), zero, hm, hfinest]
  · rw [if_neg (mt ratio_fst_eq_zero.mp hm), gridExponent_ratio h (Nat.pos_of_ne_zero hm)]
    change ofMantissa negative (divRoundEven (scaleRatio (ratio m e).1 (ratio m e).2 e).1
      (scaleRatio (ratio m e).1 (ratio m e).2 e).2) e = _
    obtain ⟨hscaledPos, hscaled⟩ := scaleRatio_spec (ratio m e).1 hpos e
    rw [hratio, mul_div_cancel_right₀ _ (zpow_ne_zero e (by decide)),
      div_eq_iff (by exact_mod_cast hscaledPos.ne')] at hscaled
    have hgrid :
        (scaleRatio (ratio m e).1 (ratio m e).2 e).1 = m *
        (scaleRatio (ratio m e).1 (ratio m e).2 e).2 := by
      exact_mod_cast hscaled
    obtain ⟨hfull, -, hmax, -⟩ := h
    rw [hgrid, divRoundEven_self hscaledPos, ofMantissa, if_neg hfull.ne]
    exact if_neg (not_lt.mpr hmax)

end Double

/-! ### Decimals -/

namespace Decimal

/-- How far a decimal is from zero. -/
def magnitude (d : Decimal) : ℚ := d.digits * 10 ^ d.exponent

variable {d : Decimal}

theorem magnitude_eq_zero : d.magnitude = 0 ↔ d.digits = 0 := by
  simp [magnitude, zpow_ne_zero d.exponent (by decide : (10 : ℚ) ≠ 0)]

theorem lt_pow_digitCount (n : ℕ) : n < 10 ^ digitCount n := by
  unfold digitCount
  split
  · next hn => simp [hn]
  · exact (Nat.length_toDigits_le_iff (by decide) (Nat.length_toDigits_pos)).mp le_rfl

theorem pow_digitCount_le {n : ℕ} (hn : n ≠ 0) : 10 ^ (digitCount n - 1) ≤ n := by
  rw [digitCount, if_neg hn]
  rcases Nat.eq_zero_or_pos ((Nat.toDigits 10 n).length - 1) with hone | hmore
  · rw [hone]
    exact Nat.pos_of_ne_zero hn
  · by_contra hlt
    have hle := (Nat.length_toDigits_le_iff (by decide) hmore).mpr (not_le.mp hlt)
    omega

/-- The power of ten just above a decimal. -/
theorem lead_eq (hd : d.digits ≠ 0) :
    d.exponent + digitCount d.digits = Int.log 10 d.magnitude + 1 := by
  have hlow : 10 ^ (digitCount d.digits - 1) ≤ d.digits := pow_digitCount_le hd
  have hhigh : d.digits < 10 ^ digitCount d.digits := lt_pow_digitCount d.digits
  have hcount : 0 < digitCount d.digits := by
    rw [digitCount, if_neg hd]
    exact Nat.length_toDigits_pos
  have hpow : (0 : ℚ) < 10 ^ d.exponent := zpow_pos (by decide) _
  rw [log_eq_of_bounds (b := 10) (k := d.exponent + digitCount d.digits - 1) (by decide),
    sub_add_cancel]
  · rw [show d.exponent + (digitCount d.digits : ℤ) - 1 = ((digitCount d.digits - 1 : ℕ) : ℤ) +
      d.exponent by omega,
      Nat.cast_ofNat, zpow_add₀ (by decide), magnitude]
    gcongr
    exact_mod_cast hlow
  · rw [sub_add_cancel, add_comm d.exponent, Nat.cast_ofNat, zpow_add₀ (by decide), magnitude]
    gcongr
    exact_mod_cast hhigh

/-- The double of a decimal by any quotient that has its magnitude. -/
theorem toDouble_eq (hd : d.digits ≠ 0) {num den : ℕ} (hden : 0 < den)
    (h : d.magnitude = (num : ℚ) / den) :
    d.toDouble = if hugePower ≤ Int.log 10 d.magnitude + 1 then .infinite d.negative
      else if Int.log 10 d.magnitude + 1 ≤ tinyPower then
        .zero d.negative
      else .ofRatio d.negative num den := by
  have hround :
      (if 0 ≤ d.exponent then .ofRatio d.negative (d.digits * Nat.pow 10 d.exponent.toNat) 1
      else .ofRatio d.negative d.digits (Nat.pow 10 (-d.exponent).toNat)) =
        Double.ofRatio d.negative num den := by
    split
    · next he =>
        refine Double.ofRatio_congr _ Nat.one_pos hden (h ▸ ?_)
        obtain ⟨k, hk⟩ := Int.eq_ofNat_of_zero_le he
        simp [magnitude, hk]
    · next he =>
        refine Double.ofRatio_congr _ (Nat.pow_pos (by decide)) hden (h ▸ ?_)
        obtain ⟨k, hk⟩ : ∃ k : ℕ, d.exponent = -(k : ℤ) := ⟨(-d.exponent).toNat, by omega⟩
        simp [magnitude, hk, div_eq_mul_inv]
  unfold toDouble
  dsimp only
  rw [if_neg hd, lead_eq hd, hround]

/-- A decimal stands for one double, however its digits are written. -/
theorem toDouble_congr {d' : Decimal} (hsign : d.negative = d'.negative)
    (h : d.magnitude = d'.magnitude) :
    d.toDouble = d'.toDouble := by
  by_cases hd : d.digits = 0
  · have hd' : d'.digits = 0 := magnitude_eq_zero.mp (h ▸ magnitude_eq_zero.mpr hd)
    simp [toDouble, hd, hd', hsign]
  · have hd' : d'.digits ≠ 0 :=
      mt (fun hzero => magnitude_eq_zero.mp (h.trans (magnitude_eq_zero.mpr hzero))) hd
    have hpos : 0 ≤ d.magnitude := mul_nonneg (Nat.cast_nonneg _) (zpow_nonneg (by decide) _)
    have hratio : d.magnitude = (d.magnitude.num.toNat : ℚ) / d.magnitude.den := by
      rw [← Int.cast_natCast d.magnitude.num.toNat, Int.toNat_of_nonneg (Rat.num_nonneg.mpr hpos),
        Rat.num_div_den]
    rw [toDouble_eq hd d.magnitude.den_pos hratio,
      toDouble_eq hd' d.magnitude.den_pos (h.symm.trans hratio), h, hsign]

/-- No stored number is near the powers of ten past which the digits of a decimal are not looked
at. -/
theorem log_bounds {negative : Bool} {m : ℕ} {e : ℤ}
    (hcanonical : (Double.finite negative m e).Canonical) (hm : m ≠ 0) :
    -399 ≤ Int.log 10 ((m : ℚ) * 2 ^ e) ∧ Int.log 10 ((m : ℚ) * 2 ^ e) < 399 := by
  obtain ⟨hfull, hmin, hmax, -⟩ := hcanonical
  unfold Double.minExponent at hmin
  unfold Double.maxExponent at hmax
  have hpos : (0 : ℚ) < m * 2 ^ e := by positivity
  have hpow : (2 : ℚ) ^ (1197 : ℤ) ≤ 10 ^ (399 : ℤ) := by
    calc (2 : ℚ) ^ (1197 : ℤ) = (2 ^ (3 : ℤ)) ^ (399 : ℤ) := zpow_mul 2 3 399
      _ ≤ 10 ^ (399 : ℤ) := zpow_le_zpow_left₀ (by decide) (by norm_num) (by norm_num)
  have hlow : (10 : ℚ) ^ (-399 : ℤ) ≤ m * 2 ^ e := by
    have hone : (1 : ℚ) ≤ m := by exact_mod_cast Nat.one_le_iff_ne_zero.mpr hm
    calc (10 : ℚ) ^ (-399 : ℤ) = (10 ^ (399 : ℤ))⁻¹ := zpow_neg _ _
      _ ≤ (2 ^ (1197 : ℤ))⁻¹ := inv_anti₀ (zpow_pos (by decide) _) hpow
      _ = 2 ^ (-1197 : ℤ) := (zpow_neg _ _).symm
      _ ≤ 2 ^ e := zpow_le_zpow_right₀ (by decide) (by omega)
      _ ≤ m * 2 ^ e := le_mul_of_one_le_left (zpow_nonneg (by decide) _) hone
  have hhigh : (m : ℚ) * 2 ^ e < 10 ^ (399 : ℤ) := by
    calc (m : ℚ) * 2 ^ e < 2 ^ (53 : ℤ) * 2 ^ e := by
          gcongr
          exact_mod_cast hfull
      _ = 2 ^ (53 + e) := (zpow_add₀ (by decide) _ _).symm
      _ ≤ 2 ^ (1197 : ℤ) := zpow_le_zpow_right₀ (by decide) (by omega)
      _ ≤ 10 ^ (399 : ℤ) := hpow
  exact ⟨(Int.zpow_le_iff_le_log (by decide) hpos).mp (by exact_mod_cast hlow),
    (Int.lt_zpow_iff_log_lt (by decide) hpos).mp (by exact_mod_cast hhigh)⟩

/-- A decimal that has the magnitude of a stored number stands for it. -/
theorem toDouble_of_magnitude {m : ℕ} {e : ℤ}
    (hcanonical : (Double.finite d.negative m e).Canonical) (h : d.magnitude = m * 2 ^ e) :
    d.toDouble = .finite d.negative m e := by
  by_cases hm : m = 0
  · have hd : d.digits = 0 := magnitude_eq_zero.mp (by rw [h, hm, Nat.cast_zero, zero_mul])
    have hnormal := hcanonical.2.2.2
    have hfinest : e = Double.minExponent := hnormal.resolve_left (by simp [hm, Double.precision])
    rw [toDouble, if_pos hd, hm, hfinest, Double.zero]
  · have hd : d.digits ≠ 0 := by
      rw [ne_eq, ← magnitude_eq_zero, h]
      positivity
    obtain ⟨hden, hratio⟩ := Double.ratio_spec m e
    obtain ⟨hlogLow, hlogHigh⟩ := log_bounds hcanonical hm
    rw [← h] at hlogLow hlogHigh
    rw [toDouble_eq hd hden (h.trans hratio.symm), if_neg (by unfold hugePower; omega),
      if_neg (by unfold tinyPower; omega)]
    exact Double.ofRatio_ratio hcanonical

end Decimal

/-! ### The shortest decimal -/

namespace Double

theorem trimZeros_magnitude (fuel digits : ℕ) (exponent : ℤ) :
    ((trimZeros fuel digits exponent).1 : ℚ) * 10 ^ (trimZeros fuel digits exponent).2 = digits *
      10 ^ exponent := by
  induction fuel generalizing digits exponent with
  | zero => rfl
  | succ fuel ih =>
    rw [trimZeros]
    split
    · next htrim =>
        have hdigits : (digits : ℚ) = (digits / 10 : ℕ) * 10 := by
          exact_mod_cast (Nat.div_mul_cancel (Nat.dvd_of_mod_eq_zero htrim.1)).symm
        rw [ih, zpow_add_one₀ (by decide), hdigits]
        ring
    · rfl

theorem shortestFrom_some {x : Double} {negative : Bool} {num den : ℕ} {lead : ℤ} {fuel count : ℕ}
    {d : Decimal} (h : shortestFrom x negative num den lead fuel count = some d) :
    d.negative = negative ∧ d.toDouble = x := by
  induction fuel generalizing count with
  | zero => cases h
  | succ fuel ih =>
    rw [shortestFrom] at h
    split at h
    · next digits hfound =>
        obtain rfl := Option.some.inj h
        have hread := List.find?_some hfound
        exact ⟨rfl, beq_iff_eq.mp hread⟩
    · exact ih h

/-- All digits of a number. -/
def exactDecimal (negative : Bool) (m : ℕ) (e : ℤ) : Decimal :=
  if 0 ≤ e then ⟨negative, (ratio m e).1, 0⟩ else ⟨negative, m * Nat.pow 5 (-e).toNat, e⟩

/-- The decimal with the fewest digits, before its trailing zeros go. -/
def untrimmed (negative : Bool) (m : ℕ) (e : ℤ) : Decimal :=
  (shortestFrom (.finite negative m e) negative (ratio m e).1 (ratio m e).2
    (decimalLead (ratio m e).1 (ratio m e).2) 17 1).getD (exactDecimal negative m e)

theorem shortest_eq {negative : Bool} {m : ℕ} {e : ℤ} (hm : m ≠ 0) :
    shortest negative m e =
      ⟨negative,
       (trimZeros 1100 (untrimmed negative m e).digits (untrimmed negative m e).exponent).1,
        (trimZeros 1100 (untrimmed negative m e).digits (untrimmed negative m e).exponent).2⟩ := by
  rw [shortest, if_neg hm]
  rfl

theorem exactDecimal_spec {negative : Bool} {m : ℕ} {e : ℤ} (h : (finite negative m e).Canonical) :
    (exactDecimal negative m e).negative = negative ∧
      (exactDecimal negative m e).toDouble = finite negative m e := by
  unfold exactDecimal
  split
  · next he =>
      refine ⟨rfl, Decimal.toDouble_of_magnitude h ?_⟩
      obtain ⟨k, rfl⟩ := Int.eq_ofNat_of_zero_le he
      simp [Decimal.magnitude, ratio]
  · next he =>
      refine ⟨rfl, Decimal.toDouble_of_magnitude h ?_⟩
      obtain ⟨k, rfl⟩ : ∃ k : ℕ, e = -(k : ℤ) := ⟨(-e).toNat, by omega⟩
      -- Five to the power over ten to the power is two to the power below.
      have hpow : (5 : ℚ) ^ k * (10 ^ k)⁻¹ = (2 ^ k)⁻¹ := by
        rw [show (10 : ℚ) = 5 * 2 by
          norm_num, mul_pow, mul_inv, mul_inv_cancel_left₀ (by positivity)]
      simp [Decimal.magnitude, mul_assoc, hpow]

theorem untrimmed_spec {negative : Bool} {m : ℕ} {e : ℤ} (h : (finite negative m e).Canonical) :
    (untrimmed negative m e).negative = negative ∧
      (untrimmed negative m e).toDouble = finite negative m e := by
  unfold untrimmed
  cases hfound : shortestFrom (.finite negative m e) negative (ratio m e).1 (ratio m e).2
      (decimalLead (ratio m e).1 (ratio m e).2) 17 1 with
  | none => exact exactDecimal_spec h
  | some d => exact shortestFrom_some hfound

/-- The shortest decimal of a number stands for the number. -/
theorem toDouble_shortest {negative : Bool} {m : ℕ} {e : ℤ} (h : (finite negative m e).Canonical) :
    (shortest negative m e).toDouble = finite negative m e := by
  by_cases hm : m = 0
  · rw [shortest, if_pos hm]
    exact Decimal.toDouble_of_magnitude h (by simp [Decimal.magnitude, hm])
  · obtain ⟨hsign, hread⟩ := untrimmed_spec h
    rw [shortest_eq hm, ← hread]
    exact Decimal.toDouble_congr hsign.symm (trimZeros_magnitude 1100 _ _)

end Double
end AccessControl
