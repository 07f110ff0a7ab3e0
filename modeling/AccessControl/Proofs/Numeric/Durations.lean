import AccessControl.Numeric.Duration
import AccessControl.Proofs.Numeric.Ordering
import Mathlib

/-! # Seconds as durations

Seconds are rounded to microseconds in two steps, of which the first rounds as well.  The first step
does not matter at the two ends of what a duration can be: a number of seconds that is not negative
becomes nothing just when it is half a microsecond or less (`Duration.roundSeconds_eq_zero_iff`),
and is too long just when it is so before it is rounded (`Duration.limit_le_roundSeconds_iff`). -/

namespace AccessControl

namespace Double

variable {m : ℕ} {e : ℤ} {bound : ℚ}

/-! ### Bounds -/

/-- The value of a finite number. -/
def worth : Double → Option ℚ
  | .finite negative m e => some (if negative then -(m * 2 ^ e) else m * 2 ^ e)
  | _ => none

/-- The number is not below the bound. -/
def AtLeast (bound : ℚ) (x : Double) : Prop :=
  x = .infinite false ∨ ∃ q, x.worth = some q ∧ bound ≤ q

/-- The number is not negative, and not above the bound. -/
def AtMost (bound : ℚ) (x : Double) : Prop := ∃ m e, x = finite false m e ∧ (m : ℚ) * 2 ^ e ≤ bound

/-- The value of a number that is not negative. -/
def Stored (q : ℚ) : Prop := ∃ m e, (finite false m e).Canonical ∧ (m : ℚ) * 2 ^ e = q

theorem stored_one : Stored 1 :=
  ⟨2 ^ 52, -52, ⟨by decide, by decide, by decide, .inl le_rfl⟩, by norm_num⟩

theorem stored_half : Stored (1 / 2) :=
  ⟨2 ^ 52, -53, ⟨by decide, by decide, by decide, .inl le_rfl⟩, by norm_num⟩

theorem stored_million : Stored 1000000 :=
  ⟨1000000 * 2 ^ 33, -33, ⟨by decide, by decide, by decide, .inl (by decide)⟩, by norm_num⟩

theorem atLeast_finite : (finite false m e).AtLeast bound ↔ bound ≤ m * 2 ^ e := by
  simp [AtLeast, worth]

theorem not_atLeast_below (hbound : 0 < bound) (m : ℕ) (e : ℤ) :
    ¬ (finite true m e).AtLeast bound := by
  have hnonneg : (0 : ℚ) ≤ m * 2 ^ e := by positivity
  rintro (hinfinite | ⟨q, hq, hle⟩)
  · cases hinfinite
  · cases hq
    rw [if_pos rfl] at hle
    linarith

theorem AtMost.atLeast_le {x : Double} {low : ℚ} (h : x.AtMost bound) (hlow : x.AtLeast low) :
    low ≤ bound := by
  obtain ⟨m, e, rfl, hle⟩ := h
  exact (atLeast_finite.mp hlow).trans hle

theorem ofRatio_atMost {num den : ℕ} (hden : 0 < den) (h : Stored bound)
    (hle : (num : ℚ) / den ≤ bound) :
    (ofRatio false num den).AtMost bound := by
  obtain ⟨m, e, hcanonical, rfl⟩ := h
  exact ofRatio_le false hden hcanonical hle

theorem ofRatio_atLeast {num den : ℕ} (hden : 0 < den) (h : Stored bound)
    (hle : bound ≤ (num : ℚ) / den) :
    (ofRatio false num den).AtLeast bound := by
  obtain ⟨m, e, hcanonical, rfl⟩ := h
  rcases le_ofRatio false hden hcanonical hle with hinfinite | ⟨m', e', heq, hle'⟩
  · exact .inl hinfinite
  · rw [heq, atLeast_finite]
    exact hle'

/-! ### Parts of a number -/

theorem ratio_div_eq_floor (m : ℕ) (e : ℤ) :
    (ratio m e).1 / (ratio m e).2 = ⌊(m : ℚ) * 2 ^ e⌋₊ := by
  rw [← (ratio_spec m e).2, Nat.floor_div_eq_div]

theorem truncate_finite (m : ℕ) (e : ℤ) :
    (finite false m e).truncate = some (⌊(m : ℚ) * 2 ^ e⌋₊ : ℤ) := by
  rw [← ratio_div_eq_floor]
  rfl

theorem fraction_finite (m : ℕ) (e : ℤ) :
    (finite false m e).fraction = ofRatio false ((ratio m e).1 % (ratio m e).2) (ratio m e).2 := rfl

theorem scaleBy_finite (k m : ℕ) (e : ℤ) :
    (finite false m e).scaleBy k = ofRatio false ((ratio m e).1 * k) (ratio m e).2 := rfl

theorem fraction_of_lt_one (h : (finite false m e).Canonical) (hone : (m : ℚ) * 2 ^ e < 1) :
    (finite false m e).fraction = finite false m e := by
  obtain ⟨hpos, hratio⟩ := ratio_spec m e
  rw [← hratio, div_lt_one (by exact_mod_cast hpos)] at hone
  rw [fraction_finite, Nat.mod_eq_of_lt (by exact_mod_cast hone), ofRatio_ratio h]

theorem fraction_atMost_one (m : ℕ) (e : ℤ) : (finite false m e).fraction.AtMost 1 := by
  obtain ⟨hpos, -⟩ := ratio_spec m e
  refine ofRatio_atMost hpos stored_one ?_
  rw [div_le_one (by exact_mod_cast hpos)]
  exact_mod_cast (Nat.mod_lt _ hpos).le

/-- A number on a grid of at most 64 steps to one stays a step away from the next integer. -/
theorem fraction_atMost_of_grid (h : -6 ≤ e) : (finite false m e).fraction.AtMost (63 / 64) := by
  obtain ⟨hpos, -⟩ := ratio_spec m e
  have hstored : Stored (63 / 64) :=
    ⟨63 * 2 ^ 47, -53, ⟨by decide, by decide, by decide, .inl (by decide)⟩, by norm_num⟩
  have hden : (ratio m e).2 ≤ 64 := by
    unfold ratio
    split
    · exact Nat.one_le_ofNat
    · calc Nat.pow 2 (-e).toNat ≤ 2 ^ 6 := Nat.pow_le_pow_right (by decide) (by omega)
        _ = 64 := rfl
  have hrest : (ratio m e).1 % (ratio m e).2 * 64 ≤ 63 * (ratio m e).2 := by
    have := Nat.mod_lt (ratio m e).1 hpos
    omega
  refine ofRatio_atMost hpos hstored ?_
  rw [div_le_div_iff₀ (by exact_mod_cast hpos) (by norm_num)]
  exact_mod_cast hrest

end Double

namespace Duration

open Double

variable {m : ℕ} {e : ℤ}

/-! ### Rounding to microseconds -/

/-- The microseconds of what is left beside the whole seconds. -/
def restOf (m : ℕ) (e : ℤ) : Double := (finite false m e).fraction.scaleBy perSecond

theorem roundSeconds_finite (m : ℕ) (e : ℤ) : roundSeconds (finite false m e) =
    addFraction (⌊(m : ℚ) * 2 ^ e⌋₊ * perSecond + (restOf m e).truncate.getD 0)
      (restOf m e).fraction := by
  rw [roundSeconds, truncate_finite]
  rfl

theorem addFraction_bounds (micros : ℤ) (m : ℕ) (e : ℤ) :
    micros ≤ addFraction micros (finite false m e) ∧
      addFraction micros (finite false m e) ≤ micros + 1 := by
  unfold addFraction
  dsimp only
  split
  · exact ⟨by rw [if_neg Bool.false_ne_true]; omega, by rw [if_neg Bool.false_ne_true]⟩
  · exact ⟨le_rfl, by omega⟩

theorem addFraction_zero_iff (m : ℕ) (e : ℤ) :
    addFraction 0 (finite false m e) = 0 ↔ (m : ℚ) * 2 ^ e ≤ 1 / 2 := by
  obtain ⟨hpos, hratio⟩ := ratio_spec m e
  rw [← hratio, div_le_div_iff₀ (by exact_mod_cast hpos) (by norm_num)]
  have hcast : ((ratio m e).1 : ℚ) * 2 ≤ 1 * (ratio m e).2 ↔
      ¬ (ratio m e).2 < 2 * (ratio m e).1 := by
    rw [one_mul, not_lt, mul_comm]
    exact_mod_cast Iff.rfl
  rw [hcast]
  unfold addFraction
  simp

theorem roundSeconds_bounds {m' : ℕ} {e' : ℤ} (hrest : restOf m e = finite false m' e') :
    (⌊(m : ℚ) * 2 ^ e⌋₊ * perSecond + ⌊(m' : ℚ) * 2 ^ e'⌋₊ : ℤ) ≤ roundSeconds (finite false m e) ∧
      roundSeconds (finite false m e) ≤ ⌊(m : ℚ) * 2 ^ e⌋₊ * perSecond + ⌊(m' : ℚ) * 2 ^ e'⌋₊ +
        1 := by
  obtain ⟨k, l, hfraction, -⟩ := fraction_atMost_one m' e'
  rw [roundSeconds_finite, hrest, hfraction, truncate_finite]
  exact addFraction_bounds _ k l

theorem restOf_atMost {bound limit : ℚ} (hfraction : (finite false m e).fraction.AtMost bound)
    (hlimit : Stored limit) (hle : bound * perSecond ≤ limit) : (restOf m e).AtMost limit := by
  obtain ⟨k, l, hk, hkl⟩ := hfraction
  obtain ⟨hpos, hratio⟩ := ratio_spec k l
  rw [restOf, hk, scaleBy_finite]
  refine ofRatio_atMost hpos hlimit ?_
  rw [Nat.cast_mul, mul_div_right_comm, hratio]
  exact (mul_le_mul_of_nonneg_right hkl (Nat.cast_nonneg _)).trans hle

theorem restOf_atMost_million (m : ℕ) (e : ℤ) : (restOf m e).AtMost 1000000 :=
  restOf_atMost (fraction_atMost_one m e) stored_million (by norm_num [perSecond])

theorem roundSeconds_nonneg (m : ℕ) (e : ℤ) : 0 ≤ roundSeconds (finite false m e) := by
  obtain ⟨k, l, hrest, -⟩ := restOf_atMost_million m e
  have hbounds := (roundSeconds_bounds hrest).1
  simp only [perSecond] at hbounds
  omega

/-! ### Short durations -/

/-- The least stored number above half a microsecond. -/
theorem next_le_of_half_lt (h : (finite false m e).Canonical)
    (hlt : (1 : ℚ) / 2000000 < m * 2 ^ e) :
    ((4722366482869646 : ℕ) : ℚ) / (2 ^ 73 : ℕ) ≤ m * 2 ^ e := by
  obtain ⟨hfull, -, -, hnormal⟩ := h
  have hm : (m : ℚ) < 2 ^ 53 := by exact_mod_cast hfull
  rcases lt_trichotomy e (-73) with hless | rfl | hmore
  · -- On a finer grid no number is that great.
    exfalso
    have hpow : (2 : ℚ) ^ e ≤ 2 ^ (-74 : ℤ) := zpow_le_zpow_right₀ (by decide) (by omega)
    have hle : (m : ℚ) * 2 ^ e ≤ 2 ^ 53 * 2 ^ (-74 : ℤ) :=
      mul_le_mul hm.le hpow (by positivity) (by positivity)
    norm_num at hle
    linarith
  · have hscaled : (4722366482869645 : ℚ) < m := by
      norm_num at hlt
      linarith
    have hnext : (4722366482869646 : ℚ) ≤ m := by exact_mod_cast hscaled
    norm_num
    linarith
  · -- On a coarser grid every number is greater.
    have hlow : (2 : ℚ) ^ 52 ≤ m := by
      exact_mod_cast hnormal.resolve_right (by unfold minExponent; omega)
    have hpow : (2 : ℚ) ^ (-72 : ℤ) ≤ 2 ^ e := zpow_le_zpow_right₀ (by decide) (by omega)
    have hle : (2 : ℚ) ^ 52 * 2 ^ (-72 : ℤ) ≤ m * 2 ^ e :=
      mul_le_mul hlow hpow (by positivity) (by positivity)
    norm_num at hle ⊢
    linarith

theorem restOf_of_lt_one (h : (finite false m e).Canonical) (hone : (m : ℚ) * 2 ^ e < 1) :
    restOf m e = ofRatio false ((ratio m e).1 * perSecond) (ratio m e).2 := by
  rw [restOf, fraction_of_lt_one h hone, scaleBy_finite]

theorem roundSeconds_of_le_half (h : (finite false m e).Canonical)
    (hle : (m : ℚ) * 2 ^ e ≤ 1 / 2000000) :
    roundSeconds (finite false m e) = 0 := by
  have hone : (m : ℚ) * 2 ^ e < 1 := by linarith
  obtain ⟨k, l, hrest, hkl⟩ : (restOf m e).AtMost (1 / 2) :=
    restOf_atMost ⟨m, e, fraction_of_lt_one h hone, hle⟩ stored_half (by norm_num [perSecond])
  have hcanonical : (finite false k l).Canonical := by
    rw [← hrest, restOf_of_lt_one h hone]
    exact canonical_ofRatio false _ (ratio_spec m e).1
  rw [roundSeconds_finite, hrest, truncate_finite, fraction_of_lt_one hcanonical (by linarith),
    Nat.floor_eq_zero.mpr hone, Nat.floor_eq_zero.mpr (by linarith)]
  exact (addFraction_zero_iff k l).mpr hkl

theorem roundSeconds_pos_of_half_lt (h : (finite false m e).Canonical)
    (hlt : (1 : ℚ) / 2000000 < m * 2 ^ e) :
    0 < roundSeconds (finite false m e) := by
  obtain ⟨k, l, hrest, -⟩ := restOf_atMost_million m e
  have hbounds := (roundSeconds_bounds hrest).1
  rcases le_or_gt 1 ((m : ℚ) * 2 ^ e) with hmany | hone
  · -- There is a whole second.
    have hfloor : 1 ≤ ⌊(m : ℚ) * 2 ^ e⌋₊ := Nat.le_floor (by exact_mod_cast hmany)
    have hsecond : 1 * perSecond ≤ ⌊(m : ℚ) * 2 ^ e⌋₊ * perSecond := Nat.mul_le_mul_right _ hfloor
    simp only [perSecond] at hsecond hbounds
    omega
  rcases le_or_gt 1 ((k : ℚ) * 2 ^ l) with hmicro | hsmall
  · -- There is a whole microsecond.
    have hfloor : 1 ≤ ⌊(k : ℚ) * 2 ^ l⌋₊ := Nat.le_floor (by exact_mod_cast hmicro)
    simp only [perSecond] at hbounds
    omega
  · -- The first rounding leaves more than half of one.
    have hnext : ofRatio false (4722366482869646 * perSecond) (2 ^ 73) = finite false (2 ^ 52 + 1)
        (-53) := by
      decide +kernel
    obtain ⟨hpos, hratio⟩ := ratio_spec m e
    have hscaled : ((4722366482869646 * perSecond : ℕ) : ℚ) / (2 ^ 73 : ℕ) ≤
        ((ratio m e).1 * perSecond : ℕ) / (ratio m e).2 := by
      rw [Nat.cast_mul, Nat.cast_mul, mul_div_right_comm, mul_div_right_comm, hratio]
      exact mul_le_mul_of_nonneg_right (next_le_of_half_lt h hlt) (Nat.cast_nonneg _)
    have hrounded := ofRatio_mono false (by decide) hpos hscaled hnext
    rw [← restOf_of_lt_one h hone, hrest] at hrounded
    have hhalf : (1 : ℚ) / 2 < k * 2 ^ l := by
      rcases hrounded with hinfinite | ⟨k', l', heq, hle⟩
      · cases hinfinite
      · cases heq
        norm_num at hle
        linarith
    have hcanonical : (finite false k l).Canonical := by
      rw [← hrest, restOf_of_lt_one h hone]
      exact canonical_ofRatio false _ hpos
    have hzero : roundSeconds (finite false m e) = addFraction 0 (finite false k l) := by
      rw [roundSeconds_finite, hrest, truncate_finite, fraction_of_lt_one hcanonical hsmall,
        Nat.floor_eq_zero.mpr hone, Nat.floor_eq_zero.mpr hsmall]
      rfl
    rw [hzero]
    refine lt_of_le_of_ne (addFraction_bounds 0 k l).1 fun heq => ?_
    exact absurd ((addFraction_zero_iff k l).mp heq.symm) (not_le.mpr hhalf)

/-- Seconds become no microseconds at all when they are half a microsecond or less. -/
theorem roundSeconds_eq_zero_iff (h : (finite false m e).Canonical) :
    roundSeconds (finite false m e) = 0 ↔ (m : ℚ) * 2 ^ e ≤ 1 / 2000000 := by
  constructor
  · intro hzero
    by_contra hlt
    exact absurd hzero (roundSeconds_pos_of_half_lt h (not_le.mp hlt)).ne'
  · exact roundSeconds_of_le_half h

/-! ### Long durations -/

/-- Durations are below this number of seconds. -/
def secondLimit : ℕ := 86400 * dayLimit

theorem secondLimit_eq : secondLimit = 86400000000000 := rfl

theorem limit_le_roundSeconds (hle : (secondLimit : ℚ) ≤ m * 2 ^ e) :
    (secondLimit * perSecond : ℤ) ≤ roundSeconds (finite false m e) := by
  obtain ⟨k, l, hrest, -⟩ := restOf_atMost_million m e
  have hbounds := (roundSeconds_bounds hrest).1
  have hfloor : secondLimit ≤ ⌊(m : ℚ) * 2 ^ e⌋₊ := Nat.le_floor hle
  have hsecond : secondLimit * perSecond ≤ ⌊(m : ℚ) * 2 ^ e⌋₊ * perSecond :=
    Nat.mul_le_mul_right _ hfloor
  simp only [perSecond, secondLimit_eq] at hsecond hbounds ⊢
  omega

theorem grid_of_limit (h : (finite false m e).Canonical) (hle : (secondLimit : ℚ) ≤ m * 2 ^ e + 1) :
    -6 ≤ e := by
  by_contra hfine
  have hm : (m : ℚ) < 2 ^ 53 := by exact_mod_cast h.1
  have hpow : (2 : ℚ) ^ e ≤ 2 ^ (-7 : ℤ) := zpow_le_zpow_right₀ (by decide) (by omega)
  have hbound : (m : ℚ) * 2 ^ e ≤ 2 ^ 53 * 2 ^ (-7 : ℤ) :=
    mul_le_mul hm.le hpow (by positivity) (by positivity)
  rw [secondLimit_eq] at hle
  norm_num at hbound hle
  linarith

theorem roundSeconds_lt_limit (h : (finite false m e).Canonical)
    (hlt : (m : ℚ) * 2 ^ e < secondLimit) :
    roundSeconds (finite false m e) < secondLimit * perSecond := by
  have hfloor : ⌊(m : ℚ) * 2 ^ e⌋₊ < secondLimit := (Nat.floor_lt (by positivity)).mpr hlt
  rcases Nat.lt_or_ge (⌊(m : ℚ) * 2 ^ e⌋₊ + 1) secondLimit with hfar | hnear
  · obtain ⟨k, l, hrest, hkl⟩ := restOf_atMost_million m e
    have hbounds := (roundSeconds_bounds hrest).2
    have hmicros : ⌊(k : ℚ) * 2 ^ l⌋₊ ≤ 1000000 := Nat.floor_le_of_le (by exact_mod_cast hkl)
    simp only [perSecond, secondLimit_eq] at hbounds hfar ⊢
    omega
  · -- In the last second the fraction is a step away from one.
    have hgrid : -6 ≤ e := by
      refine grid_of_limit h ?_
      have hle : (⌊(m : ℚ) * 2 ^ e⌋₊ : ℚ) ≤ m * 2 ^ e := Nat.floor_le (by positivity)
      have hcast : (secondLimit : ℚ) ≤ ⌊(m : ℚ) * 2 ^ e⌋₊ + 1 := by exact_mod_cast hnear
      linarith
    have hstored : Stored 984375 :=
      ⟨984375 * 2 ^ 33, -33, ⟨by decide, by decide, by decide, .inl (by decide)⟩, by norm_num⟩
    obtain ⟨k, l, hrest, hkl⟩ : (restOf m e).AtMost 984375 :=
      restOf_atMost (fraction_atMost_of_grid hgrid) hstored (by norm_num [perSecond])
    have hbounds := (roundSeconds_bounds hrest).2
    have hmicros : ⌊(k : ℚ) * 2 ^ l⌋₊ ≤ 984375 := Nat.floor_le_of_le (by exact_mod_cast hkl)
    simp only [perSecond, secondLimit_eq] at hbounds hfloor ⊢
    omega

/-- Seconds are too many microseconds when they are too many seconds. -/
theorem limit_le_roundSeconds_iff (h : (finite false m e).Canonical) :
    (secondLimit * perSecond : ℤ) ≤ roundSeconds (finite false m e) ↔
      (secondLimit : ℚ) ≤ m * 2 ^ e := by
  constructor
  · intro hle
    by_contra hlt
    exact absurd hle (not_le.mpr (roundSeconds_lt_limit h (not_le.mp hlt)))
  · exact limit_le_roundSeconds

/-! ### Durations of seconds -/

theorem ofMicros_of_nonneg {micros : ℤ} (h : 0 ≤ micros) : ofMicros micros =
    if micros < secondLimit * perSecond then .ok ⟨micros⟩ else .error .tooLong := by
  have hdays : (-(dayLimit : ℤ) < micros / perDay ∧ micros / perDay < dayLimit) ↔
      micros < secondLimit * perSecond := by
    simp only [perDay, perSecond, dayLimit, secondLimit]
    omega
  unfold ofMicros
  dsimp only
  rw [if_congr hdays rfl rfl]

theorem ofSeconds_finite (h : (finite false m e).Canonical) : ofSeconds (finite false m e) =
    if (m : ℚ) * 2 ^ e < secondLimit then
      .ok ⟨roundSeconds (finite false m e)⟩
    else .error .tooLong := by
  rw [ofSeconds, ofMicros_of_nonneg (roundSeconds_nonneg m e)]
  refine if_congr ?_ rfl rfl
  rw [← not_le, ← not_le, limit_le_roundSeconds_iff h]

end Duration

/-! ### Whole seconds -/

namespace Double

open Duration (secondLimit)

theorem ofRatio_cases (negative : Bool) (num den : ℕ) :
    ofRatio negative num den = .infinite negative ∨
      ∃ m e, ofRatio negative num den = .finite negative m e := by
  unfold ofRatio ofMantissa zero
  dsimp only
  split_ifs <;> simp

theorem not_atLeast_ofRatio {bound : ℚ} (hbound : 0 < bound) (num den : ℕ) :
    ¬ (ofRatio true num den).AtLeast bound := by
  rcases ofRatio_cases true num den with heq | ⟨m, e, heq⟩
  · rw [heq]
    simp [AtLeast, worth]
  · rw [heq]
    exact not_atLeast_below hbound m e

theorem secondLimit_pos : (0 : ℚ) < secondLimit := by
  rw [Duration.secondLimit_eq]
  norm_num

theorem stored_secondLimit : Stored secondLimit :=
  ⟨86400000000000 * 2 ^ 6, -6, ⟨by decide, by decide, by decide, .inl (by decide)⟩, by
    rw [Duration.secondLimit_eq]
    norm_num⟩

theorem stored_below_secondLimit : Stored (secondLimit - 1) :=
  ⟨86399999999999 * 2 ^ 6, -6, ⟨by decide, by decide, by decide, .inl (by decide)⟩, by
    rw [Duration.secondLimit_eq]
    norm_num⟩

/-- Rounding does not take whole seconds past the limit, or back from it. -/
theorem ofInt_atLeast_iff (n : ℤ) : (ofInt n).AtLeast secondLimit ↔ (secondLimit : ℤ) ≤ n := by
  rcases lt_or_ge n 0 with hneg | hnonneg
  · rw [ofInt, decide_eq_true hneg]
    exact iff_of_false (not_atLeast_ofRatio secondLimit_pos _ _) (by omega)
  rw [ofInt, decide_eq_false (not_lt.mpr hnonneg)]
  have hn : ((n.natAbs : ℕ) : ℚ) / (1 : ℕ) = n.natAbs := by rw [Nat.cast_one, div_one]
  constructor
  · intro hatLeast
    by_contra hlt
    have hle : (n.natAbs : ℚ) ≤ secondLimit - 1 := by
      rw [le_sub_iff_add_le]
      exact_mod_cast (by omega : n.natAbs + 1 ≤ secondLimit)
    have hatMost := ofRatio_atMost Nat.one_pos stored_below_secondLimit (hn.trans_le hle)
    have := hatMost.atLeast_le hatLeast
    linarith
  · intro hle
    refine ofRatio_atLeast Nat.one_pos stored_secondLimit ?_
    rw [hn]
    exact_mod_cast (by omega : secondLimit ≤ n.natAbs)

theorem ofInt_eq_infinite_iff (n : ℤ) :
    (∃ negative, ofInt n = .infinite negative) ↔ overflow ≤ n.natAbs := by
  have hround : ofInt n = .infinite (decide (n < 0)) ↔ (overflow : ℚ) ≤ n.natAbs / (1 : ℕ) :=
    ofRatio_eq_infinite_iff _ Nat.one_pos
  rw [Nat.cast_one, div_one, Nat.cast_le] at hround
  rw [← hround]
  refine ⟨fun ⟨negative, h⟩ => ?_, fun h => ⟨_, h⟩⟩
  rw [ofInt] at h
  rcases ofRatio_cases (decide (n < 0)) n.natAbs 1 with heq | ⟨m, e, heq⟩
  · exact heq
  · rw [h] at heq
    cases heq

end Double
end AccessControl
