import AccessControl.Proofs.Numeric.Rounding
import Mathlib

/-! # Rounding keeps the order

The double nearest to a quotient is in its stored form (`Double.canonical_ofRatio`), and rounding
keeps the order of quotients (`Double.rounded_mono`): on one grid the nearest number does not go
back, and between two grids lies a power of two that neither side passes.  So rounding never passes
a stored number (`Double.ofRatio_le`, `Double.le_ofRatio`), and it leads to an infinity from the
middle between the greatest number and the next power of two on
(`Double.ofRatio_eq_infinite_iff`). -/

namespace AccessControl.Double

/-! ### Nearest integers -/

theorem div_le_divRoundEven (num den : ℕ) : num / den ≤ divRoundEven num den := by
  unfold divRoundEven
  dsimp only
  split_ifs <;> omega

theorem divRoundEven_le (num den : ℕ) : divRoundEven num den ≤ num / den + 1 := by
  unfold divRoundEven
  dsimp only
  split_ifs <;> omega

theorem divRoundEven_le_divRoundEven {num num' : ℕ} (den : ℕ) (h : num ≤ num') :
    divRoundEven num den ≤ divRoundEven num' den := by
  rcases Nat.lt_or_eq_of_le (Nat.div_le_div_right (c := den) h) with hlt | heq
  · exact (divRoundEven_le num den).trans (hlt.trans_le (div_le_divRoundEven num' den))
  · -- With equal integer parts the remainders decide.
    have hnum := Nat.div_add_mod num den
    have hnum' := Nat.div_add_mod num' den
    rw [heq] at hnum
    unfold divRoundEven
    dsimp only
    rw [heq]
    split_ifs <;> omega

theorem divRoundEven_mono {num den num' den' : ℕ} (hden : 0 < den) (hden' : 0 < den')
    (h : num * den' ≤ num' * den) :
    divRoundEven num den ≤ divRoundEven num' den' := by
  rw [← divRoundEven_mul_left hden', ← divRoundEven_mul_left hden num' den', mul_comm den' den]
  exact divRoundEven_le_divRoundEven _ (by rwa [mul_comm den', mul_comm den])

theorem le_divRoundEven_of_le {num den k : ℕ} (hden : 0 < den) (h : k * den ≤ num) :
    k ≤ divRoundEven num den := by
  have hmono := divRoundEven_le_divRoundEven den h
  rwa [divRoundEven_self hden] at hmono

theorem divRoundEven_le_of_le {num den k : ℕ} (hden : 0 < den) (h : num ≤ k * den) :
    divRoundEven num den ≤ k := by
  have hmono := divRoundEven_le_divRoundEven den h
  rwa [divRoundEven_self hden] at hmono

/-- What is below the middle between two integers is not rounded up. -/
theorem divRoundEven_le_of_lt_middle {num den k : ℕ} (h : 2 * num < (2 * k + 1) * den) :
    divRoundEven num den ≤ k := by
  have hden : 0 < den := Nat.pos_of_ne_zero (by rintro rfl; simp at h)
  have hdiv := Nat.div_add_mod num den
  have hmod := Nat.mod_lt num hden
  have hquotient : num / den ≤ k := by
    rw [Nat.div_le_iff_le_mul_add_pred hden]
    have : (2 * k + 1) * den = 2 * (den * k) + den := by ring
    omega
  rcases Nat.lt_or_eq_of_le hquotient with hlt | heq
  · exact (divRoundEven_le num den).trans hlt
  · rw [heq] at hdiv
    have hlow : 2 * (num % den) < den := by
      have : (2 * k + 1) * den = 2 * (den * k) + den := by ring
      omega
    unfold divRoundEven
    dsimp only
    rw [if_pos hlow, heq]

/-! ### Quotients on their grids -/

section

variable {num den num' den' : ℕ}

/-- How often the step of its grid a quotient is taken. -/
def gridMantissa (num den : ℕ) : ℕ :=
  divRoundEven (scaleRatio num den (gridExponent num den)).1
    (scaleRatio num den (gridExponent num den)).2

/-- The number on the grid of a quotient that is nearest to it. -/
def rounded (num den : ℕ) : ℚ := gridMantissa num den * 2 ^ gridExponent num den

theorem quotient_lt_grid (hnum : 0 < num) (hden : 0 < den) :
    (num : ℚ) / den < 2 ^ (gridExponent num den + 53) := by
  have hlog : (num : ℚ) / den < 2 ^ (Int.log 2 ((num : ℚ) / den) + 1) := by
    exact_mod_cast Int.lt_zpow_succ_log_self (b := 2) (by decide) ((num : ℚ) / den)
  refine hlog.trans_le (zpow_le_zpow_right₀ (by decide) ?_)
  rw [gridExponent_eq hnum hden]
  omega

theorem grid_le_quotient (hnum : 0 < num) (hden : 0 < den) :
    gridExponent num den = minExponent ∨ (2 : ℚ) ^ (gridExponent num den + 52) ≤ num / den := by
  have hpos : (0 : ℚ) < num / den := div_pos (by exact_mod_cast hnum) (by exact_mod_cast hden)
  have hlog : (2 : ℚ) ^ Int.log 2 ((num : ℚ) / den) ≤ num / den := by
    exact_mod_cast Int.zpow_log_le_self (by decide) hpos
  have hgrid := gridExponent_eq hnum hden
  rcases le_or_gt (Int.log 2 ((num : ℚ) / den) - 52) minExponent with hfine | hcoarse
  · exact .inl (by rw [hgrid, max_eq_right hfine])
  · refine .inr (le_of_eq_of_le ?_ hlog)
    rw [hgrid, max_eq_left hcoarse.le, sub_add_cancel]

theorem min_le_gridExponent (hnum : 0 < num) (hden : 0 < den) :
    minExponent ≤ gridExponent num den := by
  rw [gridExponent_eq hnum hden]
  exact le_max_right _ _

theorem gridMantissa_le (hnum : 0 < num) (hden : 0 < den) : gridMantissa num den ≤ 2 ^ 53 := by
  obtain ⟨hpos, hscaled⟩ := scaleRatio_spec num hden (gridExponent num den)
  have hlt := quotient_lt_grid hnum hden
  rw [add_comm, zpow_add₀ (by decide), ← div_lt_iff₀ (zpow_pos (by decide) _), ← hscaled,
    div_lt_iff₀ (by exact_mod_cast hpos)] at hlt
  exact divRoundEven_le_of_le hpos (by exact_mod_cast hlt.le)

theorem le_gridMantissa (hnum : 0 < num) (hden : 0 < den) :
    gridExponent num den = minExponent ∨ 2 ^ 52 ≤ gridMantissa num den := by
  obtain ⟨hpos, hscaled⟩ := scaleRatio_spec num hden (gridExponent num den)
  refine (grid_le_quotient hnum hden).imp id fun hle => ?_
  rw [add_comm, zpow_add₀ (by decide), ← le_div_iff₀ (zpow_pos (by decide) _), ← hscaled,
    le_div_iff₀ (by exact_mod_cast hpos)] at hle
  exact le_divRoundEven_of_le hpos (by exact_mod_cast hle)

/-- Rounding keeps the order of quotients. -/
theorem rounded_mono (hnum : 0 < num) (hden : 0 < den) (hnum' : 0 < num') (hden' : 0 < den')
    (h : (num : ℚ) / den ≤ num' / den') : rounded num den ≤ rounded num' den' := by
  have hgrid : gridExponent num den ≤ gridExponent num' den' := by
    have hpos : (0 : ℚ) < num / den := div_pos (by exact_mod_cast hnum) (by exact_mod_cast hden)
    rw [gridExponent_eq hnum hden, gridExponent_eq hnum' hden']
    have := Int.log_mono_right (b := 2) hpos h
    omega
  unfold rounded
  rcases hgrid.lt_or_eq with hlt | heq
  · -- A power of two lies between numbers on two grids.
    have hfull : 2 ^ 52 ≤ gridMantissa num' den' :=
      (le_gridMantissa hnum' hden').resolve_left
        (ne_of_gt ((min_le_gridExponent hnum hden).trans_lt hlt))
    calc (gridMantissa num den : ℚ) * 2 ^ gridExponent num den
        ≤ 2 ^ (53 : ℤ) * 2 ^ gridExponent num den := by
          gcongr
          exact_mod_cast gridMantissa_le hnum hden
      _ = 2 ^ (53 + gridExponent num den) := (zpow_add₀ (by decide) _ _).symm
      _ ≤ 2 ^ (52 + gridExponent num' den') := zpow_le_zpow_right₀ (by decide) (by omega)
      _ = 2 ^ (52 : ℤ) * 2 ^ gridExponent num' den' := zpow_add₀ (by decide) _ _
      _ ≤ gridMantissa num' den' * 2 ^ gridExponent num' den' := by
          gcongr
          exact_mod_cast hfull
  · obtain ⟨hpos, hscaled⟩ := scaleRatio_spec num hden (gridExponent num den)
    obtain ⟨hpos', hscaled'⟩ := scaleRatio_spec num' hden' (gridExponent num' den')
    have hquotients : ((scaleRatio num den (gridExponent num den)).1 : ℚ) /
        (scaleRatio num den (gridExponent num den)).2 ≤
        (scaleRatio num' den' (gridExponent num' den')).1 /
          (scaleRatio num' den' (gridExponent num' den')).2 := by
      rw [hscaled, hscaled', heq]
      gcongr
    rw [div_le_div_iff₀ (by exact_mod_cast hpos) (by exact_mod_cast hpos')] at hquotients
    rw [heq]
    gcongr
    exact divRoundEven_mono hpos hpos' (by exact_mod_cast hquotients)

/-! ### Stored numbers -/

/-- A number of the grid is stored as it is, or on a grid twice as coarse, unless that is too
coarse. -/
theorem ofMantissa_spec (negative : Bool) {m : ℕ} {e : ℤ} (hm : m ≤ 2 ^ 53) (hmin : minExponent ≤ e)
    (hnormal : e = minExponent ∨ 2 ^ 52 ≤ m) : ∃ (m' : ℕ) (e' : ℤ), (m' : ℚ) * 2 ^ e' = m * 2 ^ e ∧
      m' < 2 ^ 53 ∧ minExponent ≤ e' ∧ (2 ^ 52 ≤ m' ∨ e' = minExponent) ∧
      ofMantissa negative m e = if maxExponent < e' then .infinite negative
        else .finite negative m' e' := by
  by_cases hfull : m = 2 ^ 53
  · refine ⟨2 ^ 52, e + 1, ?_, by decide, by omega, .inl le_rfl, ?_⟩
    · rw [hfull, zpow_add_one₀ (by decide)]
      push_cast
      ring
    · have hpow : m = Nat.pow 2 precision := hfull
      rw [ofMantissa, if_pos hpow]
      rfl
  · refine ⟨m, e, rfl, by omega, hmin, hnormal.symm, ?_⟩
    have hpow : m ≠ Nat.pow 2 precision := hfull
    rw [ofMantissa, if_neg hpow]

/-- The nearest double is the nearest number on the grid, unless that is too great. -/
theorem ofRatio_spec (negative : Bool) (hnum : 0 < num) (hden : 0 < den) : ∃ (m : ℕ) (e : ℤ),
    (m : ℚ) * 2 ^ e = rounded num den ∧ m < 2 ^ 53 ∧ minExponent ≤ e ∧
      (2 ^ 52 ≤ m ∨ e = minExponent) ∧
      ofRatio negative num den = if maxExponent < e then .infinite negative
        else .finite negative m e := by
  rw [ofRatio, if_neg hnum.ne']
  exact ofMantissa_spec negative (gridMantissa_le hnum hden) (min_le_gridExponent hnum hden)
    (le_gridMantissa hnum hden)

theorem canonical_zero (negative : Bool) : (zero negative).Canonical := by
  refine ⟨by decide, le_rfl, by decide, .inr rfl⟩

/-- Rounding leads to numbers in their stored form. -/
theorem canonical_ofRatio (negative : Bool) (num : ℕ) (hden : 0 < den) :
    (ofRatio negative num den).Canonical := by
  rcases Nat.eq_zero_or_pos num with rfl | hnum
  · exact canonical_zero negative
  · obtain ⟨m, e, -, hm, hmin, hnormal, hround⟩ := ofRatio_spec negative hnum hden
    rw [hround]
    split
    · exact trivial
    · next hmax => exact ⟨hm, hmin, not_lt.mp hmax, hnormal⟩

theorem rounded_ratio {m : ℕ} {e : ℤ} (h : (finite false m e).Canonical) (hm : 0 < m) :
    rounded (ratio m e).1 (ratio m e).2 = m * 2 ^ e := by
  have hnum : 0 < (ratio m e).1 := Nat.pos_of_ne_zero (mt ratio_fst_eq_zero.mp hm.ne')
  obtain ⟨m', e', hrounded, -, -, -, hround⟩ := ofRatio_spec false hnum (ratio_spec m e).1
  rw [ofRatio_ratio h] at hround
  split at hround
  · cases hround
  · cases hround
    exact hrounded.symm

/-- The powers of two tell whether a number with a full mantissa fits. -/
theorem maxExponent_lt_iff {m : ℕ} {e : ℤ} (hm : m < 2 ^ 53)
    (hnormal : 2 ^ 52 ≤ m ∨ e = minExponent) :
    maxExponent < e ↔ (2 : ℚ) ^ (1024 : ℤ) ≤ m * 2 ^ e := by
  constructor
  · intro hbig
    have hfull : 2 ^ 52 ≤ m :=
      hnormal.resolve_right (by unfold minExponent; unfold maxExponent at hbig; omega)
    calc (2 : ℚ) ^ (1024 : ℤ) ≤ 2 ^ (52 + e) :=
        zpow_le_zpow_right₀ (by decide) (by unfold maxExponent at hbig; omega)
      _ = 2 ^ (52 : ℤ) * 2 ^ e := zpow_add₀ (by decide) _ _
      _ ≤ m * 2 ^ e := by
        gcongr
        exact_mod_cast hfull
  · intro hgreat
    by_contra hfits
    have hless : (m : ℚ) * 2 ^ e < 2 ^ (1024 : ℤ) := by
      calc (m : ℚ) * 2 ^ e < 2 ^ (53 : ℤ) * 2 ^ e := by
            gcongr
            exact_mod_cast hm
        _ = 2 ^ (53 + e) := (zpow_add₀ (by decide) _ _).symm
        _ ≤ 2 ^ (1024 : ℤ) :=
          zpow_le_zpow_right₀ (by decide) (by unfold maxExponent at hfits; omega)
    exact absurd hgreat (not_le.mpr hless)

/-- What is at most a stored number is rounded to at most that number. -/
theorem ofRatio_le (negative : Bool) (hden : 0 < den) {m : ℕ} {e : ℤ}
    (h : (finite false m e).Canonical) (hle : (num : ℚ) / den ≤ m * 2 ^ e) :
    ∃ m' e', ofRatio negative num den = .finite negative m' e' ∧ (m' : ℚ) * 2 ^ e' ≤ m * 2 ^ e := by
  have hnonneg : (0 : ℚ) ≤ m * 2 ^ e := by positivity
  rcases Nat.eq_zero_or_pos num with rfl | hnum
  · exact ⟨0, minExponent, rfl, by simpa using hnonneg⟩
  have hpos : (0 : ℚ) < m * 2 ^ e :=
    (div_pos (by exact_mod_cast hnum) (by exact_mod_cast hden)).trans_le hle
  have hm : 0 < m := Nat.pos_of_ne_zero (by rintro rfl; simp at hpos)
  obtain ⟨m', e', hrounded, hm', -, hnormal, hround⟩ := ofRatio_spec negative hnum hden
  have hmono :=
    rounded_mono hnum hden (Nat.pos_of_ne_zero (mt ratio_fst_eq_zero.mp hm.ne')) (ratio_spec m e).1
    (by rwa [(ratio_spec m e).2])
  rw [rounded_ratio h hm, ← hrounded] at hmono
  have hfits : ¬ maxExponent < e' := by
    intro hbig
    have hgreat := ((maxExponent_lt_iff hm' hnormal).mp hbig).trans hmono
    exact absurd ((maxExponent_lt_iff h.1 h.2.2.2).mpr hgreat) (not_lt.mpr h.2.2.1)
  exact ⟨m', e', by rw [hround, if_neg hfits], hmono⟩

/-- A greater quotient is rounded to a number that is not less. -/
theorem ofRatio_mono (negative : Bool) (hden : 0 < den) (hden' : 0 < den')
    (hle : (num : ℚ) / den ≤ num' / den') {m : ℕ} {e : ℤ}
    (hlow : ofRatio negative num den = .finite negative m e) :
    ofRatio negative num' den' = .infinite negative ∨
      ∃ m' e', ofRatio negative num' den' = .finite negative m' e' ∧
        (m : ℚ) * 2 ^ e ≤ m' * 2 ^ e' := by
  rcases Nat.eq_zero_or_pos num' with rfl | hnum'
  · have hnum : num = 0 := by
      by_contra hne
      have hpos : (0 : ℚ) < num / den :=
        div_pos (by exact_mod_cast Nat.pos_of_ne_zero hne) (by exact_mod_cast hden)
      rw [Nat.cast_zero, zero_div] at hle
      exact absurd hpos (not_lt.mpr hle)
    subst hnum
    exact .inr ⟨m, e, hlow, le_rfl⟩
  obtain ⟨m', e', hrounded', -, -, -, hround'⟩ := ofRatio_spec negative hnum' hden'
  have hmono : (m : ℚ) * 2 ^ e ≤ m' * 2 ^ e' := by
    rcases Nat.eq_zero_or_pos num with rfl | hnum
    · cases hlow
      rw [Nat.cast_zero, zero_mul]
      positivity
    · obtain ⟨m₁, e₁, hrounded, -, -, -, hround⟩ := ofRatio_spec negative hnum hden
      rw [hlow] at hround
      split at hround
      · cases hround
      · cases hround
        rw [hrounded, hrounded']
        exact rounded_mono hnum hden hnum' hden' hle
  by_cases hbig : maxExponent < e'
  · exact .inl (by rw [hround', if_pos hbig])
  · exact .inr ⟨m', e', by rw [hround', if_neg hbig], hmono⟩

/-- What is at least a stored number is rounded to at least that number. -/
theorem le_ofRatio (negative : Bool) (hden : 0 < den) {m : ℕ} {e : ℤ}
    (h : (finite negative m e).Canonical) (hle : (m : ℚ) * 2 ^ e ≤ num / den) :
    ofRatio negative num den = .infinite negative ∨
      ∃ m' e', ofRatio negative num den = .finite negative m' e' ∧ (m : ℚ) * 2 ^ e ≤ m' * 2 ^ e' :=
  ofRatio_mono negative (ratio_spec m e).1 hden (by rwa [(ratio_spec m e).2]) (ofRatio_ratio h)

/-! ### Infinities -/

theorem ofRatio_eq_infinite_iff_rounded (negative : Bool) (hnum : 0 < num) (hden : 0 < den) :
    ofRatio negative num den = .infinite negative ↔ (2 : ℚ) ^ (1024 : ℤ) ≤ rounded num den := by
  obtain ⟨m, e, hrounded, hm, -, hnormal, hround⟩ := ofRatio_spec negative hnum hden
  rw [hround, ← hrounded, ← maxExponent_lt_iff hm hnormal]
  by_cases hbig : maxExponent < e
  · simp [hbig]
  · simp [hbig]

/-- The middle between the greatest number and the next power of two. -/
def overflow : ℕ := 2 ^ 1024 - 2 ^ 970

theorem overflow_pos : 0 < overflow := by decide +kernel

theorem overflow_cast : (overflow : ℚ) = 2 ^ (1024 : ℤ) - 2 ^ (970 : ℤ) := by
  have hle : 2 ^ 970 ≤ 2 ^ 1024 := by decide +kernel
  rw [overflow, Nat.cast_sub hle, Nat.cast_pow, Nat.cast_pow]
  rfl

theorem rounded_lt_of_lt (hnum : 0 < num) (hden : 0 < den)
    (hlt : (num : ℚ) / den < 2 ^ (1024 : ℤ) - 2 ^ (970 : ℤ)) :
    rounded num den < 2 ^ (1024 : ℤ) := by
  have hgrid : gridExponent num den ≤ 971 := by
    rcases grid_le_quotient hnum hden with hfine | hle
    · rw [hfine]
      decide
    · by_contra hcoarse
      have hpow : (2 : ℚ) ^ (1024 : ℤ) ≤ 2 ^ (gridExponent num den + 52) :=
        zpow_le_zpow_right₀ (by decide) (by omega)
      have hhalf : (0 : ℚ) < 2 ^ (970 : ℤ) := by positivity
      exact absurd (hpow.trans hle) (not_le.mpr (hlt.trans (sub_lt_self _ hhalf)))
  rcases hgrid.lt_or_eq with hfine | hcoarsest
  · calc rounded num den ≤ 2 ^ (53 : ℤ) * 2 ^ gridExponent num den := by
          unfold rounded
          gcongr
          exact_mod_cast gridMantissa_le hnum hden
      _ = 2 ^ (53 + gridExponent num den) := (zpow_add₀ (by decide) _ _).symm
      _ < 2 ^ (1024 : ℤ) := zpow_lt_zpow_right₀ (by decide) (by omega)
  · -- On the coarsest grid the quotient stays below the middle before the next power of two.
    obtain ⟨hpos, hscaled⟩ := scaleRatio_spec num hden (gridExponent num den)
    have hmiddle : ((scaleRatio num den (gridExponent num den)).1 : ℚ) /
        (scaleRatio num den (gridExponent num den)).2 <
        (2 * (2 ^ 53 - 1 : ℕ) + 1) / 2 := by
      rw [hscaled, hcoarsest, div_lt_iff₀ (by positivity)]
      refine hlt.trans_eq ?_
      have hpow : (2 : ℚ) ^ (1024 : ℤ) = 2 ^ 54 * 2 ^ (970 : ℤ) := (zpow_add₀ (by decide) 54 970)
      have hpow' : (2 : ℚ) ^ (971 : ℤ) = 2 * 2 ^ (970 : ℤ) := (zpow_add₀ (by decide) 1 970)
      rw [hpow, hpow']
      generalize (2 : ℚ) ^ (970 : ℤ) = half
      push_cast
      ring
    rw [div_lt_div_iff₀ (by exact_mod_cast hpos) (by decide)] at hmiddle
    have hmantissa : gridMantissa num den ≤ 2 ^ 53 - 1 :=
      divRoundEven_le_of_lt_middle (by rw [mul_comm 2]; exact_mod_cast hmiddle)
    calc rounded num den ≤ (2 ^ 53 - 1 : ℕ) * 2 ^ (971 : ℤ) := by
          unfold rounded
          rw [hcoarsest]
          gcongr
      _ < 2 ^ (53 : ℤ) * 2 ^ (971 : ℤ) := by
          gcongr
          norm_num
      _ = 2 ^ (1024 : ℤ) := (zpow_add₀ (by decide) 53 971).symm

/-- Quotients from the middle between the greatest number and the next power of two on become
infinite. -/
theorem ofRatio_eq_infinite_iff (negative : Bool) (hden : 0 < den) :
    ofRatio negative num den = .infinite negative ↔ (overflow : ℚ) ≤ num / den := by
  rcases Nat.eq_zero_or_pos num with rfl | hnum
  · rw [Nat.cast_zero, zero_div]
    exact iff_of_false (by simp [ofRatio, zero]) (not_le.mpr (by exact_mod_cast overflow_pos))
  rw [ofRatio_eq_infinite_iff_rounded negative hnum hden]
  constructor
  · intro hgreat
    by_contra hlt
    rw [overflow_cast, not_le] at hlt
    exact absurd hgreat (not_le.mpr (rounded_lt_of_lt hnum hden hlt))
  · intro hle
    have hmiddle : ofRatio false overflow 1 = .infinite false := by decide +kernel
    rw [ofRatio_eq_infinite_iff_rounded false overflow_pos Nat.one_pos] at hmiddle
    refine hmiddle.trans (rounded_mono overflow_pos Nat.one_pos hnum hden (le_of_eq_of_le ?_ hle))
    rw [Nat.cast_one, div_one]

end

/-! ### Numbers that are read -/

theorem canonical_ofInt (n : ℤ) : (ofInt n).Canonical := canonical_ofRatio _ _ Nat.one_pos

theorem canonical_scaleBy (k : ℕ) (x : Double) : (x.scaleBy k).Canonical := by
  cases x with
  | nan => exact trivial
  | infinite negative => exact trivial
  | finite negative m e => exact canonical_ofRatio negative _ (ratio_spec m e).1

theorem canonical_toDouble (d : Decimal) : d.toDouble.Canonical := by
  unfold Decimal.toDouble
  dsimp only
  split_ifs
  · exact canonical_zero _
  · exact trivial
  · exact canonical_zero _
  · exact canonical_ofRatio _ _ Nat.one_pos
  · exact canonical_ofRatio _ _ (Nat.pow_pos (by decide))

/-- Numbers in a text are read in their stored form. -/
theorem canonical_read {s : String} {x : Double} (h : read s = some x) : x.Canonical := by
  unfold read readUnsigned at h
  dsimp only at h
  split at h
  · cases h
    exact trivial
  split at h
  · cases h
    exact trivial
  split at h
  · cases h
  split at h
  · cases h
  split at h
  · cases h
  split at h
  · cases h
    exact canonical_toDouble _
  · cases h

end AccessControl.Double
