import AccessControl.Text.Numeral
import Mathlib

/-! # Numerals are read back

The numeral of a whole number is a run of ASCII digits, after a sign for negative ones.  It
determines the number (`intText_injective`), and it is read as the number while it is not too
long (`readInt_intText`). -/

namespace AccessControl.Text

/-! ### Runs of digits -/

theorem isAsciiDigit_of_isDigit {c : Char} (h : c.isDigit = true) : isAsciiDigit c = true := by
  obtain ⟨hlow, hhigh⟩ := Char.isDigit_iff_toNat.mp h
  simp only [isAsciiDigit, Bool.and_eq_true, decide_eq_true_eq]
  exact ⟨hlow, hhigh⟩

theorem isAsciiDigit_of_mem_toDigits {n : ℕ} {c : Char} (h : c ∈ Nat.toDigits 10 n) :
    isAsciiDigit c = true :=
  isAsciiDigit_of_isDigit (Nat.isDigit_of_mem_toDigits (by decide) (by decide) h)

theorem ofDigitsFrom_map (cs : List Char) (acc : ℕ) :
    ofDigitsFrom acc (cs.map fun c => c.toNat - 48) = Nat.ofDigitChars 10 cs acc := by
  induction cs generalizing acc with
  | nil => simp [ofDigitsFrom]
  | cons c cs ih =>
      rw [List.map_cons, ofDigitsFrom, ih, Nat.ofDigitChars_cons]
      rfl

theorem ofDigitRun_eq (cs : List Char) : ofDigitRun cs = Nat.ofDigitChars 10 cs 0 :=
  ofDigitsFrom_map cs 0

theorem ofDigitRun_toDigits (n : ℕ) : ofDigitRun (Nat.toDigits 10 n) = n := by
  rw [ofDigitRun_eq, Nat.ofDigitChars_ten_toDigits]

theorem ofDigitRun_zeros_append (k : ℕ) (cs : List Char) :
    ofDigitRun (List.replicate k '0' ++ cs) = ofDigitRun cs := by
  rw [ofDigitRun_eq, Nat.ofDigitChars_append, Nat.ofDigitChars_replicate_zero, mul_zero,
    ofDigitRun_eq]

theorem ofDigitRun_append_zeros (cs : List Char) (k : ℕ) :
    ofDigitRun (cs ++ List.replicate k '0') = ofDigitRun cs * 10 ^ k := by
  rw [ofDigitRun_eq, Nat.ofDigitChars_append, Nat.ofDigitChars_replicate_zero, mul_comm,
    ofDigitRun_eq]

theorem ofDigitsFrom_lt {cs : List Char} (h : ∀ c ∈ cs, isAsciiDigit c = true) (acc : ℕ) :
    ofDigitsFrom acc (cs.map fun c => c.toNat - 48) < (acc + 1) * 10 ^ cs.length := by
  induction cs generalizing acc with
  | nil => simp [ofDigitsFrom]
  | cons c cs ih =>
      obtain ⟨hc, hrest⟩ := List.forall_mem_cons.mp h
      have hdigit : c.toNat - 48 ≤ 9 := by
        simp only [isAsciiDigit, Bool.and_eq_true, decide_eq_true_eq] at hc
        omega
      rw [List.map_cons, ofDigitsFrom, List.length_cons, pow_succ']
      calc ofDigitsFrom (10 * acc + (c.toNat - 48)) (cs.map fun c => c.toNat - 48)
          < (10 * acc + (c.toNat - 48) + 1) * 10 ^ cs.length := ih hrest _
        _ ≤ ((acc + 1) * 10) * 10 ^ cs.length := Nat.mul_le_mul_right _ (by omega)
        _ = (acc + 1) * (10 * 10 ^ cs.length) := by rw [mul_assoc]

theorem ofDigitRun_lt {cs : List Char} (h : ∀ c ∈ cs, isAsciiDigit c = true) :
    ofDigitRun cs < 10 ^ cs.length := by
  simpa [ofDigitRun, ofDigits] using ofDigitsFrom_lt h 0

theorem toDigits_injective {m n : ℕ} (h : Nat.toDigits 10 m = Nat.toDigits 10 n) : m = n := by
  rw [← ofDigitRun_toDigits m, h, ofDigitRun_toDigits]

/-- The numeral of a positive number does not begin with a zero. -/
theorem toDigits_head_ne_zero (n : ℕ) (hn : 0 < n) : ∀ rest, Nat.toDigits 10 n ≠ '0' :: rest := by
  induction n using Nat.strong_induction_on with
  | _ n ih =>
      intro rest h
      by_cases hlt : n < 10
      · rw [Nat.toDigits_of_lt_base hlt] at h
        have hc : n.digitChar = '0' := (List.cons.inj h).1
        interval_cases n <;> simp [Nat.digitChar] at hc
      · rw [Nat.toDigits_of_base_le (by decide) (by omega)] at h
        cases hq : Nat.toDigits 10 (n / 10) with
        | nil => exact Nat.toDigits_ne_nil hq
        | cons c cs =>
            rw [hq, List.cons_append] at h
            obtain ⟨rfl, -⟩ := List.cons.inj h
            exact ih (n / 10) (by omega) (by omega) cs hq

theorem digitValue_of_isAsciiDigit {c : Char} (h : isAsciiDigit c = true) :
    digitValue c = some (c.toNat - 48) := by
  have hle : c.toNat ≤ 57 := by
    simp only [isAsciiDigit, Bool.and_eq_true, decide_eq_true_eq] at h
    exact h.2
  unfold digitValue
  rw [if_pos (by omega : c.toNat < 0x80), if_pos h]

/-! ### Whole numbers -/

theorem intText_toList (n : ℤ) :
    (intText n).toList = if n < 0 then '-' :: Nat.toDigits 10 n.natAbs
      else Nat.toDigits 10 n.natAbs := by
  unfold intText natText
  split <;> simp

theorem mem_intText {n : ℤ} {c : Char} (h : c ∈ (intText n).toList) :
    c = '-' ∨ isAsciiDigit c = true := by
  rw [intText_toList] at h
  split at h
  · rcases List.mem_cons.mp h with h | h
    · exact .inl h
    · exact .inr (isAsciiDigit_of_mem_toDigits h)
  · exact .inr (isAsciiDigit_of_mem_toDigits h)

theorem not_minus_mem_toDigits {n : ℕ} {cs : List Char} : Nat.toDigits 10 n ≠ '-' :: cs := by
  intro h
  have hd : isAsciiDigit '-' = true :=
    isAsciiDigit_of_mem_toDigits (n := n) (h ▸ List.mem_cons_self)
  exact absurd hd (by decide)

theorem intText_injective {m n : ℤ} (h : intText m = intText n) : m = n := by
  have hl : (intText m).toList = (intText n).toList := by rw [h]
  rw [intText_toList, intText_toList] at hl
  split at hl <;> split at hl
  · have := toDigits_injective (List.cons.inj hl).2
    omega
  · exact absurd hl.symm not_minus_mem_toDigits
  · exact absurd hl not_minus_mem_toDigits
  · have := toDigits_injective hl
    omega

/-! ### Reading -/

/-- A numeral that is not too long to be read. -/
def Short (n : ℤ) : Prop := n.natAbs < 10 ^ digitLimit

theorem length_toDigits_le_iff {n : ℤ} : (Nat.toDigits 10 n.natAbs).length ≤ digitLimit ↔ Short n :=
  Nat.length_toDigits_le_iff (by decide) (by decide)

theorem isOverlong_iff {n : ℤ} : isOverlong n = true ↔ ¬Short n := by
  rw [isOverlong, decide_eq_true_iff, ← length_toDigits_le_iff, not_le]

theorem trim_eq_self {p : Char → Bool} {cs : List Char} (h : ∀ c ∈ cs, p c = false) :
    trim p cs = cs := by
  have hdrop : ∀ ds : List Char, (∀ c ∈ ds, p c = false) → ds.dropWhile p = ds := by
    intro ds hds
    cases ds with
    | nil => rfl
    | cons d ds => rw [List.dropWhile_cons_of_neg (by simp [hds d List.mem_cons_self])]
  rw [trim, hdrop cs h, hdrop cs.reverse fun c hc => h c (List.mem_reverse.mp hc),
    List.reverse_reverse]

theorem isSpace_of_digit {c : Char} (h : c = '-' ∨ isAsciiDigit c = true) : isSpace c = false := by
  rcases h with rfl | h
  · decide
  · simp only [isAsciiDigit, Bool.and_eq_true, decide_eq_true_eq] at h
    have hb : isBlank c = false := by
      simp only [isBlank, Bool.or_eq_false_iff, Bool.and_eq_false_iff, beq_eq_false_iff_ne,
        decide_eq_false_iff_not]
      omega
    simp [isSpace, hb]

theorem takeDigits_run (cs : List Char) (h : ∀ c ∈ cs, isAsciiDigit c = true) (afterDigit : Bool)
    (hne : afterDigit = true ∨ cs ≠ []) :
    takeDigits afterDigit cs = some (cs.map fun c => c.toNat - 48, []) := by
  induction cs generalizing afterDigit with
  | nil =>
      have : afterDigit = true := hne.resolve_right (by simp)
      simp [takeDigits, this]
  | cons c cs ih =>
      rw [takeDigits.eq_def]
      dsimp only
      rw [digitValue_of_isAsciiDigit (h c List.mem_cons_self)]
      simp [ih (fun d hd => h d (List.mem_cons_of_mem c hd)) true (.inl rfl)]

theorem takeSign_toDigits (n : ℕ) : takeSign (Nat.toDigits 10 n) = (false, Nat.toDigits 10 n) := by
  cases h : Nat.toDigits 10 n with
  | nil => rfl
  | cons c cs =>
      have hd : isAsciiDigit c = true :=
        isAsciiDigit_of_mem_toDigits (n := n) (h ▸ List.mem_cons_self)
      unfold takeSign
      split
      · exact absurd hd (by simp_all [isAsciiDigit])
      · exact absurd hd (by simp_all [isAsciiDigit])
      · rfl

theorem readInt_intText {n : ℤ} (h : Short n) : readInt (intText n) = .ok n := by
  have hlen := length_toDigits_le_iff.mpr h
  have htrim : trim isSpace (intText n).toList = (intText n).toList :=
    trim_eq_self fun c hc => isSpace_of_digit (mem_intText hc)
  have hrun :=
    takeDigits_run (Nat.toDigits 10 n.natAbs) (fun c hc => isAsciiDigit_of_mem_toDigits hc) false
    (.inr Nat.toDigits_ne_nil)
  have hvalue : ofDigits ((Nat.toDigits 10 n.natAbs).map fun c => c.toNat - 48) = n.natAbs :=
    ofDigitRun_toDigits n.natAbs
  unfold readInt
  rw [htrim, intText_toList]
  by_cases hneg : n < 0
  · simp only [hneg, if_true, takeSign, hrun, List.length_map, Nat.not_lt.mpr hlen, if_false,
      List.isEmpty_nil, hvalue]
    congr 1
    omega
  · simp only [hneg, if_false, takeSign_toDigits, hrun, List.length_map, Nat.not_lt.mpr hlen,
      List.isEmpty_nil, hvalue, if_true, Bool.false_eq_true]
    congr 1
    omega

end AccessControl.Text
