import AnalysisProject.Number.Basic
import Mathlib.Algebra.Group.Nat.Defs

namespace AnalysisProject.Number

theorem scale_natCast (base n k : Nat) : scale base n k = n * base ^ k := rfl

theorem roundHalfEven_one (n : Nat) : roundHalfEven n 1 = n := by
  rw [roundHalfEven, Nat.div_one, Nat.mod_one]
  rfl

theorem div_le_roundHalfEven (num den : Nat) : num / den ≤ roundHalfEven num den := by
  rw [roundHalfEven]
  split
  · exact Nat.le_succ _
  · exact Nat.le_refl _

theorem unitExponent_one {n : Nat} (h : n ≠ 0) : unitExponent n 1 = (Nat.log2 n : Int) - 52 := by
  have hlog : (Nat.log2 n : Int) - (Nat.log2 1 : Nat) = Nat.log2 n := Int.sub_zero _
  have hnot : ¬ isBelowPower 2 n 1 (Nat.log2 n) = true := by
    rw [isBelowPower, if_pos (Int.natCast_nonneg _), scale_natCast, Nat.one_mul, decide_eq_true_eq]
    exact Nat.not_lt_of_le (Nat.log2_self_le h)
  rw [unitExponent, hlog, if_neg hnot]
  omega

theorem reduce_doubled (n k : Nat) : ofUnits.reduce false (n * 2 ^ k) k = integer n := by
  induction k with
  | zero =>
    rw [Nat.pow_zero, Nat.mul_one]
    rfl
  | succ k ih =>
    have hdouble : n * 2 ^ (k + 1) = 2 * (n * 2 ^ k) := by rw [Nat.pow_succ', Nat.mul_left_comm]
    rw [hdouble, ofUnits.reduce, Nat.mul_mod_right, Nat.mul_div_cancel_left _ (by decide),
      if_pos (beq_self_eq_true 0), ih]

/-- Where a unit in the last place is a whole number, the nearest number is one or infinity. -/
theorem nearest_of_log2_eq {n e : Nat} (h : Nat.log2 n = 52 + e) :
    nearest false n 1 =
      if scale 2 1 1024 ≤ roundHalfEven n (2 ^ e) * 2 ^ e then infinity false
      else integer (roundHalfEven n (2 ^ e) * 2 ^ e : Nat) := by
  have hn : n ≠ 0 := by
    rintro rfl
    rw [Nat.log2_zero] at h
    omega
  have he : unitExponent n 1 = (e : Int) := by
    rw [unitExponent_one hn, h]
    omega
  have hone (k : Nat) : scale 2 1 k = 2 ^ k := by rw [scale_natCast, Nat.one_mul]
  have hnonneg : (0 : Int) ≤ e := Int.natCast_nonneg e
  simp only [nearest, if_neg hn, he, if_pos hnonneg, hone, scale_natCast, decide_eq_true hnonneg,
    Bool.true_and, decide_eq_true_eq]
  rfl

theorem nearest_of_lt {n : Nat} (h : n < 2 ^ 53) : nearest false n 1 = integer n := by
  by_cases hn : n = 0
  · rw [nearest, if_pos hn, hn]
    rfl
  · have hlog : Nat.log2 n < 53 := (Nat.log2_lt hn).mpr h
    obtain ⟨k, hk⟩ : ∃ k, Nat.log2 n + k = 52 := ⟨52 - Nat.log2 n, by omega⟩
    -- Unless there are 53 bits, the unit in the last place is a fraction, and the doubled number is
    -- halved again.
    cases k with
    | zero =>
      have hlarge : 2 ^ 53 ≤ scale 2 1 1024 := by decide +kernel
      have hsmall : ¬ scale 2 1 1024 ≤ n := Nat.not_le_of_lt (Nat.lt_of_lt_of_le h hlarge)
      rw [nearest_of_log2_eq (e := 0) hk, Nat.pow_zero, roundHalfEven_one, Nat.mul_one,
        if_neg hsmall]
    | succ k =>
      have he : unitExponent n 1 = Int.negSucc k := by
        rw [unitExponent_one hn]
        omega
      have hneg : ¬ (0 : Int) ≤ Int.negSucc k := Int.not_le_of_gt (Int.negSucc_lt_zero k)
      have hunits : scale 2 n (-Int.negSucc k) = n * 2 ^ (k + 1) := rfl
      simp only [nearest, if_neg hn, he, if_neg hneg, decide_eq_false hneg, Bool.false_and, hunits,
        roundHalfEven_one]
      exact reduce_doubled n (k + 1)

theorem nearest_of_le {n : Nat} (h : 2 ^ 53 ≤ n) :
    nearest false n 1 = infinity false ∨ ∃ k : Nat, 2 ^ 53 ≤ k ∧ nearest false n 1 = integer k := by
  have hn : n ≠ 0 := Nat.ne_of_gt (Nat.lt_of_lt_of_le (by decide) h)
  have hlog : 53 ≤ Nat.log2 n := (Nat.le_log2 hn).mpr h
  obtain ⟨e, he⟩ : ∃ e, Nat.log2 n = 52 + (e + 1) := ⟨Nat.log2 n - 53, by omega⟩
  rw [nearest_of_log2_eq he]
  split
  · exact .inl rfl
  · refine .inr ⟨_, ?_, rfl⟩
    have hmantissa : 2 ^ 52 ≤ roundHalfEven n (2 ^ (e + 1)) := by
      refine Nat.le_trans ?_ (div_le_roundHalfEven _ _)
      rw [Nat.le_div_iff_mul_le (Nat.two_pow_pos _), ← Nat.pow_add, ← he]
      exact Nat.log2_self_le hn
    calc 2 ^ 53 = 2 ^ 52 * 2 ^ 1 := by rw [← Nat.pow_add]
      _ ≤ roundHalfEven n (2 ^ (e + 1)) * 2 ^ (e + 1) :=
        Nat.mul_le_mul hmantissa (Nat.pow_le_pow_right (by decide) (Nat.le_add_left 1 e))

/-- A decimal without places behind the point is infinite if it is too long, and else the number
nearest to it. -/
theorem ofDecimal_natCast {n : Nat} (h : n ≠ 0) :
    ofDecimal false n 0 =
      if 400 < (Nat.toDigits 10 n).length then infinity false else nearest false n 1 := by
  have hscale : scale 10 n 0 = n := Nat.mul_one n
  have hlength : (400 < ((Nat.toDigits 10 n).length : Int) + 0) =
      (400 < (Nat.toDigits 10 n).length) := by
    rw [Int.add_zero]
    exact propext Int.ofNat_lt
  have hlow : ¬ ((Nat.toDigits 10 n).length : Int) + 0 < -400 := by omega
  simp only [ofDecimal, if_neg h, hlength, if_neg hlow, hscale, Int.le_refl, if_true]

theorem ofDecimal_of_lt {n : Nat} (h : n < 2 ^ 53) : ofDecimal false n 0 = integer n := by
  by_cases hn : n = 0
  · rw [ofDecimal, if_pos hn, hn]
    rfl
  · have hlength : (Nat.toDigits 10 n).length ≤ 16 :=
      (Nat.length_toDigits_le_iff (by decide) (by decide)).mpr (Nat.lt_trans h (by decide))
    rw [ofDecimal_natCast hn, if_neg (by omega), nearest_of_lt h]

theorem ofDecimal_of_le {n : Nat} (h : 2 ^ 53 ≤ n) :
    ofDecimal false n 0 = infinity false ∨ ∃ k : Nat, 2 ^ 53 ≤ k ∧ ofDecimal false n 0 =
      integer k := by
  rw [ofDecimal_natCast (Nat.ne_of_gt (Nat.lt_of_lt_of_le (by decide) h))]
  split
  · exact .inl rfl
  · exact nearest_of_le h

/-- What is read from a decimal with a minus sign is nowhere above zero. -/
theorem nonpos_of_ofUnits {mantissa : Nat} {e k : Int} (h : ofUnits true mantissa e = integer k) :
    k ≤ 0 := by
  have hreduce (m : Nat) : ∀ halvings, ofUnits.reduce true m halvings = integer k → k ≤ 0 := by
    intro halvings
    induction halvings generalizing m with
    | zero =>
      intro h
      have hk : -(m : Int) = k := integer.inj h
      omega
    | succ halvings ih =>
      intro h
      rw [ofUnits.reduce] at h
      split at h
      · exact ih _ h
      · cases h
  cases e with
  | ofNat e =>
    have hk : -(scale 2 mantissa e : Int) = k := integer.inj h
    omega
  | negSucc e => exact hreduce mantissa (e + 1) h

theorem nonpos_of_ofDecimal {n : Nat} {e k : Int} (h : ofDecimal true n e = integer k) : k ≤ 0 := by
  have hzero (h : integer 0 = integer k) : k ≤ 0 := Int.le_of_eq (integer.inj h).symm
  have hnearest (num den : Nat) (h : nearest true num den = integer k) : k ≤ 0 := by
    by_cases hn : num = 0
    · rw [nearest, if_pos hn] at h
      exact hzero h
    · simp only [nearest, if_neg hn] at h
      generalize unitExponent num den = e at h
      generalize (if 0 ≤ e then roundHalfEven num (scale 2 den e)
        else roundHalfEven (scale 2 num (-e)) den) = mantissa at h
      split at h
      · cases h
      · exact nonpos_of_ofUnits h
  rw [ofDecimal] at h
  split at h
  · exact hzero h
  · simp only at h
    split at h
    · cases h
    · split at h
      · exact hzero h
      · split at h <;> exact hnearest _ _ h

end AnalysisProject.Number
