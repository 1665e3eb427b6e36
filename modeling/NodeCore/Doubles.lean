import Mathlib.Data.Int.Log
import Mathlib.Tactic

/-!
The rounding of a rational to a double.

The doubles near a number are the multiples of a quantum, which its size decides; a tie goes to the
even multiple. What is known of a rounded number here is on which side of a half of a whole number
it stays.
-/

namespace NodeCore.Doubles

/-- The nearest whole number, the even one of two. -/
def roundEven (x : ℚ) : ℤ :=
  if x - ⌊x⌋ < 1 / 2 then ⌊x⌋
  else if 1 / 2 < x - ⌊x⌋ then ⌊x⌋ + 1
  else if ⌊x⌋ % 2 = 0 then ⌊x⌋
  else ⌊x⌋ + 1

/-- The distance of the doubles of the size of `q`. -/
def quantum (q : ℚ) : ℚ := 2 ^ max (Int.log 2 |q| - 52) (-1074)

/-- The double next to `q`, were there no greatest. -/
def double (q : ℚ) : ℚ := roundEven (q / quantum q) * quantum q

example : double (1 / 3) = 6004799503160661 / 18014398509481984 := by decide +kernel
example : double (2 ^ 53 + 1) = 2 ^ 53 := by decide +kernel

variable {x q : ℚ} {k : ℤ}

lemma roundEven_le (h : x ≤ k) : roundEven x ≤ k := by
  have hfloor : ⌊x⌋ ≤ k := Int.floor_le_iff.mpr (h.trans_lt (lt_add_one _))
  obtain hlt | heq := hfloor.lt_or_eq
  · unfold roundEven
    split_ifs <;> omega
  · have hx : x = k := h.antisymm (heq ▸ Int.floor_le x)
    rw [hx, roundEven, Int.floor_intCast, sub_self, if_pos (by norm_num)]

lemma le_roundEven (h : k ≤ x) : k ≤ roundEven x := by
  have hfloor : k ≤ ⌊x⌋ := Int.le_floor.mpr h
  unfold roundEven
  split_ifs <;> omega

lemma quantum_pos (q : ℚ) : 0 < quantum q := zpow_pos (by norm_num) _

/-- Either a half is a multiple of the quantum, or the number is large. -/
lemma quantum_cases (q : ℚ) : (∃ n : ℤ, 1 / 2 = n * quantum q) ∨
    1 ≤ quantum q ∧ 2 ^ 52 * quantum q ≤ |q| := by
  by_cases hsmall : Int.log 2 |q| - 52 < 0
  · left
    obtain ⟨n, hn⟩ : ∃ n : ℕ, max (Int.log 2 |q| - 52) (-1074) = -(n + 1 : ℤ) :=
      ⟨(-max (Int.log 2 |q| - 52) (-1074) - 1).toNat, by omega⟩
    refine ⟨2 ^ n, ?_⟩
    rw [quantum, hn, Int.cast_pow, Int.cast_ofNat, zpow_neg, zpow_add_one₀ two_ne_zero,
      zpow_natCast]
    field_simp
  · right
    have hq : |q| ≠ 0 := by
      intro h
      rw [h, Int.log_zero_right] at hsmall
      omega
    have hle := Int.zpow_log_le_self (b := 2) (by decide) (lt_of_le_of_ne (abs_nonneg q) hq.symm)
    have hmax : max (Int.log 2 |q| - 52) (-1074) = Int.log 2 |q| - 52 := by omega
    rw [quantum, hmax]
    constructor
    · exact one_le_zpow₀ (by norm_num) (by omega)
    · calc (2 : ℚ) ^ 52 * 2 ^ (Int.log 2 |q| - 52) = 2 ^ Int.log 2 |q| := by
            rw [zpow_sub₀ two_ne_zero]
            field_simp
        _ ≤ |q| := hle

lemma double_le_mul (h : q ≤ k * quantum q) : double q ≤ k * quantum q := by
  have hpos := quantum_pos q
  have hround : roundEven (q / quantum q) ≤ k := roundEven_le ((div_le_iff₀ hpos).mpr h)
  exact mul_le_mul_of_nonneg_right (by exact_mod_cast hround) hpos.le

lemma mul_le_double (h : k * quantum q ≤ q) : k * quantum q ≤ double q := by
  have hpos := quantum_pos q
  have hround : k ≤ roundEven (q / quantum q) := le_roundEven ((le_div_iff₀ hpos).mpr h)
  exact mul_le_mul_of_nonneg_right (by exact_mod_cast hround) hpos.le

/-- A half of a whole number is a multiple of the quantum, or it is smaller than the number. -/
lemma half_cases (hk : |k| < 2 ^ 53) (q : ℚ) : (∃ n : ℤ, (k : ℚ) / 2 = n * quantum q) ∨
    |(k : ℚ) / 2| < 2 ^ 52 * quantum q ∧ 2 ^ 52 * quantum q ≤ |q| := by
  obtain ⟨n, hn⟩ | ⟨hone, hlarge⟩ := quantum_cases q
  · refine .inl ⟨k * n, ?_⟩
    rw [Int.cast_mul, mul_assoc, ← hn]
    ring
  · refine .inr ⟨?_, hlarge⟩
    have hk' : |(k : ℚ)| < 2 ^ 53 := by exact_mod_cast hk
    rw [abs_div, abs_two]
    linarith

/-- A number that is no greater than a half of a whole number is rounded to one that is none. -/
theorem double_le (hk : |k| < 2 ^ 53) (h : q ≤ k / 2) : double q ≤ k / 2 := by
  obtain ⟨n, hn⟩ | ⟨hsmall, hlarge⟩ := half_cases hk q
  · rw [hn] at h ⊢
    exact double_le_mul h
  · obtain ⟨hlow, hhigh⟩ := abs_lt.mp hsmall
    obtain hq | hq := le_total 0 q
    · rw [abs_of_nonneg hq] at hlarge
      linarith
    · rw [abs_of_nonpos hq] at hlarge
      have hdouble : double q ≤ (-2 ^ 52 : ℤ) * quantum q :=
        double_le_mul (by push_cast; linarith)
      push_cast at hdouble
      linarith

/-- And one that is no smaller stays so. -/
theorem le_double (hk : |k| < 2 ^ 53) (h : k / 2 ≤ q) : k / 2 ≤ double q := by
  obtain ⟨n, hn⟩ | ⟨hsmall, hlarge⟩ := half_cases hk q
  · rw [hn] at h ⊢
    exact mul_le_double h
  · obtain ⟨hlow, hhigh⟩ := abs_lt.mp hsmall
    obtain hq | hq := le_total 0 q
    · rw [abs_of_nonneg hq] at hlarge
      have hdouble : (2 ^ 52 : ℤ) * quantum q ≤ double q :=
        mul_le_double (by push_cast; linarith)
      push_cast at hdouble
      linarith
    · rw [abs_of_nonpos hq] at hlarge
      linarith

/-- A whole number is a double, if it is not too large. -/
theorem double_int (hk : |k| < 2 ^ 52) : double k = k := by
  have htwice : |2 * k| < 2 ^ 53 := by
    rw [abs_mul, abs_two]
    omega
  have hhalf : ((2 * k : ℤ) : ℚ) / 2 = k := by
    push_cast
    ring
  apply le_antisymm
  · rw [← hhalf]
    exact double_le htwice (by rw [hhalf])
  · calc (k : ℚ) = (2 * k : ℤ) / 2 := hhalf.symm
      _ ≤ double k := le_double htwice (by rw [hhalf])

/-- A number is added to one whole number and taken from another: rounding does not carry both to
the next. -/
theorem floor_add_floor {a b : ℤ} (ha : |2 * (a + ⌊q⌋ + 1)| < 2 ^ 53)
    (hb : |2 * (b - ⌊q⌋)| < 2 ^ 53 - 1) :
    ⌊double (a + q)⌋ + ⌊double (b - q)⌋ ≤ a + b := by
  have hlow := Int.floor_le q
  have hhigh := Int.lt_floor_add_one q
  obtain ⟨ha₁, ha₂⟩ := abs_lt.mp ha
  obtain ⟨hb₁, hb₂⟩ := abs_lt.mp hb
  obtain hhalf | hhalf := le_total (q - ⌊q⌋) (1 / 2)
  · have hsum : double (a + q) ≤ (2 * (a + ⌊q⌋) + 1 : ℤ) / 2 :=
      double_le (abs_lt.mpr ⟨by omega, by omega⟩) (by push_cast; linarith)
    have hdiff : double (b - q) ≤ (2 * (b - ⌊q⌋) : ℤ) / 2 :=
      double_le (hb.trans (by norm_num)) (by push_cast; linarith)
    have hfloor : ⌊double (a + q)⌋ < a + ⌊q⌋ + 1 :=
      Int.floor_lt.mpr (hsum.trans_lt (by push_cast; linarith))
    have hfloor' : ⌊double (b - q)⌋ < b - ⌊q⌋ + 1 :=
      Int.floor_lt.mpr (hdiff.trans_lt (by push_cast; linarith))
    omega
  · have hsum : double (a + q) ≤ (2 * (a + ⌊q⌋ + 1) : ℤ) / 2 :=
      double_le ha (by push_cast; linarith)
    have hdiff : double (b - q) ≤ (2 * (b - ⌊q⌋) - 1 : ℤ) / 2 :=
      double_le (abs_lt.mpr ⟨by omega, by omega⟩) (by push_cast; linarith)
    have hfloor : ⌊double (a + q)⌋ < a + ⌊q⌋ + 1 + 1 :=
      Int.floor_lt.mpr (hsum.trans_lt (by push_cast; linarith))
    have hfloor' : ⌊double (b - q)⌋ < b - ⌊q⌋ :=
      Int.floor_lt.mpr (hdiff.trans_lt (by push_cast; linarith))
    omega

end NodeCore.Doubles
