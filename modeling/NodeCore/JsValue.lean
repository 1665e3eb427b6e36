import NodeCore.Doubles
import NodeCore.Encoding
import NodeCore.JsNumber

/-!
Numbers and strings as operands.

What a string is as a number, and a number as a string, the language says; it is a parameter. A sum
with a string puts strings together, every other operator takes numbers. Sums and differences of
numbers are rounded to doubles.
-/

namespace NodeCore.JsNumber

open Encoding Doubles

namespace Number

/-- `x === y` -/
def same : Number → Number → Bool
  | fin p, fin q => p = q
  | infinity, infinity | minusInfinity, minusInfinity | undefined, undefined => true
  | _, _ => false

/-- `x <= y` -/
def le : Number → Number → Bool
  | nan, _ | undefined, _ | _, nan | _, undefined => false
  | x, y => !y.lt x

/-- The double next to a sum. -/
def rounded : Number → Number
  | fin q =>
    if 2 ^ 1024 ≤ double q then infinity
    else if double q ≤ -2 ^ 1024 then minusInfinity
    else fin (double q)
  | x => x

/-- `x + y`, rounded. -/
def plus (x y : Number) : Number := (x.add y).rounded

/-- `x - y`, rounded. -/
def minus (x y : Number) : Number := (x.sub y).rounded

/-- `isFinite(x)` -/
def finite : Number → Bool
  | fin _ => true
  | _ => false

/-- `IsInt32()`, and the value. -/
def isInt32 : Number → Option ℤ
  | fin q => if q.den = 1 ∧ -2 ^ 31 ≤ q ∧ q < 2 ^ 31 then some q.num else none
  | _ => none

/-! ### Whole numbers -/

@[simp] lemma int_le (a b : ℤ) : (int a).le (int b) = decide (a ≤ b) := by
  have hle : (int a).le (int b) = !(int b).lt (int a) := rfl
  rw [hle, int_lt]
  simp only [← decide_not, not_lt]

@[simp] lemma int_same (a b : ℤ) : (int a).same (int b) = decide (a = b) := by
  simp [int, same]

lemma rounded_int {a : ℤ} (h : |a| < 2 ^ 52) : (int a).rounded = int a := by
  have hbound : (2 : ℚ) ^ 52 < 2 ^ 1024 := pow_lt_pow_right₀ (by norm_num) (by norm_num)
  obtain ⟨hlow, hhigh⟩ := abs_lt.mp h
  have hlow' : -(2 : ℚ) ^ 52 < a := by exact_mod_cast hlow
  have hhigh' : (a : ℚ) < 2 ^ 52 := by exact_mod_cast hhigh
  rw [int, rounded, double_int h, if_neg (hhigh'.trans hbound).not_ge,
    if_neg ((neg_lt_neg hbound).trans hlow').not_ge]

lemma plus_int {a b : ℤ} (h : |a + b| < 2 ^ 52) : (int a).plus (int b) = int (a + b) := by
  rw [plus, int_add, rounded_int h]

lemma minus_int {a b : ℤ} (h : |a - b| < 2 ^ 52) : (int a).minus (int b) = int (a - b) := by
  rw [minus, int_sub, rounded_int h]

lemma isInt32_int {a : ℤ} (hlow : -2 ^ 31 ≤ a) (hhigh : a < 2 ^ 31) :
    (int a).isInt32 = some a := by
  have hlow' : -(2 : ℚ) ^ 31 ≤ a := by exact_mod_cast hlow
  have hhigh' : (a : ℚ) < 2 ^ 31 := by exact_mod_cast hhigh
  rw [int, isInt32, if_pos ⟨Rat.den_intCast a, hlow', hhigh'⟩, Rat.num_intCast]

lemma isInt32_some {x : Number} {a : ℤ} (h : x.isInt32 = some a) : x = int a := by
  cases x with
  | fin q =>
    rw [isInt32] at h
    split_ifs at h with hq
    obtain rfl := Option.some.inj h
    exact congrArg fin (Rat.den_eq_one_iff q |>.mp hq.1).symm
  | infinity | minusInfinity | nan | undefined => cases h

/-- A rounded number that is finite was so before. -/
lemma fin_of_rounded {x : Number} {p : ℚ} (h : x.rounded = fin p) :
    ∃ q, x = fin q ∧ p = double q := by
  cases x with
  | fin q =>
    rw [rounded] at h
    split_ifs at h
    exact ⟨q, rfl, (fin.inj h).symm⟩
  | infinity | minusInfinity | nan | undefined => cases h

lemma fin_of_plus {x : Number} {a : ℤ} {p : ℚ} (h : x.plus (int a) = fin p) :
    ∃ q, x = fin q ∧ p = double (q + a) := by
  obtain ⟨q, hq, rfl⟩ := fin_of_rounded h
  cases x with
  | fin q' => exact ⟨q', rfl, congrArg double (fin.inj hq).symm⟩
  | infinity | minusInfinity | nan | undefined => cases hq

lemma truncate_of_nonneg {q : ℚ} (h : 0 ≤ q) : truncate q = ⌊q⌋ := if_pos h

/-- The bits of a number are no more than it. -/
lemma toNat_bits_le {q : ℚ} (h : 0 ≤ q) : ((fin q).bits.toNat : ℤ) ≤ ⌊q⌋ := by
  have hfloor : 0 ≤ ⌊q⌋ := Int.floor_nonneg.mpr h
  rw [bits, truncate_of_nonneg h, BitVec.toNat_ofInt]
  omega

lemma toInt_bits_fin {q : ℚ} (h : 0 ≤ q) (hfloor : ⌊q⌋ < 2 ^ 31) : (fin q).bits.toInt = ⌊q⌋ := by
  have hnonneg : 0 ≤ ⌊q⌋ := Int.floor_nonneg.mpr h
  rw [bits, truncate_of_nonneg h, BitVec.toInt_ofInt, Int.bmod_eq_of_le (by omega) (by omega)]

/-- A number that is subtracted from a small one. -/
lemma minus_of_nonneg {n : ℕ} {x : Number} (hn : n < 2 ^ 31) (hx : x.lt (int 0) = false)
    (hnumber : x ≠ nan ∧ x ≠ undefined) :
    (∃ q, x = fin q ∧ 0 ≤ q ∧ (int n).minus x = fin (double (n - q))) ∨
      (int n).minus x = minusInfinity := by
  cases x with
  | fin q =>
    have hq : 0 ≤ q := not_lt.mp (of_decide_eq_false hx)
    have htwice : |(2 * n : ℤ)| < 2 ^ 53 := abs_lt.mpr ⟨by omega, by omega⟩
    have hle := double_le htwice (q := n - q) (by push_cast; linarith)
    have hsmall : (n : ℚ) < 2 ^ 1024 := by
      calc (n : ℚ) < 2 ^ 31 := by exact_mod_cast hn
        _ ≤ 2 ^ 1024 := pow_le_pow_right₀ (by norm_num) (by norm_num)
    have hdouble : double (n - q) < 2 ^ 1024 := by
      refine lt_of_le_of_lt ?_ hsmall
      push_cast at hle
      linarith
    have hminus : (int n).minus (fin q) = (fin (n - q)).rounded := by
      rw [minus, sub, neg, int, add, ← sub_eq_add_neg, Int.cast_natCast]
    rw [hminus, rounded, if_neg hdouble.not_ge]
    split_ifs
    · exact .inr rfl
    · exact .inl ⟨q, rfl, hq, rfl⟩
  | infinity => exact .inr rfl
  | minusInfinity => cases hx
  | nan => exact absurd rfl hnumber.1
  | undefined => exact absurd rfl hnumber.2

/-- A sum that is small is only rounded. -/
lemma plus_of_nonneg {n l : ℕ} {q : ℚ} (hn : n + l < 2 ^ 32) (hq : 0 ≤ q) (hl : q ≤ l) :
    (int n).plus (fin q) = fin (double (n + q)) ∧ n ≤ double (n + q) := by
  have hlow : |(2 * n : ℤ)| < 2 ^ 53 := abs_lt.mpr ⟨by omega, by omega⟩
  have hhigh : |(2 * (n + l) : ℤ)| < 2 ^ 53 := abs_lt.mpr ⟨by omega, by omega⟩
  have hle := le_double hlow (q := n + q) (by push_cast; linarith)
  have hge := double_le hhigh (q := n + q) (by push_cast; linarith)
  have hsmall : ((n + l : ℕ) : ℚ) < 2 ^ 1024 := by
    calc ((n + l : ℕ) : ℚ) < 2 ^ 32 := by exact_mod_cast hn
      _ ≤ 2 ^ 1024 := pow_le_pow_right₀ (by norm_num) (by norm_num)
  push_cast at hle hge hsmall
  have hnonneg : (0 : ℚ) ≤ n := Nat.cast_nonneg n
  have hpow : (0 : ℚ) < 2 ^ 1024 := by positivity
  have hplus : (int n).plus (fin q) = (fin (n + q)).rounded := by
    rw [plus, int, add, Int.cast_natCast]
  have hge' : (n : ℚ) ≤ double (n + q) := by linarith
  have hlow' : -(2 : ℚ) ^ 1024 < double (n + q) :=
    (neg_neg_of_pos hpow).trans_le (hnonneg.trans hge')
  have hhigh' : double (n + q) < 2 ^ 1024 := lt_of_le_of_lt (by linarith) hsmall
  rw [hplus, rounded, if_neg hhigh'.not_ge, if_neg hlow'.not_ge]
  exact ⟨rfl, hge'⟩

lemma toInt_bits_int {a : ℤ} (hlow : -2 ^ 31 ≤ a) (hhigh : a < 2 ^ 31) :
    (int a).bits.toInt = a := by
  rw [bits_int, BitVec.toInt_ofInt, Int.bmod_eq_of_le (by omega) (by omega)]

end Number

/-! ### Values -/

/-- An argument; one that is left out is `undefined`. -/
inductive Value
  | num (x : Number)
  | str (s : Str)
  deriving DecidableEq

structure Language where
  toNumber : Str → Number
  toString : Number → Str

namespace Value

/-- A whole number. -/
def int (a : ℤ) : Value := num (Number.int a)

def undefined : Value := num .undefined

/-- `!x` -/
def falsy : Value → Bool
  | num x => x.falsy
  | str s => s = []

/-- `x === y` -/
def same : Value → Value → Bool
  | num x, num y => x.same y
  | str s, str t => s = t
  | _, _ => false

/-- `IsInt32()`, and the value. -/
def isInt32 : Value → Option ℤ
  | num x => x.isInt32
  | str _ => none

/-- A number that has no fraction. -/
def Whole : Value → Prop
  | num (.fin q) => q.den = 1
  | num _ => True
  | str _ => False

end Value

namespace Language

variable (lang : Language)

/-- `+x` -/
def number : Value → Number
  | .num x => x
  | .str s => lang.toNumber s

/-- `String(x)` -/
def string : Value → Str
  | .num x => lang.toString x
  | .str s => s

/-- `x < y` -/
def lt : Value → Value → Bool
  | .str s, .str t => s < t
  | x, y => (lang.number x).lt (lang.number y)

/-- `x <= y` -/
def le : Value → Value → Bool
  | .str s, .str t => ¬ t < s
  | x, y => (lang.number x).le (lang.number y)

/-- `x + y` -/
def plus : Value → Value → Value
  | .num x, .num y => .num (x.plus y)
  | x, y => .str (lang.string x ++ lang.string y)

/-- `x - y` -/
def minus (x y : Value) : Value := .num ((lang.number x).minus (lang.number y))

/-! ### Whole numbers -/

@[simp] lemma number_int (a : ℤ) : lang.number (.int a) = Number.int a := rfl

@[simp] lemma lt_int (a b : ℤ) : lang.lt (.int a) (.int b) = decide (a < b) := Number.int_lt a b

@[simp] lemma le_int (a b : ℤ) : lang.le (.int a) (.int b) = decide (a ≤ b) := Number.int_le a b

@[simp] lemma same_int (a b : ℤ) : (Value.int a).same (.int b) = decide (a = b) :=
  Number.int_same a b

@[simp] lemma falsy_int (a : ℤ) : (Value.int a).falsy = decide (a = 0) := Number.int_falsy a

lemma plus_int {a b : ℤ} (h : |a + b| < 2 ^ 52) :
    lang.plus (.int a) (.int b) = .int (a + b) :=
  congrArg Value.num (Number.plus_int h)

lemma minus_int {a b : ℤ} (h : |a - b| < 2 ^ 52) :
    lang.minus (.int a) (.int b) = .int (a - b) :=
  congrArg Value.num (Number.minus_int h)

/-! ### Sums that are whole -/

variable {lang} {x : Value} {n : ℕ} {a k : ℤ}

lemma fin_of_isInt32_plus (h : (lang.plus x (.int n)).isInt32 = some a) :
    ∃ q, x = .num (.fin q) ∧ (a : ℚ) = double (q + n) := by
  cases x with
  | num x =>
    obtain ⟨q, rfl, hq⟩ := Number.fin_of_plus (a := n) (Number.isInt32_some h)
    exact ⟨q, rfl, by exact_mod_cast hq⟩
  | str s => cases h

/-- An offset that is added keeps a position behind it. -/
lemma le_isInt32_plus (hn : n < 2 ^ 31) (hx : lang.lt x (.int 0) = false)
    (h : (lang.plus x (.int n)).isInt32 = some a) : n ≤ a := by
  obtain ⟨q, rfl, ha⟩ := fin_of_isInt32_plus h
  have hq : 0 ≤ q := not_lt.mp (of_decide_eq_false hx)
  have htwice : |(2 * n : ℤ)| < 2 ^ 53 := abs_lt.mpr ⟨by omega, by omega⟩
  have hle := le_double htwice (q := q + n) (by push_cast; linarith)
  have hcast : (n : ℚ) ≤ a := by
    rw [ha]
    push_cast at hle
    linarith
  exact_mod_cast hcast

/-- And keeps it in front of the end. -/
lemma isInt32_plus_le (hk : |k + n| < 2 ^ 51) (hx : lang.lt (.int k) x = false)
    (h : (lang.plus x (.int n)).isInt32 = some a) : a ≤ k + n := by
  obtain ⟨q, rfl, ha⟩ := fin_of_isInt32_plus h
  have hq : q ≤ k := not_lt.mp (of_decide_eq_false hx)
  obtain ⟨hlow, hhigh⟩ := abs_lt.mp hk
  have htwice : |2 * (k + n)| < 2 ^ 53 := abs_lt.mpr ⟨by omega, by omega⟩
  have hle := double_le htwice (q := q + n) (by push_cast; linarith)
  have hcast : (a : ℚ) ≤ k + n := by
    rw [ha]
    push_cast at hle
    linarith
  exact_mod_cast hcast

end Language

end NodeCore.JsNumber
