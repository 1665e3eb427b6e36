import Mathlib.Data.Nat.Bitwise
import Mathlib.Tactic

/-!
The numbers of the language, and what its operators make of them.

A finite number is a rational. Sums are exact, as they are in doubles for whole numbers below
`2 ^ 53`. The bitwise operators work on the 32 bits of a number; `undefined` is taken for `NaN`.
-/

namespace NodeCore.JsNumber

inductive Number
  | fin (q : ℚ)
  | infinity
  | minusInfinity
  | nan
  | undefined
  deriving DecidableEq

namespace Number

/-- A whole number. -/
def int (n : ℤ) : Number := .fin n

/-- `(x % 1) !== 0` -/
def fractional : Number → Bool
  | fin q => q.den ≠ 1
  | _ => true

/-- `x < y` -/
def lt : Number → Number → Bool
  | fin p, fin q => p < q
  | fin _, infinity => true
  | minusInfinity, fin _ => true
  | minusInfinity, infinity => true
  | _, _ => false

/-- `x + y` -/
def add : Number → Number → Number
  | fin p, fin q => fin (p + q)
  | fin _, infinity | infinity, fin _ | infinity, infinity => infinity
  | fin _, minusInfinity | minusInfinity, fin _ | minusInfinity, minusInfinity => minusInfinity
  | _, _ => nan

/-- `x * -1` -/
def neg : Number → Number
  | fin q => fin (-q)
  | infinity => minusInfinity
  | minusInfinity => infinity
  | nan | undefined => nan

/-- `x - y` -/
def sub (x y : Number) : Number := x.add y.neg

/-- `!x` -/
def falsy : Number → Bool
  | fin q => q = 0
  | infinity | minusInfinity => false
  | nan | undefined => true

/-- Rounded towards zero. -/
def truncate (q : ℚ) : ℤ := if 0 ≤ q then ⌊q⌋ else ⌈q⌉

/-- `ToInt32`, and `ToUint32`. -/
def bits : Number → BitVec 32
  | fin q => BitVec.ofInt 32 (truncate q)
  | _ => 0

/-- `x << n` -/
def shl (x : Number) (n : ℕ) : Number := int (x.bits <<< n).toInt

/-- `x >>> n` -/
def ushr (x : Number) (n : ℕ) : Number := int (x.bits >>> n).toNat

/-- `x | y` -/
def or (x y : Number) : Number := int (x.bits ||| y.bits).toInt

/-- `x & y` -/
def and (x y : Number) : Number := int (x.bits &&& y.bits).toInt

example : shl (int 0xff) 24 = int (-0x1000000) := by decide
example : ushr (shl (int 0xff) 24) 0 = int 0xff000000 := by decide

/-! ### Whole numbers -/

lemma int_inj {a b : ℤ} : int a = int b ↔ a = b := by
  simp [int]

@[simp] lemma int_add (a b : ℤ) : (int a).add (int b) = int (a + b) := by
  simp [int, add]

@[simp] lemma int_neg (a : ℤ) : (int a).neg = int (-a) := by
  simp [int, neg]

@[simp] lemma int_sub (a b : ℤ) : (int a).sub (int b) = int (a - b) := by
  rw [sub, int_neg, int_add, sub_eq_add_neg]

@[simp] lemma int_lt (a b : ℤ) : (int a).lt (int b) = decide (a < b) := by
  simp [int, lt]

@[simp] lemma int_falsy (a : ℤ) : (int a).falsy = decide (a = 0) := by
  simp [int, falsy]

@[simp] lemma bits_int (a : ℤ) : (int a).bits = BitVec.ofInt 32 a := by
  simp [int, bits, truncate]

lemma bits_nat (n : ℕ) : (int n).bits = BitVec.ofNat 32 n := by
  rw [bits_int, BitVec.ofInt_natCast]

@[simp] lemma bits_or (x y : Number) : (x.or y).bits = x.bits ||| y.bits := by
  rw [or, bits_int, BitVec.ofInt_toInt]

lemma or_comm (x y : Number) : x.or y = y.or x := by
  rw [or, or, BitVec.or_comm]

end Number

end NodeCore.JsNumber
