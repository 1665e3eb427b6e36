import Mathlib.Data.Nat.Digits.Defs
import Mathlib.Tactic

/-!
Whole numbers as bytes.

A number of `n` bytes is unsigned, or in two's complement. `bytesOf` has the lowest byte first.
-/

namespace NodeCore.Word

/-- The lowest `n` bytes of a number. -/
def bytesOf : ℕ → ℕ → List UInt8
  | 0, _ => []
  | n + 1, p => UInt8.ofNat p :: bytesOf n (p / 256)

/-- The number that bytes stand for. -/
def unsigned (bs : List UInt8) : ℕ := Nat.ofDigits 256 (bs.map UInt8.toNat)

def value (signed : Bool) (bs : List UInt8) : ℤ :=
  if signed then (unsigned bs : ℤ).bmod (256 ^ bs.length) else unsigned bs

/-- The number that `n` bytes have for `v`. -/
def pattern (n : ℕ) (v : ℤ) : ℕ := (v % (256 ^ n : ℕ)).toNat

/-- What `n` bytes can hold. -/
def InRange (signed : Bool) (n : ℕ) (v : ℤ) : Prop :=
  if signed then -(256 ^ n / 2 : ℕ) ≤ v ∧ v < (256 ^ n / 2 : ℕ) else 0 ≤ v ∧ v < (256 ^ n : ℕ)

@[simp] lemma length_bytesOf (n p : ℕ) : (bytesOf n p).length = n := by
  induction n generalizing p with
  | zero => rfl
  | succ n ih => rw [bytesOf, List.length_cons, ih]

@[simp] lemma unsigned_nil : unsigned [] = 0 := rfl

@[simp] lemma unsigned_cons (b : UInt8) (bs : List UInt8) :
    unsigned (b :: bs) = b.toNat + 256 * unsigned bs := by
  rw [unsigned, List.map_cons, Nat.ofDigits_cons]
  rfl

lemma unsigned_bytesOf (n p : ℕ) : unsigned (bytesOf n p) = p % 256 ^ n := by
  induction n generalizing p with
  | zero => rw [bytesOf, unsigned_nil, pow_zero, Nat.mod_one]
  | succ n ih =>
    rw [bytesOf, unsigned_cons, ih, UInt8.toNat_ofNat', pow_succ' 256]
    exact Nat.mod_mul.symm

lemma unsigned_lt (bs : List UInt8) : unsigned bs < 256 ^ bs.length := by
  induction bs with
  | nil => exact Nat.one_pos
  | cons b bs ih =>
    have hb := b.toNat_lt
    rw [unsigned_cons, List.length_cons, pow_succ']
    omega

/-- `&` of two numbers byte by byte. -/
lemma bytesOf_and (bs : List UInt8) (k : ℕ) : bytesOf bs.length (unsigned bs &&& k) =
    List.zipWith (· &&& ·) bs (bytesOf bs.length k) := by
  induction bs generalizing k with
  | nil => rfl
  | cons b bs ih =>
    have hb := b.toNat_lt
    have hlow : UInt8.ofNat ((b.toNat + 256 * unsigned bs) &&& k) = b &&& UInt8.ofNat k := by
      apply UInt8.toNat_inj.mp
      rw [UInt8.toNat_ofNat', UInt8.toNat_and, UInt8.toNat_ofNat', Nat.and_mod_two_pow,
        Nat.add_mul_mod_self_left, Nat.mod_eq_of_lt hb]
    have hhigh : ((b.toNat + 256 * unsigned bs) &&& k) / 256 = unsigned bs &&& (k / 256) := by
      have hdiv : ((b.toNat + 256 * unsigned bs) &&& k) / 256 =
          (b.toNat + 256 * unsigned bs) / 256 &&& k / 256 := @Nat.and_div_two_pow _ _ 8
      rw [hdiv, Nat.add_mul_div_left _ _ (by norm_num), Nat.div_eq_of_lt hb, Nat.zero_add]
    rw [unsigned_cons, List.length_cons, bytesOf, bytesOf, List.zipWith_cons_cons, hlow, hhigh, ih]

lemma unsigned_eq_zero {bs : List UInt8} : unsigned bs = 0 ↔ ∀ b ∈ bs, b = 0 := by
  induction bs with
  | nil => simp
  | cons b bs ih =>
    rw [unsigned_cons, Nat.add_eq_zero_iff, List.forall_mem_cons, ← ih]
    refine and_congr ?_ (by omega)
    rw [← UInt8.toNat_inj]
    rfl

end NodeCore.Word
