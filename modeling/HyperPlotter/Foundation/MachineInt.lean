/-!
# Fixed-width integer results

Mathematical integers carry the arithmetic; the functions here give the value
a two's-complement or an unsigned machine register keeps of a result. Every
operation is followed by its rounding, so a definition shows where a result
can leave its register.
-/

namespace HyperPlotter.Foundation

/-- The value a 32-bit two's-complement register keeps of `x`. -/
def toInt32 (x : Int) : Int := (x + 2147483648) % 4294967296 - 2147483648

/-- The value a 64-bit two's-complement register keeps of `x`. -/
def toInt64 (x : Int) : Int :=
  (x + 9223372036854775808) % 18446744073709551616 - 9223372036854775808

/-- The value a 64-bit unsigned register keeps of `x`. -/
def toUInt64 (x : Int) : Nat := (x % 18446744073709551616).toNat

/-- A result inside the 32-bit range is kept exactly. -/
theorem toInt32_eq {x : Int} (lower : -2147483648 ≤ x) (upper : x < 2147483648) :
    toInt32 x = x := by
  unfold toInt32
  omega

/-- A result just above the 32-bit range comes out negative. -/
theorem toInt32_above {x : Int} (lower : 2147483648 ≤ x) (upper : x < 4294967296) :
    toInt32 x = x - 4294967296 := by
  unfold toInt32
  omega

/-- A result inside the signed 64-bit range is kept exactly. -/
theorem toInt64_eq {x : Int} (lower : -9223372036854775808 ≤ x)
    (upper : x < 9223372036854775808) : toInt64 x = x := by
  unfold toInt64
  omega

/-- The signed 64-bit value of a natural number is not above it. -/
theorem toInt64_le (n : Nat) : toInt64 n ≤ n := by
  unfold toInt64
  omega

/-- A natural number below `2^64` is kept exactly. -/
theorem toUInt64_natCast {n : Nat} (bound : n < 18446744073709551616) :
    toUInt64 (n : Int) = n := by
  unfold toUInt64
  omega

/-- An unsigned register never holds `2^64` or more. -/
theorem toUInt64_lt (x : Int) : toUInt64 x < 18446744073709551616 := by
  unfold toUInt64
  omega

/-- A quotient rounded towards zero has the nonnegative part of the floor. -/
theorem toNat_tdiv (x : Int) {n : Nat} (positive : 0 < n) :
    (max 0 (x.tdiv n)).toNat = (x / n).toNat := by
  by_cases sign : 0 ≤ x
  · rw [Int.tdiv_eq_ediv_of_nonneg sign]
    omega
  · have negated : 0 ≤ (-x).tdiv n := Int.tdiv_nonneg (by omega) (Int.natCast_nonneg n)
    rw [Int.neg_tdiv] at negated
    have floor : x / (n : Int) < 0 :=
      Int.ediv_neg_of_neg_of_pos (Int.not_le.mp sign) (Int.natCast_pos.mpr positive)
    omega

/-- Rounding an operand first does not change the rounded product. -/
theorem toInt32_mul_toInt32 (x y : Int) : toInt32 (toInt32 x * y) = toInt32 (x * y) := by
  have split : toInt32 x = x - 4294967296 * ((x + 2147483648) / 4294967296) := by
    unfold toInt32
    omega
  have product : toInt32 x * y + 2147483648 =
      (x * y + 2147483648) + 4294967296 * (-((x + 2147483648) / 4294967296) * y) := by
    rw [split, Int.sub_mul, Int.neg_mul, Int.mul_neg, Int.mul_assoc]
    omega
  unfold toInt32 at product ⊢
  rw [product, Int.add_mul_emod_self_left]

/-- Rounding the left summand first does not change the rounded sum. -/
theorem toInt32_add_toInt32 (x y : Int) : toInt32 (toInt32 x + y) = toInt32 (x + y) := by
  unfold toInt32
  omega

/-- Rounding the left summand of a 64-bit sum first does not change it. -/
theorem toInt64_add_toInt64 (x y : Int) : toInt64 (toInt64 x + y) = toInt64 (x + y) := by
  unfold toInt64
  omega

/-- Rounding the right summand first does not change the rounded sum. -/
theorem toInt32_add_right (x y : Int) : toInt32 (x + toInt32 y) = toInt32 (x + y) := by
  rw [Int.add_comm, toInt32_add_toInt32, Int.add_comm]

end HyperPlotter.Foundation
