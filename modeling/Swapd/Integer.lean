import Mathlib.Algebra.Ring.Int.Defs
import Mathlib.Algebra.Ring.Nat

/-!
# Saturating and checked integer operations

The saturating operations of the unsigned types, and the conversions between
widths and signs that the block arithmetic of the server goes through. Signed
values are integers here, kept in range by the operations that produce them;
an `as` cast that wraps is `Int.bmod`. Each operation comes with the value it
has as a number, which is the only thing later proofs use.
-/

namespace UInt64

/-- `u64::saturating_add`. -/
def saturatingAdd (a b : UInt64) : UInt64 :=
  if a.toNat + b.toNat < 2 ^ 64 then a + b else UInt64.ofNat (2 ^ 64 - 1)

/-- `u64::saturating_sub`. -/
def saturatingSub (a b : UInt64) : UInt64 :=
  if b ≤ a then a - b else 0

/-- `u64::saturating_mul`. -/
def saturatingMul (a b : UInt64) : UInt64 :=
  if a.toNat * b.toNat < 2 ^ 64 then a * b else UInt64.ofNat (2 ^ 64 - 1)

/-- `u64::div_ceil`, for a divisor that is not zero. -/
def divCeil (a b : UInt64) : UInt64 :=
  if a % b = 0 then a / b else a / b + 1

theorem toNat_saturatingAdd (a b : UInt64) :
    (a.saturatingAdd b).toNat = min (a.toNat + b.toNat) (2 ^ 64 - 1) := by
  unfold saturatingAdd
  split
  next h => rw [UInt64.toNat_add, Nat.mod_eq_of_lt h]; omega
  next h => rw [UInt64.toNat_ofNat_of_lt' (by decide)]; omega

theorem toNat_saturatingSub (a b : UInt64) :
    (a.saturatingSub b).toNat = a.toNat - b.toNat := by
  unfold saturatingSub
  split
  next h => exact UInt64.toNat_sub_of_le _ _ h
  next h =>
    rw [UInt64.le_iff_toNat_le] at h
    rw [UInt64.toNat_zero]
    omega

/-- `i64::try_from(_).unwrap_or(i64::MAX)`. -/
def toI64OrMax (a : UInt64) : ℤ :=
  if a.toNat < 2 ^ 63 then a.toNat else 2 ^ 63 - 1

/-- `as i64`. -/
def asI64 (a : UInt64) : ℤ := Int.bmod a.toNat (2 ^ 64)

theorem toI64OrMax_eq (a : UInt64) :
    a.toI64OrMax = min (a.toNat : ℤ) (2 ^ 63 - 1) := by
  unfold toI64OrMax
  split <;> omega

/-- A cast that is in range changes nothing. -/
theorem asI64_eq {a : UInt64} (h : a.toNat < 2 ^ 63) : a.asI64 = a.toNat := by
  show Int.bmod a.toNat 18446744073709551616 = a.toNat
  rw [Int.bmod_eq_of_le (by omega) (by omega)]

end UInt64

namespace UInt32

/-- `u32::saturating_sub`. -/
def saturatingSub (a b : UInt32) : UInt32 :=
  if b ≤ a then a - b else 0

theorem toNat_saturatingSub (a b : UInt32) :
    (a.saturatingSub b).toNat = a.toNat - b.toNat := by
  unfold saturatingSub
  split
  next h => exact UInt32.toNat_sub_of_le _ _ h
  next h =>
    rw [UInt32.le_iff_toNat_le] at h
    rw [UInt32.toNat_zero]
    omega

end UInt32

/-- `i64::saturating_sub`. -/
def i64SaturatingSub (a b : ℤ) : ℤ := max (-2 ^ 63) (min (a - b) (2 ^ 63 - 1))

/-- `i32::try_from(_).unwrap_or(0)`. -/
def toI32OrZero (a : ℤ) : ℤ := if -2 ^ 31 ≤ a ∧ a < 2 ^ 31 then a else 0

/-- A difference that is in range, cast to `i64` and then to `i32`. -/
theorem bmod_bmod_eq {a : ℤ} (h : -2 ^ 31 ≤ a) (h' : a < 2 ^ 31) :
    Int.bmod (Int.bmod a (2 ^ 64)) (2 ^ 32) = a := by
  show Int.bmod (Int.bmod a 18446744073709551616) 4294967296 = a
  have hinner : Int.bmod a 18446744073709551616 = a :=
    Int.bmod_eq_of_le (by omega) (by omega)
  rw [hinner, Int.bmod_eq_of_le (by omega) (by omega)]
