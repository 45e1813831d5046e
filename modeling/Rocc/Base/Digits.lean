import Mathlib.Algebra.Ring.Int.Defs
import Mathlib.Algebra.Ring.Nat
import Mathlib.Data.Int.Basic

/-!
# Digits that start at one

A number in a mixed radix whose digits go from one up to the radix itself still has only one
representation, but dividing by the radix gives one too many in front of the largest digit.

The second part is about signed machine words: sums, products and digits that fit are those
of the integers, and two numbers whose bits do not meet can be joined.
-/

namespace Rocc

/-- The number in front of the last digit. -/
def leading (number radix : Int) : Int :=
  if number % radix = 0 then number / radix - 1 else number / radix

theorem leading_eq {radix high digit : Int} (least : 1 ≤ digit) (most : digit ≤ radix) :
    leading (high * radix + digit) radix = high := by
  have pos : radix ≠ 0 := by omega
  rw [leading, Int.add_comm, Int.add_mul_emod_self_right, Int.add_mul_ediv_right _ _ pos]
  by_cases full : digit = radix
  · rw [if_pos (by rw [full, Int.emod_self]), full, Int.ediv_self pos]
    omega
  · have small := Int.emod_eq_of_lt (show 0 ≤ digit by omega) (show digit < radix by omega)
    rw [if_neg (by omega), Int.ediv_eq_zero_of_lt (by omega) (by omega)]
    omega

/-- Two such numbers are the same only if their digits are. -/
theorem digits_unique {radix high digit high' digit' : Int} (least : 1 ≤ digit)
    (most : digit ≤ radix) (least' : 1 ≤ digit') (most' : digit' ≤ radix)
    (same : high * radix + digit = high' * radix + digit') : high = high' ∧ digit = digit' := by
  have sameHigh : high = high' := by
    rw [← @leading_eq radix high digit least most, same, leading_eq least' most']
  subst sameHigh
  exact ⟨rfl, by omega⟩

/-! ## Words -/

theorem toInt_add32 {a b : Int32} (least : 0 ≤ a.toInt + b.toInt)
    (fits : a.toInt + b.toInt < 2 ^ 31) : (a + b).toInt = a.toInt + b.toInt := by
  rw [Int32.toInt_add]
  apply Int.bmod_eq_of_le <;> omega

theorem toInt_mul32 {a factor : Int32} {n : Int} (isFactor : factor.toInt = n)
    (least : 0 ≤ a.toInt * n) (fits : a.toInt * n < 2 ^ 31) :
    (a * factor).toInt = a.toInt * n := by
  rw [Int32.toInt_mul, isFactor]
  apply Int.bmod_eq_of_le <;> omega

theorem toInt_mod32 {a radix : Int32} {n : Int} (isRadix : radix.toInt = n)
    (nonneg : 0 ≤ a.toInt) : (a % radix).toInt = a.toInt % n := by
  rw [Int32.toInt_mod, isRadix, Int.tmod_eq_emod_of_nonneg nonneg]

theorem toInt_div32 {a radix : Int32} {n : Int} (isRadix : radix.toInt = n) (pos : 0 < n)
    (nonneg : 0 ≤ a.toInt) : (a / radix).toInt = a.toInt / n := by
  rw [Int32.toInt_div_of_ne_right, isRadix, Int.tdiv_eq_ediv_of_nonneg nonneg]
  rintro rfl
  have minusOne : n = -1 := isRadix.symm
  omega

theorem toInt_add64 {a b : Int64} (least : 0 ≤ a.toInt + b.toInt)
    (fits : a.toInt + b.toInt < 2 ^ 63) : (a + b).toInt = a.toInt + b.toInt := by
  rw [Int64.toInt_add]
  apply Int.bmod_eq_of_le <;> omega

theorem toInt_mul64 {a factor : Int64} {n : Int} (isFactor : factor.toInt = n)
    (least : 0 ≤ a.toInt * n) (fits : a.toInt * n < 2 ^ 63) :
    (a * factor).toInt = a.toInt * n := by
  rw [Int64.toInt_mul, isFactor]
  apply Int.bmod_eq_of_le <;> omega

theorem toInt_mod64 {a radix : Int64} {n : Int} (isRadix : radix.toInt = n)
    (nonneg : 0 ≤ a.toInt) : (a % radix).toInt = a.toInt % n := by
  rw [Int64.toInt_mod, isRadix, Int.tmod_eq_emod_of_nonneg nonneg]

theorem toInt_div64 {a radix : Int64} {n : Int} (isRadix : radix.toInt = n) (pos : 0 < n)
    (nonneg : 0 ≤ a.toInt) : (a / radix).toInt = a.toInt / n := by
  rw [Int64.toInt_div_of_ne_right, isRadix, Int.tdiv_eq_ediv_of_nonneg nonneg]
  rintro rfl
  have minusOne : n = -1 := isRadix.symm
  omega

/-- The number in front of the last digit, with the arithmetic of words. -/
theorem toInt_leading32 {number radix : Int32} {n : Int} (isRadix : radix.toInt = n) (pos : 0 < n)
    (nonneg : 0 ≤ number.toInt) :
    (if number % radix = 0 then number / radix - 1 else number / radix).toInt =
      leading number.toInt n := by
  have below := number.toInt_lt
  have remainder := toInt_mod32 isRadix nonneg
  have quotient := toInt_div32 isRadix pos nonneg
  have quotient_nonneg := Int.ediv_nonneg nonneg (Int.le_of_lt pos)
  have quotient_le := Int.ediv_le_self n nonneg
  have isZero : number % radix = 0 ↔ number.toInt % n = 0 := by
    rw [← Int32.toInt_inj, remainder]
    rfl
  rw [leading]
  split
  · have less : (number / radix - 1).toInt = number.toInt / n - 1 := by
      rw [Int32.toInt_sub, quotient]
      exact Int.bmod_eq_of_le (by change _ ≤ _ - 1; omega) (by change _ - 1 < _; omega)
    rw [if_pos (isZero.mp ‹_›), less]
  · rw [if_neg (mt isZero.mpr ‹_›), quotient]

/-- The same for a number in a longer word. -/
theorem toInt_leading64 {number radix : Int64} {n : Int} (isRadix : radix.toInt = n) (pos : 0 < n)
    (small : n < 2 ^ 31) (nonneg : 0 ≤ number.toInt) (below : number.toInt < 2 ^ 31) :
    (if (number % radix).toInt32 = 0 then (number / radix - 1).toInt32
      else (number / radix).toInt32).toInt = leading number.toInt n := by
  have remainder := toInt_mod64 isRadix nonneg
  have quotient := toInt_div64 isRadix pos nonneg
  have quotient_nonneg := Int.ediv_nonneg nonneg (Int.le_of_lt pos)
  have quotient_le := Int.ediv_le_self n nonneg
  have remainder_nonneg := Int.emod_nonneg number.toInt (Int.ne_of_gt pos)
  have remainder_lt := Int.emod_lt_of_pos number.toInt pos
  have isZero : (number % radix).toInt32 = 0 ↔ number.toInt % n = 0 := by
    rw [← Int32.toInt_inj, Int64.toInt_toInt32, remainder,
      Int.bmod_eq_of_le (by omega) (by omega)]
    rfl
  rw [leading]
  split
  · have less : (number / radix - 1).toInt = number.toInt / n - 1 := by
      rw [Int64.toInt_sub, quotient]
      exact Int.bmod_eq_of_le (by change _ ≤ _ - 1; omega) (by change _ - 1 < _; omega)
    rw [if_pos (isZero.mp ‹_›), Int64.toInt_toInt32, less]
    exact Int.bmod_eq_of_le (by omega) (by omega)
  · rw [if_neg (mt isZero.mpr ‹_›), Int64.toInt_toInt32, quotient]
    exact Int.bmod_eq_of_le (by omega) (by omega)

theorem shiftLeft_or {size width : Nat} {high low : BitVec size} (short : low.toNat < 2 ^ width)
    (fits : high.toNat * 2 ^ width < 2 ^ size) :
    (high <<< width ||| low).toNat = high.toNat * 2 ^ width + low.toNat := by
  rw [BitVec.toNat_or, BitVec.toNat_shiftLeft, Nat.shiftLeft_eq, Nat.mod_eq_of_lt fits,
    ← Nat.shiftLeft_eq, ← Nat.shiftLeft_add_eq_or_of_lt short, Nat.shiftLeft_eq]

theorem toNat_toBitVec {word : Int64} (nonneg : 0 ≤ word.toInt) :
    (word.toBitVec.toNat : Int) = word.toInt := by
  rw [← Int64.toInt_toBitVec] at nonneg ⊢
  rw [BitVec.toInt_eq_toNat_cond] at nonneg ⊢
  split at nonneg
  · rw [if_pos ‹_›]
  · omega

/-- The bits of two numbers that do not meet. -/
theorem toInt_join {shift : Int64} {width : Nat}
    (isShift : (shift.toBitVec.smod 64).toNat = width) {high low : Int64}
    (high_nonneg : 0 ≤ high.toInt) (low_nonneg : 0 ≤ low.toInt) (short : low.toInt < 2 ^ width)
    (fits : high.toInt * 2 ^ width + low.toInt < 2 ^ 63) :
    (high <<< shift ||| low).toInt = high.toInt * 2 ^ width + low.toInt := by
  have isHigh := toNat_toBitVec high_nonneg
  have isLow := toNat_toBitVec low_nonneg
  have scaled : ((high.toBitVec.toNat * 2 ^ width : Nat) : Int) = high.toInt * 2 ^ width := by
    rw [← isHigh]
    exact Int.natCast_mul _ _
  have below : low.toBitVec.toNat < 2 ^ width := by
    have cast : ((2 ^ width : Nat) : Int) = 2 ^ width := Int.natCast_pow 2 width
    omega
  have bits : (high <<< shift ||| low).toBitVec = high.toBitVec <<< width ||| low.toBitVec := by
    rw [Int64.toBitVec_or, Int64.toBitVec_shiftLeft, BitVec.shiftLeft_eq', isShift]
  have whole := @shiftLeft_or 64 width high.toBitVec low.toBitVec below (by omega)
  rw [← Int64.toInt_toBitVec, bits, BitVec.toInt_eq_toNat_of_lt] <;> omega

end Rocc
