import Mathlib.Data.BitVec
import Mathlib.Data.Int.Bitwise
import Mathlib.Tactic

/-! Unbounded two's-complement integers as words of a fixed width. The bits of a word
are the low bits of its integer, so an operation on integers that computes each bit from
the same and lower bits is the operation on the words. -/

namespace Words

variable {n : ℕ}

theorem getLsbD_ofInt (x : ℤ) (i : ℕ) :
    (BitVec.ofInt n x).getLsbD i = (decide (i < n) && Int.testBit x i) := by
  cases x with
  | ofNat k =>
    rw [Int.ofNat_eq_natCast, BitVec.ofInt_natCast, BitVec.getLsbD_ofNat]
    rfl
  | negSucc k =>
    rw [BitVec.ofInt_negSucc_eq_not_ofNat, BitVec.getLsbD_not, BitVec.getLsbD_ofNat]
    by_cases h : i < n <;> simp [h, Int.testBit]

theorem ofInt_lor (x y : ℤ) :
    BitVec.ofInt n (Int.lor x y) = BitVec.ofInt n x ||| BitVec.ofInt n y := by
  apply BitVec.eq_of_getLsbD_eq
  intro i hi
  rw [BitVec.getLsbD_or, getLsbD_ofInt, getLsbD_ofInt, getLsbD_ofInt, Int.testBit_lor]
  simp [hi]

theorem ofInt_land (x y : ℤ) :
    BitVec.ofInt n (Int.land x y) = BitVec.ofInt n x &&& BitVec.ofInt n y := by
  apply BitVec.eq_of_getLsbD_eq
  intro i hi
  rw [BitVec.getLsbD_and, getLsbD_ofInt, getLsbD_ofInt, getLsbD_ofInt, Int.testBit_land]
  simp [hi]

theorem ofInt_lnot (x : ℤ) : BitVec.ofInt n (Int.lnot x) = ~~~BitVec.ofInt n x := by
  apply BitVec.eq_of_getLsbD_eq
  intro i hi
  rw [BitVec.getLsbD_not, getLsbD_ofInt, getLsbD_ofInt, Int.testBit_lnot]
  simp [hi]

theorem ofInt_sub (x y : ℤ) :
    BitVec.ofInt n (x - y) = BitVec.ofInt n x - BitVec.ofInt n y := by
  rw [sub_eq_add_neg, BitVec.ofInt_add, BitVec.ofInt_neg, BitVec.sub_eq_add_neg]

theorem ofInt_two_pow (k : ℕ) : BitVec.ofInt n (2 ^ k) = BitVec.twoPow n k := by
  apply BitVec.eq_of_toNat_eq
  have hcast : (2 : ℤ) ^ k = ((2 ^ k : ℕ) : ℤ) := by push_cast; rfl
  rw [hcast, BitVec.ofInt_natCast, BitVec.toNat_ofNat, BitVec.toNat_twoPow]

theorem ofInt_mul_two_pow (x : ℤ) (k : ℕ) :
    BitVec.ofInt n (x * 2 ^ k) = BitVec.ofInt n x <<< k := by
  rw [BitVec.ofInt_mul, ofInt_two_pow, BitVec.shiftLeft_eq_mul_twoPow]

/-- Dividing the unsigned value of a word shifts zeros in from above. -/
theorem ofInt_emod_ediv (x : ℤ) (k : ℕ) :
    BitVec.ofInt n (x % 2 ^ n / 2 ^ k) = BitVec.ofInt n x >>> k := by
  apply BitVec.eq_of_toNat_eq
  have hvalue : (((BitVec.ofInt n x).toNat : ℕ) : ℤ) = x % 2 ^ n := by
    have hnonneg : 0 ≤ x % 2 ^ n := Int.emod_nonneg _ (by positivity)
    rw [BitVec.toNat_ofInt]
    push_cast
    exact Int.toNat_of_nonneg hnonneg
  have hcast : x % 2 ^ n / 2 ^ k = (((BitVec.ofInt n x).toNat / 2 ^ k : ℕ) : ℤ) := by
    push_cast
    rw [hvalue]
  rw [hcast, BitVec.ofInt_natCast, BitVec.toNat_ofNat, BitVec.toNat_ushiftRight,
    Nat.shiftRight_eq_div_pow]
  exact Nat.mod_eq_of_lt ((Nat.div_le_self _ _).trans_lt (BitVec.isLt _))

end Words
