import UidGenerator.Lib.Words
import UidGenerator.Spec.Basic

/-! The Java `long` helpers in terms of bit fields and remainders modulo `2 ^ 64`, and
where the rounding of a number changes nothing. -/

namespace UID

open BitField

theorem roundToDouble_of_lt (value : ℤ) (h : value.natAbs < 2 ^ 53) :
    roundToDouble value = value := by
  rw [roundToDouble, if_pos h]

theorem two_pow_le_roundToDouble {value : ℤ} (h : 2 ^ 53 ≤ value) :
    2 ^ 53 ≤ roundToDouble value := by
  have hmagnitude : 2 ^ 53 ≤ value.natAbs := by omega
  have hlog : 53 ≤ value.natAbs.log2 := (Nat.le_log2 (by omega)).2 hmagnitude
  have hsign : value.sign = 1 := Int.sign_eq_one_of_pos (by omega)
  rw [roundToDouble, if_neg (by omega), hsign, one_mul]
  -- The significand has 53 bits before it is rounded, and rounding makes it no smaller.
  set exponent := value.natAbs.log2 - 52 with hexponent
  have hsignificand : 2 ^ 52 ≤ value.natAbs / 2 ^ exponent := by
    rw [Nat.le_div_iff_mul_le (by positivity), ← pow_add,
      show 52 + exponent = value.natAbs.log2 by omega]
    exact Nat.log2_self_le (by omega)
  have hscale : 2 ^ 1 ≤ 2 ^ exponent := Nat.pow_le_pow_right (by norm_num) (by omega)
  have hproduct {rounded : ℕ} (hrounded : 2 ^ 52 ≤ rounded) :
      (2 : ℤ) ^ 53 ≤ ((rounded * 2 ^ exponent : ℕ) : ℤ) := by
    exact_mod_cast (show 2 ^ 53 = 2 ^ 52 * 2 ^ 1 by norm_num) ▸ Nat.mul_le_mul hrounded hscale
  split_ifs
  · exact hproduct (by omega)
  · exact hproduct hsignificand

theorem roundToDouble_nonneg {value : ℤ} (h : 0 ≤ value) : 0 ≤ roundToDouble value := by
  by_cases hsmall : value < 2 ^ 53
  · rwa [roundToDouble_of_lt value (by omega)]
  · have hlarge := two_pow_le_roundToDouble (not_lt.1 hsmall)
    omega

/-- A sum that reads below `2 ^ 53` was not rounded. -/
theorem eq_of_roundToDouble {value : ℤ} (h0 : 0 ≤ value) (h : roundToDouble value < 2 ^ 53) :
    roundToDouble value = value := by
  by_cases hsmall : value < 2 ^ 53
  · exact roundToDouble_of_lt value (by omega)
  · have hlarge := two_pow_le_roundToDouble (not_lt.1 hsmall)
    omega

/-- The values a `long` can hold. -/
def IsLong (x : ℤ) : Prop := -2 ^ 63 ≤ x ∧ x < 2 ^ 63

theorem isLong_toLong (x : ℤ) : IsLong (toLong x) := by
  have h1 := Int.le_bmod (x := x) (m := 2 ^ LONG_BITS) (by decide)
  have h2 := Int.bmod_lt (x := x) (m := 2 ^ LONG_BITS) (by decide)
  unfold IsLong toLong
  norm_num [LONG_BITS] at h1 h2 ⊢
  omega

theorem toLong_eq_self {x : ℤ} (h : IsLong x) : toLong x = x := by
  obtain ⟨h1, h2⟩ := h
  exact Int.bmod_eq_of_le_mul_two (by norm_num [LONG_BITS]; omega) (by norm_num [LONG_BITS]; omega)

@[simp] theorem toLong_toLong (x : ℤ) : toLong (toLong x) = toLong x := Int.bmod_bmod

theorem toLong_emod (x : ℤ) : toLong x % 2 ^ 64 = x % 2 ^ 64 := by
  have h := Int.bmod_emod (x := x) (m := 2 ^ LONG_BITS)
  simpa [toLong, LONG_BITS] using h

theorem toLong_eq_toLong_iff {x y : ℤ} : toLong x = toLong y ↔ x % 2 ^ 64 = y % 2 ^ 64 := by
  refine ⟨?_, ?_⟩
  · intro h
    rw [← toLong_emod x, h, toLong_emod]
  · intro h
    exact bmod_eq_of_field (by rw [field_zero_low, field_zero_low]; exact h)

/-- Two longs less than a word apart wrap to the same value only when they are equal. -/
theorem toLong_inj {x y : ℤ} (hlo : -2 ^ 64 < x - y) (hhi : x - y < 2 ^ 64)
    (h : toLong x = toLong y) : x = y := by
  rw [toLong_eq_toLong_iff] at h
  omega

theorem toLong_add_toLong (x y : ℤ) : toLong (toLong x + y) = toLong (x + y) := Int.bmod_add_bmod

theorem field_toLong {low width : ℕ} (h : low + width ≤ 64) (x : ℤ) :
    field low width (toLong x) = field low width x :=
  field_bmod h x

theorem shiftDistance_eq (distance : ℤ) : shiftDistance distance = (distance % 64).toNat := by
  have h := land_two_pow_sub_one 6 (toInt32 distance)
  have h64 : toInt32 distance % 64 = distance % 64 := by
    have hd := Int.bmod_emod (x := distance) (m := 2 ^ 32)
    unfold toInt32
    norm_num at hd ⊢
    omega
  norm_num at h
  rw [shiftDistance, h, h64]

theorem shiftDistance_natCast {n : ℕ} (h : n < 64) : shiftDistance n = n := by
  rw [shiftDistance_eq, Int.emod_eq_of_lt (by omega) (by omega), Int.toNat_natCast]

/-- A field that avoids the sign bit is a long as it stands. -/
theorem toLong_field (low : ℕ) {width : ℕ} (h : width ≤ 63) (x : ℤ) :
    toLong (field low width x) = field low width x := by
  have h0 := field_nonneg low width x
  have hlt := field_lt low width x
  have hpow : (2 : ℤ) ^ width ≤ 2 ^ 63 := pow_le_pow_right₀ (by norm_num) h
  exact toLong_eq_self ⟨by omega, by omega⟩

theorem unsignedShiftRight_eq (low width : ℕ) (hl : 0 < low) (hw : 0 < width)
    (h : low + width = 64) (x : ℤ) : unsignedShiftRight x low = field low width x := by
  rw [unsignedShiftRight, toUnsignedLong, LONG_BITS, shiftDistance_natCast (by omega),
    emod_ediv_two_pow h, toLong_field low (by omega)]

/-- Shifting up past the sign and back down keeps exactly one field. -/
theorem unsignedShiftRight_shiftLeft (low : ℕ) {width high : ℕ} (hw : 0 < width) (hh : 0 < high)
    (h : low + width + high = 64) (x : ℤ) :
    unsignedShiftRight (shiftLeft x high) (low + high : ℕ) = field low width x := by
  rw [unsignedShiftRight_eq (low + high) width (by omega) hw (by omega), shiftLeft,
    shiftDistance_natCast (by omega), field_toLong (by omega), Nat.add_comm low high,
    field_mul_two_pow]

/-- The 64 bits of a Java `long`, or of any integer that is cut to one. -/
def word (x : ℤ) : BitVec 64 := BitVec.ofInt 64 x

theorem toLong_eq_toInt (x : ℤ) : toLong x = (word x).toInt := by
  rw [word, BitVec.toInt_ofInt]
  rfl

theorem word_toLong (x : ℤ) : word (toLong x) = word x := by
  rw [toLong_eq_toInt, word, BitVec.ofInt_toInt]

theorem shiftLeft_word (x distance : ℤ) :
    shiftLeft x distance = (word x <<< (distance % 64).toNat).toInt := by
  have hword := Words.ofInt_mul_two_pow (n := 64) x (distance % 64).toNat
  rw [shiftLeft, toLong_eq_toInt, shiftDistance_eq, word, hword, word]

theorem unsignedShiftRight_word (x distance : ℤ) :
    unsignedShiftRight x distance = (word x >>> (distance % 64).toNat).toInt := by
  have hword := Words.ofInt_emod_ediv (n := 64) x (distance % 64).toNat
  rw [unsignedShiftRight, toLong_eq_toInt, shiftDistance_eq, toUnsignedLong, LONG_BITS, word, hword,
    word]

theorem not_word (x : ℤ) : not x = (~~~word x).toInt := by
  rw [not, toLong_eq_toInt, word, Words.ofInt_lnot, word]

theorem or_word (x y : ℤ) : or x y = (word x ||| word y).toInt := by
  rw [or, toLong_eq_toInt, word, Words.ofInt_lor, word, word]

theorem and_word (x y : ℤ) : and x y = (word x &&& word y).toInt := by
  rw [and, toLong_eq_toInt, word, Words.ofInt_land, word, word]

theorem add_word (x y : ℤ) : add x y = (word x + word y).toInt := by
  rw [add, toLong_eq_toInt, word, BitVec.ofInt_add, word, word]

theorem subtract_word (x y : ℤ) : subtract x y = (word x - word y).toInt := by
  rw [subtract, toLong_eq_toInt, word, Words.ofInt_sub, word, word]

/-- An arithmetic shift reads its argument as it stands, so it has to be a long already. -/
theorem shiftRight_word {x : ℤ} (h : IsLong x) (distance : ℤ) :
    shiftRight x distance = ((word x).sshiftRight (distance % 64).toNat).toInt := by
  have hself : (word x).toInt = x := by rw [← toLong_eq_toInt, toLong_eq_self h]
  have hpos : (0 : ℤ) < 2 ^ (distance % 64).toNat := by positivity
  have hshift : x >>> (distance % 64).toNat = x / 2 ^ (distance % 64).toNat := by
    rw [Int.shiftRight_eq_div_pow]
    push_cast
    rfl
  obtain ⟨hlo, hhi⟩ := h
  rw [shiftRight, shiftDistance_eq, BitVec.toInt_sshiftRight, hself, hshift]
  apply toLong_eq_self
  refine ⟨?_, ?_⟩
  · rw [Int.le_ediv_iff_mul_le hpos]
    nlinarith
  · rw [Int.ediv_lt_iff_lt_mul hpos]
    nlinarith

/-- The helpers of `long.ts` are the operations on 64-bit words, whatever the size of their
arguments; only the arithmetic shift needs a long. -/
theorem long_helpers_words (x y distance : ℤ) :
    (shiftLeft x distance = (word x <<< (distance % 64).toNat).toInt ∧
      unsignedShiftRight x distance = (word x >>> (distance % 64).toNat).toInt ∧
      not x = (~~~word x).toInt ∧ or x y = (word x ||| word y).toInt ∧
      and x y = (word x &&& word y).toInt ∧ add x y = (word x + word y).toInt ∧
      subtract x y = (word x - word y).toInt) ∧
    (IsLong x →
      shiftRight x distance = ((word x).sshiftRight (distance % 64).toNat).toInt) ∧
    shiftLeft (toLong x) distance = shiftLeft x distance ∧
    unsignedShiftRight (toLong x) distance = unsignedShiftRight x distance ∧
    not (toLong x) = not x ∧ or (toLong x) (toLong y) = or x y ∧
    and (toLong x) (toLong y) = and x y ∧ add (toLong x) (toLong y) = add x y ∧
    subtract (toLong x) (toLong y) = subtract x y := by
  refine ⟨⟨shiftLeft_word x distance, unsignedShiftRight_word x distance, not_word x, or_word x y,
    and_word x y, add_word x y, subtract_word x y⟩, fun h => shiftRight_word h distance, ?_⟩
  simp only [shiftLeft_word, unsignedShiftRight_word, not_word, or_word, and_word, add_word,
    subtract_word, word_toLong, and_self]

theorem long_helpers_words_minus_one :
    IsLong (-1) ∧ shiftRight (-1) (-1) = ((word (-1)).sshiftRight 63).toInt :=
  ⟨⟨by decide, by decide⟩,
    (long_helpers_words (-1) (-1) (-1)).2.1 ⟨by decide, by decide⟩⟩

end UID
