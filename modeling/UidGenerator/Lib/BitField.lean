import Mathlib.Data.Int.Bitwise
import Mathlib.Tactic

/-! Bit fields of unbounded two's-complement integers. A field is read by a floor
division and a remainder, so that bitwise operations on packed words become
arithmetic on their fields. Nothing here depends on a particular word layout. -/

namespace BitField

/-- The `width` bits of `x` that start at bit `low`. -/
def field (low width : ℕ) (x : ℤ) : ℤ := x / 2 ^ low % 2 ^ width

theorem field_nonneg (low width : ℕ) (x : ℤ) : 0 ≤ field low width x :=
  Int.emod_nonneg _ (by positivity)

theorem field_lt (low width : ℕ) (x : ℤ) : field low width x < 2 ^ width :=
  Int.emod_lt_of_pos _ (by positivity)

theorem field_zero_low (width : ℕ) (x : ℤ) : field 0 width x = x % 2 ^ width := by
  simp [field]

theorem ediv_two_pow_succ (x : ℤ) (k : ℕ) : x / 2 ^ (k + 1) = x / 2 / 2 ^ k := by
  rw [Int.ediv_ediv_of_nonneg (by norm_num), pow_succ']

/-- A remainder splits into its low digit and the remainder of the quotient. -/
theorem emod_mul_eq (x : ℤ) {a : ℤ} (ha : 0 < a) (b : ℤ) :
    x % (a * b) = x % a + a * (x / a % b) := by
  have hq : x / (a * b) = x / a / b := (Int.ediv_ediv_of_nonneg ha.le).symm
  have h1 := Int.emod_add_mul_ediv x a
  have h2 := Int.emod_add_mul_ediv (x / a) b
  have h3 := Int.emod_add_mul_ediv x (a * b)
  rw [hq] at h3
  linear_combination h3 - h1 - a * h2

/-- Values closer than the modulus have different remainders. -/
theorem eq_of_emod_eq {a b m : ℤ} (hlo : -m < a - b) (hhi : a - b < m) (h : a % m = b % m) :
    a = b := by
  have hdvd : m ∣ a - b := Int.ModEq.dvd (h.symm : b ≡ a [ZMOD m])
  have hzero := Int.eq_zero_of_abs_lt_dvd hdvd (abs_lt.2 ⟨hlo, hhi⟩)
  omega

/-- Two adjacent fields make up the field that spans both. -/
theorem field_add_width (low i j : ℕ) (x : ℤ) :
    field low (i + j) x = field low i x + 2 ^ i * field (low + i) j x := by
  rw [field, pow_add, emod_mul_eq _ (by positivity), Int.ediv_ediv_of_nonneg (by positivity),
    ← pow_add]
  rfl

/-- Dropping the low bits of a word leaves its high field. -/
theorem emod_ediv_two_pow {low width n : ℕ} (h : low + width = n) (x : ℤ) :
    x % 2 ^ n / 2 ^ low = field low width x := by
  rw [← field_zero_low, ← h, field_add_width, Int.add_mul_ediv_left _ _ (by positivity),
    Int.ediv_eq_zero_of_lt (field_nonneg _ _ _) (field_lt _ _ _), zero_add, zero_add]

theorem field_mul_two_pow (low width k : ℕ) (x : ℤ) :
    field (k + low) width (x * 2 ^ k) = field low width x := by
  have hk : (2 : ℤ) ^ k ≠ 0 := by positivity
  rw [field, pow_add, ← Int.ediv_ediv_of_nonneg (by positivity), Int.mul_ediv_cancel _ hk]
  rfl

/-- The bits below a shift distance are zero. -/
theorem field_mul_two_pow_below {low width k : ℕ} (h : low + width ≤ k) (x : ℤ) :
    field low width (x * 2 ^ k) = 0 := by
  obtain ⟨d, rfl⟩ := Nat.exists_eq_add_of_le h
  have hlow : (2 : ℤ) ^ low ≠ 0 := by positivity
  have hx : x * 2 ^ (low + width + d) = x * 2 ^ d * 2 ^ width * 2 ^ low := by ring
  rw [field, hx, Int.mul_ediv_cancel _ hlow, Int.mul_emod_left]

/-- The bits above a bounded value are zero. -/
theorem field_eq_zero {low : ℕ} (width : ℕ) {x : ℤ} (h0 : 0 ≤ x) (h : x < 2 ^ low) :
    field low width x = 0 := by
  rw [field, Int.ediv_eq_zero_of_lt h0 h, Int.zero_emod]

theorem field_eq_self {width : ℕ} {x : ℤ} (h0 : 0 ≤ x) (h : x < 2 ^ width) :
    field 0 width x = x := by
  rw [field_zero_low, Int.emod_eq_of_lt h0 h]

/-- Reading a word signed changes none of its bits. -/
theorem field_bmod {low width n : ℕ} (h : low + width ≤ n) (x : ℤ) :
    field low width (x.bmod (2 ^ n)) = field low width x := by
  obtain ⟨d, rfl⟩ := Nat.exists_eq_add_of_le h
  have hlow : (2 : ℤ) ^ low ≠ 0 := by positivity
  have hx : x.bmod (2 ^ (low + width + d)) =
      x + -(Int.bdiv x (2 ^ (low + width + d)) * 2 ^ d * 2 ^ width) * 2 ^ low := by
    rw [Int.bmod_eq_self_sub_bdiv_mul]
    push_cast
    ring
  rw [field, hx, Int.add_mul_ediv_right _ _ hlow, ← neg_mul, Int.add_mul_emod_self_right]
  rfl

/-- A bitwise operation on words only reads the bits of the words. -/
theorem bmod_eq_of_field {n : ℕ} {x y : ℤ} (h : field 0 n x = field 0 n y) :
    x.bmod (2 ^ n) = y.bmod (2 ^ n) := by
  rw [field_zero_low, field_zero_low] at h
  have hn : ((2 ^ n : ℕ) : ℤ) = 2 ^ n := by push_cast; rfl
  rw [← Int.emod_bmod x, ← Int.emod_bmod y, hn, h]

theorem bit_ediv_two (b : Bool) (n : ℤ) : Int.bit b n / 2 = n := by
  rw [Int.bit_val]
  cases b
  · simp
  · simp only [cond_true]; omega

theorem bit_bodd_ediv_two (x : ℤ) : Int.bit x.bodd (x / 2) = x := by
  rw [← Int.div2_val, Int.bit_decomp]

theorem emod_two_pow_succ (x : ℤ) (k : ℕ) :
    x % 2 ^ (k + 1) = Int.bit x.bodd (x / 2 % 2 ^ k) := by
  have hbit := Int.bit_val x.bodd (x / 2)
  rw [bit_bodd_ediv_two] at hbit
  rw [pow_succ', emod_mul_eq _ (by norm_num), Int.bit_val]
  cases hb : x.bodd <;> simp only [hb, cond_true, cond_false] at hbit ⊢ <;> omega

theorem bitwise_ediv_two (f : Bool → Bool → Bool) (x y : ℤ) :
    Int.bitwise f x y / 2 = Int.bitwise f (x / 2) (y / 2) := by
  conv_lhs => rw [← bit_bodd_ediv_two x, ← bit_bodd_ediv_two y, Int.bitwise_bit, bit_ediv_two]

theorem bitwise_ediv_two_pow (f : Bool → Bool → Bool) (k : ℕ) (x y : ℤ) :
    Int.bitwise f x y / 2 ^ k = Int.bitwise f (x / 2 ^ k) (y / 2 ^ k) := by
  induction k generalizing x y with
  | zero => simp
  | succ k ih => simp only [ediv_two_pow_succ, bitwise_ediv_two, ih]

theorem bitwise_emod_two_pow {f : Bool → Bool → Bool} (hf : f false false = false) (k : ℕ)
    (x y : ℤ) :
    Int.bitwise f x y % 2 ^ k = Int.bitwise f (x % 2 ^ k) (y % 2 ^ k) := by
  induction k generalizing x y with
  | zero => simp [Int.bitwise, Int.natBitwise, hf]
  | succ k ih =>
    have hodd : (Int.bitwise f x y).bodd = f x.bodd y.bodd := by
      conv_lhs => rw [← bit_bodd_ediv_two x, ← bit_bodd_ediv_two y, Int.bitwise_bit, Int.bodd_bit]
    rw [emod_two_pow_succ, emod_two_pow_succ x, emod_two_pow_succ y, Int.bitwise_bit, hodd,
      bitwise_ediv_two, ih]

theorem field_bitwise {f : Bool → Bool → Bool} (hf : f false false = false) (low width : ℕ)
    (x y : ℤ) :
    field low width (Int.bitwise f x y) = Int.bitwise f (field low width x) (field low width y) := by
  rw [field, bitwise_ediv_two_pow, bitwise_emod_two_pow hf]
  rfl

theorem field_lor (low width : ℕ) (x y : ℤ) :
    field low width (Int.lor x y) = Int.lor (field low width x) (field low width y) := by
  rw [← Int.bitwise_or, field_bitwise rfl]

@[simp] theorem lor_zero (x : ℤ) : Int.lor x 0 = x := by
  cases x <;> simp [Int.lor, Nat.ldiff]

@[simp] theorem zero_lor (x : ℤ) : Int.lor 0 x = x := by
  cases x <;> simp [Int.lor, Nat.ldiff]

/-- A disjunction of shifted values is a shifted value. -/
theorem lor_mul_two_pow (x y : ℤ) (k : ℕ) :
    Int.lor (x * 2 ^ k) (y * 2 ^ k) = Int.lor x y * 2 ^ k := by
  have hk : (2 : ℤ) ^ k ≠ 0 := by positivity
  have hlow : Int.lor (x * 2 ^ k) (y * 2 ^ k) % 2 ^ k = 0 := by
    rw [← Int.bitwise_or, bitwise_emod_two_pow rfl, Int.bitwise_or, Int.mul_emod_left,
      Int.mul_emod_left, lor_zero]
  have hhigh : Int.lor (x * 2 ^ k) (y * 2 ^ k) / 2 ^ k = Int.lor x y := by
    rw [← Int.bitwise_or, bitwise_ediv_two_pow, Int.bitwise_or, Int.mul_ediv_cancel _ hk,
      Int.mul_ediv_cancel _ hk]
  have hsum := Int.emod_add_mul_ediv (Int.lor (x * 2 ^ k) (y * 2 ^ k)) (2 ^ k)
  rw [hlow, hhigh] at hsum
  linarith

/-- Disjunction with a value below a shift distance is addition. -/
theorem lor_eq_add {k : ℕ} (x : ℤ) {y : ℤ} (h0 : 0 ≤ y) (h : y < 2 ^ k) :
    Int.lor (x * 2 ^ k) y = x * 2 ^ k + y := by
  have hlow : Int.lor (x * 2 ^ k) y % 2 ^ k = y := by
    rw [← Int.bitwise_or, bitwise_emod_two_pow rfl, Int.bitwise_or, Int.mul_emod_left, zero_lor,
      Int.emod_eq_of_lt h0 h]
  have hhigh : Int.lor (x * 2 ^ k) y / 2 ^ k = x := by
    rw [← Int.bitwise_or, bitwise_ediv_two_pow, Int.bitwise_or, Int.ediv_eq_zero_of_lt h0 h,
      lor_zero, Int.mul_ediv_cancel _ (by positivity)]
  have hsum := Int.emod_add_mul_ediv (Int.lor (x * 2 ^ k) y) (2 ^ k)
  rw [hlow, hhigh] at hsum
  linarith

/-- Masking with `k` low ones is a remainder, for negative values too. -/
theorem land_two_pow_sub_one (k : ℕ) (x : ℤ) : Int.land x (2 ^ k - 1) = x % 2 ^ k := by
  induction k generalizing x with
  | zero => cases x <;> simp [Int.land, Nat.ldiff]
  | succ k ih =>
    have hmask : (2 : ℤ) ^ (k + 1) - 1 = Int.bit true (2 ^ k - 1) := by
      rw [Int.bit_val, pow_succ]
      simp only [cond_true]
      ring
    rw [emod_two_pow_succ, hmask]
    conv_lhs => rw [← bit_bodd_ediv_two x, Int.land_bit, Bool.and_true, ih]

theorem lnot_eq (x : ℤ) : Int.lnot x = -x - 1 := by
  cases x with
  | ofNat n => simp only [Int.lnot, Int.ofNat_eq_natCast]; omega
  | negSucc n => simp only [Int.lnot]; omega

end BitField
