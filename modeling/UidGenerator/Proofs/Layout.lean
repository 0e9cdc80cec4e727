import UidGenerator.Spec.BitsAllocator
import UidGenerator.Proofs.Long

/-! The word layout behind a `BitsAllocator` with positive widths. `allocate` is a
sum of shifted fields, `parse` reads the fields back, and each undoes the other. -/

namespace UID

open BitField

/-- Three positive widths that fill the 63 bits below the sign. -/
structure Layout where
  t : ℕ
  w : ℕ
  s : ℕ
  t_pos : 0 < t
  w_pos : 0 < w
  s_pos : 0 < s
  bits_sum : t + w + s = 63

namespace Layout

def allocator (L : Layout) : BitsAllocator where
  timestampBits := L.t
  workerIdBits := L.w
  sequenceBits := L.s
  maxDeltaSeconds := 2 ^ L.t - 1
  maxWorkerId := 2 ^ L.w - 1
  maxSequence := 2 ^ L.s - 1
  timestampShift := L.w + L.s
  workerIdShift := L.s

def pack (L : Layout) (deltaSeconds workerId sequence : ℤ) : ℤ :=
  deltaSeconds * 2 ^ (L.w + L.s) + workerId * 2 ^ L.s + sequence

theorem eq_of_widths {L L' : Layout} (ht : (L.t : ℤ) = L'.t) (hw : (L.w : ℤ) = L'.w)
    (hs : (L.s : ℤ) = L'.s) : L = L' := by
  obtain ⟨t, w, s, _, _, _, _⟩ := L
  obtain ⟨t', w', s', _, _, _, _⟩ := L'
  obtain rfl : t = t' := Int.natCast_inj.1 ht
  obtain rfl : w = w' := Int.natCast_inj.1 hw
  obtain rfl : s = s' := Int.natCast_inj.1 hs
  rfl

/-- Positive widths of 63 bits in all are those of a layout. -/
theorem exists_of_widths {t w s : ℤ} (ht : 0 < t) (hw : 0 < w) (hs : 0 < s)
    (hsum : t + w + s = 63) : ∃ L : Layout, t = L.t ∧ w = L.w ∧ s = L.s := by
  lift t to ℕ using ht.le
  lift w to ℕ using hw.le
  lift s to ℕ using hs.le
  exact ⟨⟨t, w, s, by omega, by omega, by omega, by omega⟩, rfl, rfl, rfl⟩

theorem two_pow_sum (L : Layout) : (2 : ℤ) ^ L.t * 2 ^ (L.w + L.s) = 2 ^ 63 := by
  rw [← pow_add, show L.t + (L.w + L.s) = 63 by have := L.bits_sum; omega]

end Layout

/-- The largest number of `width` bits, with the width reduced as every shift distance is. -/
theorem not_shiftLeft_neg_one (width : ℤ) :
    not (shiftLeft (-1) width) = 2 ^ shiftDistance width - 1 := by
  have hle : shiftDistance width ≤ 63 := by
    rw [shiftDistance_eq]
    omega
  have hpow : (2 : ℤ) ^ shiftDistance width ≤ 2 ^ 63 := pow_le_pow_right₀ (by norm_num) hle
  have hpos : (0 : ℤ) < 2 ^ shiftDistance width := by positivity
  have hs : shiftLeft (-1) width = -2 ^ shiftDistance width := by
    rw [shiftLeft, neg_one_mul, toLong_eq_self ⟨by omega, by omega⟩]
  rw [not, hs, lnot_eq, neg_neg, toLong_eq_self ⟨by omega, by omega⟩]

/-- Positive widths are accepted exactly when they make up a layout. -/
theorem Layout.new_eq (L : Layout) : BitsAllocator.new L.t L.w L.s = .ok L.allocator := by
  obtain ⟨t, w, s, ht, hw, hs, hsum⟩ := L
  have htotal : (1 : ℤ) + t + w + s = TOTAL_BITS := by
    rw [show TOTAL_BITS = 64 by decide]
    omega
  have hround {value : ℤ} (h0 : 0 ≤ value) (h64 : value ≤ 64) : roundToDouble value = value :=
    roundToDouble_of_lt value (by omega)
  simp only [BitsAllocator.new, isTrue, Layout.allocator, not_shiftLeft_neg_one,
    hround (show 0 ≤ 1 + (t : ℤ) by omega) (by omega),
    hround (show 0 ≤ 1 + (t : ℤ) + w by omega) (by omega),
    hround (show 0 ≤ (w : ℤ) + s by omega) (by omega), htotal,
    shiftDistance_natCast (show t < 64 by omega), shiftDistance_natCast (show w < 64 by omega),
    shiftDistance_natCast (show s < 64 by omega)]
  rfl

theorem total_of_new {t w s : ℤ} {A : BitsAllocator} (h : BitsAllocator.new t w s = .ok A) :
    roundToDouble (roundToDouble (roundToDouble (1 + t) + w) + s) = 64 := by
  by_contra hne
  have htotal : ¬(roundToDouble (roundToDouble (roundToDouble (1 + t) + w) + s) = TOTAL_BITS) := by
    rwa [show TOTAL_BITS = 64 by decide]
  simp only [BitsAllocator.new, isTrue, htotal, if_false] at h
  cases h

/-- The sums of positive widths that are accepted have not been rounded. -/
theorem bits_of_new {t w s : ℤ} {A : BitsAllocator} (ht : 0 < t) (hw : 0 < w) (hs : 0 < s)
    (h : BitsAllocator.new t w s = .ok A) : 1 + t + w + s = 64 := by
  have htotal := total_of_new h
  have h1 : 0 ≤ roundToDouble (1 + t) := roundToDouble_nonneg (by omega)
  have h2 : 0 ≤ roundToDouble (roundToDouble (1 + t) + w) := roundToDouble_nonneg (by omega)
  rw [eq_of_roundToDouble (by omega) (by omega)] at htotal
  rw [eq_of_roundToDouble (by omega) (by omega)] at htotal
  rw [eq_of_roundToDouble (by omega) (by omega)] at htotal
  exact htotal

theorem layout_of_new {t w s : ℤ} {A : BitsAllocator} (ht : 0 < t) (hw : 0 < w) (hs : 0 < s)
    (h : BitsAllocator.new t w s = .ok A) :
    ∃ L : Layout, A = L.allocator ∧ t = L.t ∧ w = L.w ∧ s = L.s := by
  have hsum := bits_of_new ht hw hs h
  obtain ⟨L, rfl, rfl, rfl⟩ := Layout.exists_of_widths ht hw hs (by omega)
  exact ⟨L, Except.ok.inj (h.symm.trans L.new_eq), rfl, rfl, rfl⟩

theorem toLong_lor_left (x y : ℤ) : toLong (Int.lor (toLong x) y) = toLong (Int.lor x y) :=
  bmod_eq_of_field (n := 64) (by rw [field_lor, field_lor, field_toLong (by omega)])

theorem toLong_lor_right (x y : ℤ) : toLong (Int.lor x (toLong y)) = toLong (Int.lor x y) :=
  bmod_eq_of_field (n := 64) (by rw [field_lor, field_lor, field_toLong (by omega)])

/-- The word that is packed, before it is cut to 64 bits. -/
theorem BitsAllocator.allocate_lor (A : BitsAllocator) (deltaSeconds workerId sequence : ℤ) :
    A.allocate deltaSeconds workerId sequence =
      toLong (Int.lor (Int.lor (deltaSeconds * 2 ^ shiftDistance A.timestampShift)
        (workerId * 2 ^ shiftDistance A.workerIdShift)) sequence) := by
  rw [BitsAllocator.allocate, shiftLeft, shiftLeft, or, or, toLong_lor_left (deltaSeconds * _),
    toLong_lor_right, toLong_lor_left]

/-- Every field of an allocated word, whatever was packed into it. -/
theorem BitsAllocator.field_allocate (A : BitsAllocator) {low width : ℕ} (h : low + width ≤ 64)
    (deltaSeconds workerId sequence : ℤ) :
    field low width (A.allocate deltaSeconds workerId sequence) =
      Int.lor (Int.lor (field low width (deltaSeconds * 2 ^ shiftDistance A.timestampShift))
        (field low width (workerId * 2 ^ shiftDistance A.workerIdShift)))
        (field low width sequence) := by
  rw [allocate_lor, field_toLong h, field_lor, field_lor]

namespace Layout

variable (L : Layout)

theorem allocate_lor (deltaSeconds workerId sequence : ℤ) :
    L.allocator.allocate deltaSeconds workerId sequence =
      toLong (Int.lor (Int.lor (deltaSeconds * 2 ^ (L.w + L.s)) (workerId * 2 ^ L.s)) sequence) := by
  have hsum := L.bits_sum
  have hpos := L.t_pos
  have htimestamp : shiftDistance L.allocator.timestampShift = L.w + L.s := by
    rw [show L.allocator.timestampShift = ((L.w + L.s : ℕ) : ℤ) from rfl,
      shiftDistance_natCast (by omega)]
  have hworker : shiftDistance L.allocator.workerIdShift = L.s := by
    rw [show L.allocator.workerIdShift = (L.s : ℤ) from rfl, shiftDistance_natCast (by omega)]
  rw [BitsAllocator.allocate_lor, htimestamp, hworker]

/-- The sequence is added to the other fields, whatever the worker id. -/
theorem allocate_add (deltaSeconds workerId : ℤ) {sequence : ℤ} (hs : 0 ≤ sequence)
    (hs' : sequence < 2 ^ L.s) :
    L.allocator.allocate deltaSeconds workerId sequence =
      toLong (Int.lor (deltaSeconds * 2 ^ L.w) workerId * 2 ^ L.s + sequence) := by
  rw [allocate_lor, pow_add, ← mul_assoc, lor_mul_two_pow, lor_eq_add _ hs hs']

/-- For a worker id and a sequence that fit, packing is addition. -/
theorem allocate_eq (deltaSeconds : ℤ) {workerId sequence : ℤ} (hw : 0 ≤ workerId)
    (hw' : workerId < 2 ^ L.w) (hs : 0 ≤ sequence) (hs' : sequence < 2 ^ L.s) :
    L.allocator.allocate deltaSeconds workerId sequence =
      toLong (L.pack deltaSeconds workerId sequence) := by
  rw [L.allocate_add deltaSeconds workerId hs hs', lor_eq_add _ hw hw', pack]
  congr 1
  rw [pow_add]
  ring

/-- A delta that wraps at 64 bits is the same delta. -/
theorem allocate_toLong (deltaSeconds workerId sequence : ℤ) :
    L.allocator.allocate (toLong deltaSeconds) workerId sequence =
      L.allocator.allocate deltaSeconds workerId sequence := by
  have hshift (distance : ℤ) :
      shiftLeft (toLong deltaSeconds) distance = shiftLeft deltaSeconds distance :=
    Int.bmod_mul_bmod
  rw [BitsAllocator.allocate, BitsAllocator.allocate, hshift]

/-- A later second outweighs any worker id and sequence. -/
theorem pack_lt_pack {d d' a a' q q' : ℤ} (hd : d < d') (ha : a < 2 ^ L.w) (ha' : 0 ≤ a')
    (hq : q < 2 ^ L.s) (hq' : 0 ≤ q') : L.pack d a q < L.pack d' a' q' := by
  have hs : (0 : ℤ) < 2 ^ L.s := by positivity
  have hws : (0 : ℤ) < 2 ^ (L.w + L.s) := by positivity
  have h1 : (a + 1) * 2 ^ L.s ≤ 2 ^ (L.w + L.s) := by
    rw [pow_add]
    exact mul_le_mul_of_nonneg_right (by omega) hs.le
  have h2 : (d + 1) * 2 ^ (L.w + L.s) ≤ d' * 2 ^ (L.w + L.s) :=
    mul_le_mul_of_nonneg_right (by omega) hws.le
  have h3 : 0 ≤ a' * 2 ^ L.s := by positivity
  unfold pack
  linarith

/-- Fields in range never reach the sign bit. -/
theorem pack_range {d a q : ℤ} (hd : 0 ≤ d) (hd' : d < 2 ^ L.t) (ha : 0 ≤ a) (ha' : a < 2 ^ L.w)
    (hq : 0 ≤ q) (hq' : q < 2 ^ L.s) : 0 ≤ L.pack d a q ∧ L.pack d a q < 2 ^ 63 := by
  constructor
  · unfold pack
    positivity
  · have h := L.pack_lt_pack hd' ha' (le_refl 0) hq' (le_refl 0)
    have htop : L.pack (2 ^ L.t) 0 0 = 2 ^ 63 := by simp [pack, L.two_pow_sum]
    rwa [htop] at h

theorem allocate_eq_pack {d a q : ℤ} (hd : 0 ≤ d) (hd' : d < 2 ^ L.t) (ha : 0 ≤ a)
    (ha' : a < 2 ^ L.w) (hq : 0 ≤ q) (hq' : q < 2 ^ L.s) :
    L.allocator.allocate d a q = L.pack d a q := by
  obtain ⟨h0, h63⟩ := L.pack_range hd hd' ha ha' hq hq'
  rw [L.allocate_eq d ha ha' hq hq', toLong_eq_self ⟨by omega, h63⟩]

/-- `parse` reads three adjacent fields; the sign bit is part of the delta. -/
theorem parse_eq (uid : ℤ) :
    L.allocator.parse uid =
      ⟨field (L.w + L.s) (L.t + 1) uid, field L.s L.w uid, field 0 L.s uid⟩ := by
  obtain ⟨t, w, s, ht, hw, hs, hsum⟩ := L
  have h64 : TOTAL_BITS = 64 := by decide
  have h1 : roundToDouble (TOTAL_BITS - (s : ℤ)) = ((64 - s : ℕ) : ℤ) := by
    rw [roundToDouble_of_lt _ (by omega)]
    omega
  have h2 : roundToDouble ((t : ℤ) + 1) = ((t + 1 : ℕ) : ℤ) := by
    rw [roundToDouble_of_lt _ (by omega)]
    omega
  have h3 : roundToDouble (TOTAL_BITS - (w : ℤ)) = ((s + (t + 1) : ℕ) : ℤ) := by
    rw [roundToDouble_of_lt _ (by omega)]
    omega
  have h4 : roundToDouble ((w : ℤ) + s) = ((w + s : ℕ) : ℤ) := by
    rw [roundToDouble_of_lt _ (by omega)]
    omega
  have hseq := unsignedShiftRight_shiftLeft 0 hs (show 0 < 64 - s by omega) (by omega) uid
  rw [Nat.zero_add] at hseq
  simp only [BitsAllocator.parse, allocator, h1, h2, h3, h4, hseq]
  rw [unsignedShiftRight_shiftLeft s hw (by omega) (by omega),
    unsignedShiftRight_eq (w + s) (t + 1) (by omega) (by omega) (by omega)]

theorem field_allocate {low width : ℕ} (h : low + width ≤ 64) (deltaSeconds workerId sequence : ℤ) :
    field low width (L.allocator.allocate deltaSeconds workerId sequence) =
      Int.lor (Int.lor (field low width (deltaSeconds * 2 ^ (L.w + L.s)))
        (field low width (workerId * 2 ^ L.s))) (field low width sequence) := by
  rw [allocate_lor, field_toLong h, field_lor, field_lor]

/-- The high field of a word holds the delta, and whatever of the worker id overflows. -/
theorem delta_allocate {width : ℕ} (h : width ≤ L.t + 1) (deltaSeconds workerId : ℤ) {sequence : ℤ}
    (hs : 0 ≤ sequence) (hs' : sequence < 2 ^ L.s) :
    field (L.w + L.s) width (L.allocator.allocate deltaSeconds workerId sequence) =
      Int.lor (field 0 width deltaSeconds) (field L.w width workerId) := by
  have hsum := L.bits_sum
  have hseq : sequence < 2 ^ (L.w + L.s) :=
    hs'.trans_le (pow_le_pow_right₀ (by norm_num) (by omega))
  have hdelta := field_mul_two_pow 0 width (L.w + L.s) deltaSeconds
  have hworker := field_mul_two_pow L.w width L.s workerId
  rw [Nat.add_zero] at hdelta
  rw [Nat.add_comm] at hworker
  rw [L.field_allocate (by omega), field_eq_zero _ hs hseq, lor_zero, hdelta, hworker]

theorem parse_allocate (deltaSeconds workerId : ℤ) {sequence : ℤ} (hs : 0 ≤ sequence)
    (hs' : sequence < 2 ^ L.s) :
    L.allocator.parse (L.allocator.allocate deltaSeconds workerId sequence) =
      ⟨Int.lor (field 0 (L.t + 1) deltaSeconds) (field L.w (L.t + 1) workerId),
        field 0 L.w workerId, sequence⟩ := by
  have hsum := L.bits_sum
  rw [parse_eq, L.delta_allocate le_rfl deltaSeconds workerId hs hs', field_allocate L (by omega),
    field_allocate L (by omega)]
  congr 1
  · rw [field_mul_two_pow_below (by omega), zero_lor, field_eq_zero _ hs hs', lor_zero]
    exact field_mul_two_pow 0 L.w L.s workerId
  · rw [field_mul_two_pow_below (by omega), field_mul_two_pow_below (by omega), lor_zero, zero_lor,
      field_eq_self hs hs']

/-- With a worker id in range, only the delta is reduced, to `t + 1` bits. -/
theorem parse_allocate_of_worker (deltaSeconds : ℤ) {workerId sequence : ℤ} (hw : 0 ≤ workerId)
    (hw' : workerId < 2 ^ L.w) (hs : 0 ≤ sequence) (hs' : sequence < 2 ^ L.s) :
    L.allocator.parse (L.allocator.allocate deltaSeconds workerId sequence) =
      ⟨deltaSeconds % 2 ^ (L.t + 1), workerId, sequence⟩ := by
  rw [L.parse_allocate deltaSeconds workerId hs hs', field_eq_zero _ hw hw', lor_zero,
    field_eq_self hw hw', field_zero_low]

theorem allocate_parse {uid : ℤ} (h : IsLong uid) :
    L.allocator.allocate (L.allocator.parse uid).deltaSeconds (L.allocator.parse uid).workerId
      (L.allocator.parse uid).sequence = uid := by
  have h64 : L.s + (L.w + (L.t + 1)) = 64 := by have := L.bits_sum; omega
  have hfields : L.pack (field (L.w + L.s) (L.t + 1) uid) (field L.s L.w uid) (field 0 L.s uid) =
      uid % 2 ^ 64 := by
    rw [← field_zero_low, ← h64, field_add_width 0 L.s, field_add_width (0 + L.s) L.w, zero_add,
      Nat.add_comm L.s L.w, pack, pow_add]
    ring
  rw [L.parse_eq, L.allocate_eq _ (field_nonneg _ _ _) (field_lt _ _ _) (field_nonneg _ _ _)
    (field_lt _ _ _), hfields, ← toLong_emod,
    toLong_eq_toLong_iff.mpr (Int.emod_emod_of_dvd _ dvd_rfl), toLong_toLong, toLong_eq_self h]

end Layout

/-- Encode and decode are mutually inverse over the whole 64-bit format. -/
theorem allocate_parse_inverse {t w s : ℤ} (ht : 0 < t) (hw : 0 < w) (hs : 0 < s)
    (hsum : t + w + s = 63) :
    ∃ A, BitsAllocator.new t w s = .ok A ∧
      (∀ delta worker seq, 0 ≤ delta → delta ≤ A.maxDeltaSeconds → 0 ≤ worker →
        worker ≤ A.maxWorkerId → 0 ≤ seq → seq ≤ A.maxSequence →
        0 ≤ A.allocate delta worker seq ∧ A.allocate delta worker seq < 2 ^ 63 ∧
          A.parse (A.allocate delta worker seq) = ⟨delta, worker, seq⟩) ∧
      ∀ uid, -2 ^ 63 ≤ uid → uid < 2 ^ 63 →
        A.allocate (A.parse uid).deltaSeconds (A.parse uid).workerId (A.parse uid).sequence =
          uid := by
  obtain ⟨L, rfl, rfl, rfl⟩ := Layout.exists_of_widths ht hw hs hsum
  refine ⟨L.allocator, L.new_eq, ?_, fun uid h0 h1 => L.allocate_parse ⟨h0, h1⟩⟩
  intro delta worker seq hd hd' ha ha' hq hq'
  have hd'' : delta < 2 ^ L.t := Int.lt_of_le_sub_one hd'
  have ha'' : worker < 2 ^ L.w := Int.lt_of_le_sub_one ha'
  have hq'' : seq < 2 ^ L.s := Int.lt_of_le_sub_one hq'
  have hdelta : delta % 2 ^ (L.t + 1) = delta :=
    Int.emod_eq_of_lt hd (hd''.trans (pow_lt_pow_right₀ (by norm_num) (by omega)))
  obtain ⟨h0, h63⟩ := L.pack_range hd hd'' ha ha'' hq hq''
  rw [L.parse_allocate_of_worker delta ha ha'' hq hq'', hdelta,
    L.allocate_eq_pack hd hd'' ha ha'' hq hq'']
  exact ⟨h0, h63, rfl⟩

theorem allocate_parse_inverse_readme :
    ∃ A, BitsAllocator.new 29 21 13 = .ok A ∧
      A.parse (A.allocate 314518889 1 3380) = ⟨314518889, 1, 3380⟩ ∧
      A.allocate (A.parse (-1)).deltaSeconds (A.parse (-1)).workerId (A.parse (-1)).sequence =
        -1 := by
  obtain ⟨A, hA, henc, hdec⟩ := allocate_parse_inverse (t := 29) (w := 21) (s := 13)
    (by decide) (by decide) (by decide) (by decide)
  obtain rfl : A = _ := (Except.ok.inj (hA.symm.trans (show _ = Except.ok _ from rfl)))
  exact ⟨_, hA, (henc 314518889 1 3380 (by decide) (by decide) (by decide) (by decide) (by decide)
    (by decide)).2.2, hdec (-1) (by decide) (by decide)⟩

/-- The fields of a UID, compared from the delta down to the sequence. -/
def UidFields.order (fields : UidFields) : ℤ ×ₗ ℤ ×ₗ ℤ :=
  toLex (fields.deltaSeconds, toLex (fields.workerId, fields.sequence))

structure BitsAllocator.Holds (A : BitsAllocator) (fields : UidFields) : Prop where
  deltaSeconds_nonneg : 0 ≤ fields.deltaSeconds
  deltaSeconds_le : fields.deltaSeconds ≤ A.maxDeltaSeconds
  workerId_nonneg : 0 ≤ fields.workerId
  workerId_le : fields.workerId ≤ A.maxWorkerId
  sequence_nonneg : 0 ≤ fields.sequence
  sequence_le : fields.sequence ≤ A.maxSequence

namespace Layout

variable (L : Layout)

theorem allocate_of_holds {fields : UidFields} (h : L.allocator.Holds fields) :
    L.allocator.allocate fields.deltaSeconds fields.workerId fields.sequence =
      L.pack fields.deltaSeconds fields.workerId fields.sequence :=
  L.allocate_eq_pack h.deltaSeconds_nonneg (Int.lt_of_le_sub_one h.deltaSeconds_le)
    h.workerId_nonneg (Int.lt_of_le_sub_one h.workerId_le) h.sequence_nonneg
    (Int.lt_of_le_sub_one h.sequence_le)

theorem pack_strictMonoOn :
    StrictMonoOn (fun x : ℤ ×ₗ ℤ ×ₗ ℤ => L.pack (ofLex x).1 (ofLex (ofLex x).2).1 (ofLex (ofLex x).2).2)
      {x | ∃ fields, L.allocator.Holds fields ∧ fields.order = x} := by
  rintro _ ⟨f, hf, rfl⟩ _ ⟨g, hg, rfl⟩ hlt
  have hf_worker := Int.lt_of_le_sub_one hf.workerId_le
  have hf_sequence := Int.lt_of_le_sub_one hf.sequence_le
  have hg_sequence := hg.sequence_nonneg
  simp only [UidFields.order, Prod.Lex.toLex_lt_toLex] at hlt
  simp only [UidFields.order, ofLex_toLex]
  rcases hlt with hdelta | ⟨hdelta, hworker | ⟨hworker, hsequence⟩⟩
  · exact L.pack_lt_pack hdelta hf_worker hg.workerId_nonneg hf_sequence hg_sequence
  · have hstep : (f.workerId + 1) * 2 ^ L.s ≤ g.workerId * 2 ^ L.s :=
      mul_le_mul_of_nonneg_right (by omega) (by positivity)
    rw [hdelta]
    unfold pack
    linarith
  · rw [hdelta, hworker]
    unfold pack
    linarith

end Layout

/-- UIDs are ordered as their fields, from the delta down; those of an earlier second
come first, whichever workers they are from. -/
theorem allocate_lt_allocate_iff {t w s : ℤ} (ht : 0 < t) (hw : 0 < w) (hs : 0 < s)
    (hsum : t + w + s = 63) :
    ∃ A, BitsAllocator.new t w s = .ok A ∧ ∀ f g : UidFields, A.Holds f → A.Holds g →
      (A.allocate f.deltaSeconds f.workerId f.sequence <
          A.allocate g.deltaSeconds g.workerId g.sequence ↔ f.order < g.order) ∧
      (f.deltaSeconds < g.deltaSeconds →
        A.allocate f.deltaSeconds f.workerId f.sequence <
          A.allocate g.deltaSeconds g.workerId g.sequence) := by
  obtain ⟨L, rfl, rfl, rfl⟩ := Layout.exists_of_widths ht hw hs hsum
  refine ⟨L.allocator, L.new_eq, fun f g hf hg => ?_⟩
  have hiff : L.pack f.deltaSeconds f.workerId f.sequence <
      L.pack g.deltaSeconds g.workerId g.sequence ↔ f.order < g.order :=
    L.pack_strictMonoOn.lt_iff_lt ⟨f, hf, rfl⟩ ⟨g, hg, rfl⟩
  rw [L.allocate_of_holds hf, L.allocate_of_holds hg, hiff]
  exact ⟨Iff.rfl, fun hdelta => Prod.Lex.toLex_lt_toLex.2 (Or.inl hdelta)⟩

/-- The last UID of a second comes before the first of the next, from another worker. -/
theorem allocate_lt_allocate_next_second :
    ∃ A, BitsAllocator.new 29 21 13 = .ok A ∧
      A.allocate 314518889 2097151 8191 < A.allocate 314518890 0 0 := by
  obtain ⟨A, hA, horder⟩ := allocate_lt_allocate_iff (t := 29) (w := 21) (s := 13)
    (by decide) (by decide) (by decide) (by decide)
  obtain rfl : A = _ := (Except.ok.inj (hA.symm.trans (show _ = Except.ok _ from rfl)))
  have hlast := horder ⟨314518889, 2097151, 8191⟩ ⟨314518890, 0, 0⟩
    ⟨by decide, by decide, by decide, by decide, by decide, by decide⟩
    ⟨by decide, by decide, by decide, by decide, by decide, by decide⟩
  exact ⟨_, hA, hlast.2 (by decide)⟩

end UID
