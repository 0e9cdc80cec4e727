import UidGenerator.Proofs.Layout

/-! Allocators of all the widths that the constructor accepts. It checks their sum only,
while the maxima and the shifts see every width modulo 64, and the sum of the last two
widths as the double it is rounded to. -/

namespace UID

open BitField

variable {t w s : ℤ} {A : BitsAllocator}

/-- Different fields in range always give different UIDs. -/
def BitsAllocator.Usable (A : BitsAllocator) : Prop :=
  ∀ f g : UidFields, A.Holds f → A.Holds g →
    A.allocate f.deltaSeconds f.workerId f.sequence =
      A.allocate g.deltaSeconds g.workerId g.sequence → f = g

structure HasWidths (t w s : ℤ) (A : BitsAllocator) : Prop where
  maxDeltaSeconds : A.maxDeltaSeconds = 2 ^ shiftDistance t - 1
  maxWorkerId : A.maxWorkerId = 2 ^ shiftDistance w - 1
  maxSequence : A.maxSequence = 2 ^ shiftDistance s - 1
  timestampShift : A.timestampShift = roundToDouble (w + s)
  workerIdShift : A.workerIdShift = s

theorem hasWidths_of_new (h : BitsAllocator.new t w s = .ok A) : HasWidths t w s A := by
  have htotal : roundToDouble (roundToDouble (roundToDouble (1 + t) + w) + s) = TOTAL_BITS := by
    rw [total_of_new h]
    decide
  simp only [BitsAllocator.new, isTrue, htotal, if_true] at h
  obtain rfl := Except.ok.inj h
  exact ⟨not_shiftLeft_neg_one t, not_shiftLeft_neg_one w, not_shiftLeft_neg_one s, rfl, rfl⟩

theorem HasWidths.holds_iff (h : HasWidths t w s A) (fields : UidFields) :
    A.Holds fields ↔
      (0 ≤ fields.deltaSeconds ∧ fields.deltaSeconds < 2 ^ shiftDistance t) ∧
      (0 ≤ fields.workerId ∧ fields.workerId < 2 ^ shiftDistance w) ∧
      0 ≤ fields.sequence ∧ fields.sequence < 2 ^ shiftDistance s := by
  refine ⟨?_, ?_⟩
  · intro hfields
    have hdelta := h.maxDeltaSeconds ▸ hfields.deltaSeconds_le
    have hworker := h.maxWorkerId ▸ hfields.workerId_le
    have hsequence := h.maxSequence ▸ hfields.sequence_le
    exact ⟨⟨hfields.deltaSeconds_nonneg, Int.lt_of_le_sub_one hdelta⟩,
      ⟨hfields.workerId_nonneg, Int.lt_of_le_sub_one hworker⟩,
      hfields.sequence_nonneg, Int.lt_of_le_sub_one hsequence⟩
  · rintro ⟨⟨hdelta, hdelta'⟩, ⟨hworker, hworker'⟩, hsequence, hsequence'⟩
    exact ⟨hdelta, h.maxDeltaSeconds ▸ Int.le_sub_one_of_lt hdelta', hworker,
      h.maxWorkerId ▸ Int.le_sub_one_of_lt hworker', hsequence,
      h.maxSequence ▸ Int.le_sub_one_of_lt hsequence'⟩

/-- The worker id and the sequence fit into 64 bits, and a delta fits above them, at the
shift that the rounded sum of their widths gives. -/
def FieldsApart (t w s : ℤ) : Prop :=
  w % 64 + s % 64 ≤ 64 ∧
    (t % 64 = 0 ∨
      w % 64 + s % 64 ≤ roundToDouble (w + s) % 64 ∧ roundToDouble (w + s) % 64 + t % 64 ≤ 64)

theorem fieldsApart_iff :
    FieldsApart t w s ↔ shiftDistance w + shiftDistance s ≤ 64 ∧
      (shiftDistance t = 0 ∨
        shiftDistance w + shiftDistance s ≤ shiftDistance (roundToDouble (w + s)) ∧
          shiftDistance (roundToDouble (w + s)) + shiftDistance t ≤ 64) := by
  simp only [FieldsApart, shiftDistance_eq]
  omega

/-- Where no sum is rounded, the fields are apart exactly when the widths still make up
63 bits after they are reduced. -/
theorem fieldsApart_iff_of_exact (hsum : 1 + t + w + s = 64)
    (hshift : roundToDouble (w + s) = w + s) :
    FieldsApart t w s ↔ t % 64 + w % 64 + s % 64 = 63 := by
  rw [FieldsApart, hshift]
  omega

/-- A field of the shifted delta below it, or of no delta at all. -/
theorem field_delta_eq_zero {low width shift bits : ℕ} {delta : ℤ} (h0 : 0 ≤ delta)
    (h : delta < 2 ^ bits) (hlow : bits = 0 ∨ low + width ≤ shift) :
    field low width (delta * 2 ^ shift) = 0 := by
  rcases hlow with rfl | hlow
  · obtain rfl : delta = 0 := by omega
    rw [zero_mul, field_eq_zero width (le_refl 0) (by positivity)]
  · exact field_mul_two_pow_below hlow delta

theorem HasWidths.sequence_allocate (h : HasWidths t w s A) (hapart : FieldsApart t w s)
    {fields : UidFields} (hfields : A.Holds fields) :
    field 0 (shiftDistance s)
      (A.allocate fields.deltaSeconds fields.workerId fields.sequence) = fields.sequence := by
  obtain ⟨⟨hdelta, hdelta'⟩, -, hsequence, hsequence'⟩ := (h.holds_iff fields).1 hfields
  obtain ⟨hlow, hhigh⟩ := fieldsApart_iff.1 hapart
  rw [A.field_allocate (by omega), h.timestampShift, h.workerIdShift,
    field_delta_eq_zero hdelta hdelta' (by omega), field_mul_two_pow_below (by omega), lor_zero,
    zero_lor, field_eq_self hsequence hsequence']

theorem HasWidths.worker_allocate (h : HasWidths t w s A) (hapart : FieldsApart t w s)
    {fields : UidFields} (hfields : A.Holds fields) :
    field (shiftDistance s) (shiftDistance w)
      (A.allocate fields.deltaSeconds fields.workerId fields.sequence) = fields.workerId := by
  obtain ⟨⟨hdelta, hdelta'⟩, ⟨hworker, hworker'⟩, hsequence, hsequence'⟩ :=
    (h.holds_iff fields).1 hfields
  obtain ⟨hlow, hhigh⟩ := fieldsApart_iff.1 hapart
  have hshifted := field_mul_two_pow 0 (shiftDistance w) (shiftDistance s) fields.workerId
  rw [Nat.add_zero] at hshifted
  rw [A.field_allocate (by omega), h.timestampShift, h.workerIdShift,
    field_delta_eq_zero hdelta hdelta' (by omega), zero_lor, hshifted,
    field_eq_self hworker hworker', field_eq_zero _ hsequence hsequence', lor_zero]

/-- A delta is read back wherever there can be one. -/
theorem HasWidths.delta_allocate (h : HasWidths t w s A) (hapart : FieldsApart t w s)
    (hbits : shiftDistance t ≠ 0) {fields : UidFields} (hfields : A.Holds fields) :
    field (shiftDistance (roundToDouble (w + s))) (shiftDistance t)
      (A.allocate fields.deltaSeconds fields.workerId fields.sequence) = fields.deltaSeconds := by
  obtain ⟨⟨hdelta, hdelta'⟩, ⟨hworker, hworker'⟩, hsequence, hsequence'⟩ :=
    (h.holds_iff fields).1 hfields
  obtain ⟨-, hhigh⟩ := fieldsApart_iff.1 hapart
  obtain ⟨hbelow, habove⟩ := hhigh.resolve_left hbits
  have hshifted := field_mul_two_pow 0 (shiftDistance t) (shiftDistance (roundToDouble (w + s)))
    fields.deltaSeconds
  rw [Nat.add_zero] at hshifted
  have hworker_top : fields.workerId * 2 ^ shiftDistance s <
      2 ^ shiftDistance (roundToDouble (w + s)) := by
    calc fields.workerId * 2 ^ shiftDistance s
        < 2 ^ shiftDistance w * 2 ^ shiftDistance s :=
          mul_lt_mul_of_pos_right hworker' (by positivity)
      _ = 2 ^ (shiftDistance w + shiftDistance s) := (pow_add 2 _ _).symm
      _ ≤ 2 ^ shiftDistance (roundToDouble (w + s)) := pow_le_pow_right₀ (by norm_num) hbelow
  have hsequence_top : fields.sequence < 2 ^ shiftDistance (roundToDouble (w + s)) :=
    hsequence'.trans_le (pow_le_pow_right₀ (by norm_num) (by omega))
  rw [A.field_allocate habove, h.timestampShift, h.workerIdShift, hshifted,
    field_eq_self hdelta hdelta', field_eq_zero _ (by positivity) hworker_top,
    field_eq_zero _ hsequence hsequence_top, lor_zero, lor_zero]

theorem HasWidths.usable (h : HasWidths t w s A) (hapart : FieldsApart t w s) : A.Usable := by
  intro f g hf hg heq
  have hsequence : f.sequence = g.sequence := by
    rw [← h.sequence_allocate hapart hf, heq, h.sequence_allocate hapart hg]
  have hworker : f.workerId = g.workerId := by
    rw [← h.worker_allocate hapart hf, heq, h.worker_allocate hapart hg]
  have hdelta : f.deltaSeconds = g.deltaSeconds := by
    by_cases hbits : shiftDistance t = 0
    · obtain ⟨⟨hf0, hf1⟩, -⟩ := (h.holds_iff f).1 hf
      obtain ⟨⟨hg0, hg1⟩, -⟩ := (h.holds_iff g).1 hg
      rw [hbits, pow_zero] at hf1 hg1
      omega
    · rw [← h.delta_allocate hapart hbits hf, heq, h.delta_allocate hapart hbits hg]
  obtain ⟨_, _, _⟩ := f
  obtain ⟨_, _, _⟩ := g
  simp only at hdelta hworker hsequence
  rw [hdelta, hworker, hsequence]

theorem HasWidths.allocate_delta (h : HasWidths t w s A) (delta : ℤ) :
    A.allocate delta 0 0 = toLong (delta * 2 ^ shiftDistance (roundToDouble (w + s))) := by
  rw [A.allocate_lor, h.timestampShift, zero_mul, lor_zero, lor_zero]

theorem HasWidths.allocate_worker (h : HasWidths t w s A) (worker : ℤ) :
    A.allocate 0 worker 0 = toLong (worker * 2 ^ shiftDistance s) := by
  rw [A.allocate_lor, h.workerIdShift, zero_mul, zero_lor, lor_zero]

theorem allocate_sequence (A : BitsAllocator) (sequence : ℤ) :
    A.allocate 0 0 sequence = toLong sequence := by
  rw [A.allocate_lor, zero_mul, zero_mul, zero_lor, zero_lor]

theorem toLong_two_pow_mul {n : ℕ} (hn : n ≤ 64) : toLong (2 ^ (64 - n) * 2 ^ n) = toLong 0 := by
  rw [← pow_add, Nat.sub_add_cancel hn]
  decide

theorem shiftDistance_lt (distance : ℤ) : shiftDistance distance < 64 := by
  rw [shiftDistance_eq]
  omega

/-- Triples of a single bit. -/
theorem HasWidths.holds_bit (h : HasWidths t w s A) {n : ℕ} :
    (n < shiftDistance t → A.Holds ⟨2 ^ n, 0, 0⟩) ∧ (n < shiftDistance w → A.Holds ⟨0, 2 ^ n, 0⟩) ∧
      (n < shiftDistance s → A.Holds ⟨0, 0, 2 ^ n⟩) := by
  have hpow (k : ℕ) : (0 : ℤ) < 2 ^ k := by positivity
  have hlt {k : ℕ} (hn : n < k) : (2 : ℤ) ^ n < 2 ^ k := pow_lt_pow_right₀ (by norm_num) hn
  simp only [h.holds_iff]
  exact ⟨fun hn => ⟨⟨(hpow n).le, hlt hn⟩, ⟨le_refl 0, hpow _⟩, le_refl 0, hpow _⟩,
    fun hn => ⟨⟨le_refl 0, hpow _⟩, ⟨(hpow n).le, hlt hn⟩, le_refl 0, hpow _⟩,
    fun hn => ⟨⟨le_refl 0, hpow _⟩, ⟨le_refl 0, hpow _⟩, (hpow n).le, hlt hn⟩⟩

theorem HasWidths.holds_zero (h : HasWidths t w s A) : A.Holds ⟨0, 0, 0⟩ := by
  have hpow (k : ℕ) : (0 : ℤ) < 2 ^ k := by positivity
  exact (h.holds_iff _).2 ⟨⟨le_refl 0, hpow _⟩, ⟨le_refl 0, hpow _⟩, le_refl 0, hpow _⟩

/-- A worker bit at the end of the word would be dropped. -/
theorem HasWidths.worker_fits (h : HasWidths t w s A) (husable : A.Usable) :
    shiftDistance w + shiftDistance s ≤ 64 := by
  by_contra hover
  have hs := shiftDistance_lt s
  have heq : A.allocate 0 (2 ^ (64 - shiftDistance s)) 0 = A.allocate 0 0 0 := by
    rw [h.allocate_worker, allocate_sequence, toLong_two_pow_mul hs.le]
  have hfields := husable _ _ (h.holds_bit.2.1 (by omega)) h.holds_zero heq
  have hbit : (0 : ℤ) < 2 ^ (64 - shiftDistance s) := by positivity
  simp only [UidFields.mk.injEq] at hfields
  omega

/-- The lowest delta bit would be one of the sequence, or one of the worker id. -/
theorem HasWidths.delta_above (h : HasWidths t w s A) (husable : A.Usable)
    (hbits : shiftDistance t ≠ 0) :
    shiftDistance w + shiftDistance s ≤ shiftDistance (roundToDouble (w + s)) := by
  by_contra hbelow
  have hone : A.Holds ⟨2 ^ 0, 0, 0⟩ := h.holds_bit.1 (by omega)
  by_cases hlow : shiftDistance (roundToDouble (w + s)) < shiftDistance s
  · have hfields := husable _ _ hone (h.holds_bit.2.2 hlow) (by
      rw [h.allocate_delta, allocate_sequence, pow_zero, one_mul])
    simp only [UidFields.mk.injEq] at hfields
    omega
  · have hworker : A.Holds ⟨0, 2 ^ (shiftDistance (roundToDouble (w + s)) - shiftDistance s), 0⟩ :=
      h.holds_bit.2.1 (by omega)
    have hfields := husable _ _ hone hworker (by
      rw [h.allocate_delta, h.allocate_worker, pow_zero, one_mul, ← pow_add,
        Nat.sub_add_cancel (by omega)])
    simp only [UidFields.mk.injEq] at hfields
    omega

/-- A delta bit at the end of the word would be dropped. -/
theorem HasWidths.delta_fits (h : HasWidths t w s A) (husable : A.Usable) :
    shiftDistance (roundToDouble (w + s)) + shiftDistance t ≤ 64 := by
  by_contra hover
  have hshift := shiftDistance_lt (roundToDouble (w + s))
  have heq : A.allocate (2 ^ (64 - shiftDistance (roundToDouble (w + s)))) 0 0 =
      A.allocate 0 0 0 := by
    rw [h.allocate_delta, allocate_sequence, toLong_two_pow_mul hshift.le]
  have hfields := husable _ _ (h.holds_bit.1 (by omega)) h.holds_zero heq
  have hbit : (0 : ℤ) < 2 ^ (64 - shiftDistance (roundToDouble (w + s))) := by positivity
  simp only [UidFields.mk.injEq] at hfields
  omega

/-- Where two fields overlap, or one reaches past the word, two triples of single bits
have one UID. -/
theorem HasWidths.fieldsApart (h : HasWidths t w s A) (husable : A.Usable) :
    FieldsApart t w s := by
  refine fieldsApart_iff.2 ⟨h.worker_fits husable, ?_⟩
  by_cases hbits : shiftDistance t = 0
  · exact Or.inl hbits
  · exact Or.inr ⟨h.delta_above husable hbits, h.delta_fits husable⟩

/-- An accepted allocator keeps all fields in range apart exactly when its fields lie side
by side; unless a sum is rounded, that is when its widths modulo 64 still make up 63 bits. -/
theorem allocator_usable_iff (h : BitsAllocator.new t w s = .ok A) :
    (A.Usable ↔ FieldsApart t w s) ∧
      (1 + t + w + s = 64 → roundToDouble (w + s) = w + s →
        (A.Usable ↔ t % 64 + w % 64 + s % 64 = 63)) := by
  have hiff : A.Usable ↔ FieldsApart t w s :=
    ⟨(hasWidths_of_new h).fieldsApart, (hasWidths_of_new h).usable⟩
  exact ⟨hiff, fun hsum hshift => hiff.trans (fieldsApart_iff_of_exact hsum hshift)⟩

theorem allocator_usable_readme :
    ∃ A, BitsAllocator.new 29 21 13 = .ok A ∧ A.Usable :=
  ⟨_, rfl, ((allocator_usable_iff (t := 29) (w := 21) (s := 13) rfl).2 (by decide)
    (by decide)).2 (by decide)⟩

/-- Safe integers whose total is 64, while the shift is the double below `w + s`. -/
example : (∃ A, BitsAllocator.new (62 - 2 ^ 53) (2 ^ 53 - 64) 65 = .ok A) ∧
    ¬FieldsApart (62 - 2 ^ 53) (2 ^ 53 - 64) 65 :=
  ⟨⟨_, rfl⟩, by unfold FieldsApart; decide⟩

/-- The constructor accepts -1 timestamp bits; then delta and sequence share their bits. -/
theorem accepted_allocator_not_usable :
    ∃ A, BitsAllocator.new (-1) 32 32 = .ok A ∧ A.Holds ⟨1, 0, 0⟩ ∧ A.Holds ⟨0, 0, 1⟩ ∧
      A.allocate 1 0 0 = A.allocate 0 0 1 ∧ ¬A.Usable := by
  let A : BitsAllocator := ⟨1, -1, 32, 32, 2 ^ 63 - 1, 2 ^ 32 - 1, 2 ^ 32 - 1, 64, 32⟩
  have hnew : BitsAllocator.new (-1) 32 32 = .ok A := by decide +kernel
  have hdelta : A.Holds ⟨1, 0, 0⟩ := by constructor <;> decide
  have hsequence : A.Holds ⟨0, 0, 1⟩ := by constructor <;> decide
  have heq : A.allocate 1 0 0 = A.allocate 0 0 1 := by decide +kernel
  refine ⟨A, hnew, hdelta, hsequence, heq, ?_⟩
  intro husable
  cases husable _ _ hdelta hsequence heq

end UID
